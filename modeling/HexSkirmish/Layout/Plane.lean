import HexSkirmish.Layout

/-! The plane on which a board is drawn. A tile is a hexagon with a corner at the top; its size is
the distance from its centre to a corner. All lengths are single-precision numbers, and every
operation rounds. -/

namespace HexSkirmish

structure Point where
  x : Float32
  y : Float32
deriving DecidableEq

namespace Point

/-- The point a share `t` of the way from `a` to `b`. -/
def lerp (a b : Point) (t : Float32) : Point :=
  ⟨a.x + ((b.x - a.x) * t), a.y + ((b.y - a.y) * t)⟩

end Point

namespace Layout

def sqrtThree : Float32 := 1.7320508

/-- Fractional axial components are held within this magnitude before they are rounded. -/
def axialLimit : Float32 := 536870912

/-- The distances between the centres of neighbours in a row and between rows. -/
def spacing (l : Layout) : Point := ⟨sqrtThree * l.size, 1.5 * l.size⟩

def center (l : Layout) (c : Coord) : Point :=
  let shift : Float32 := if c.isOddRow then 0.5 else 0
  ⟨l.spacing.x * (Float32.ofInt c.x.toInt + shift), l.spacing.y * Float32.ofInt c.y.toInt⟩

def centerAt? (l : Layout) (i : Nat) : Option Point := (l.coordAt? i).map l.center

/-- Rounds the three cube components that add up to zero, then restores the sum by giving up the
component that was rounded farthest. -/
def cubeRound (q r : Float32) : Axial :=
  let s := -q - r
  let rq := Single.round q
  let rr := Single.round r
  let rs := Single.round s
  let dq := (rq - q).abs
  let dr := (rr - r).abs
  let ds := (rs - s).abs
  if dr < dq ∧ ds < dq then ⟨word (-rr - rs), word rr⟩
  else if ds < dr then ⟨word rq, word (-rq - rs)⟩
  else ⟨word rq, word rr⟩
where
  word (x : Float32) : Int32 := Int32.ofIntClamp (Single.truncate x)

/-- The fractional axial components of a point. -/
def fractional (l : Layout) (p : Point) : Float32 × Float32 :=
  ((sqrtThree / 3 * p.x - p.y / 3) / l.size, (2 / 3 * p.y) / l.size)

/-- The cell whose hexagon holds a point, on the board or off it. -/
def cellAt (l : Layout) (p : Point) : Coord :=
  let (q, r) := l.fractional p
  if q.isFinite && r.isFinite then
    Coord.ofAxial (cubeRound (Single.clamp q (-axialLimit) axialLimit)
      (Single.clamp r (-axialLimit) axialLimit))
  else Coord.offGrid

end Layout

end HexSkirmish
