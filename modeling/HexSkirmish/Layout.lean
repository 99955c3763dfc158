import HexSkirmish.Direction
import HexSkirmish.Single.Text

/-! The shape of a board: how many columns and rows it has and how large its tiles are. A layout
is usable by construction. Tiles are numbered row by row, so that tile `i` lies in column
`i % width` of row `i / width`. -/

namespace HexSkirmish

inductive LayoutError where
  | dimensions (width height : Nat)
  | tileSize (size : Single)

namespace LayoutError

def message : LayoutError → String
  | dimensions w h => "grid dimensions " ++ toString w ++ "x" ++ toString h ++ " are not usable"
  | tileSize s => "tile size " ++ s.text ++ " must be positive and finite"

end LayoutError

/-- A board has at least one and at most `2 ^ 31 - 1` columns, and as many rows. -/
def usableExtent (n : Nat) : Bool := decide (0 < n) && decide (n ≤ 2147483647)

def usableSize (size : Float32) : Bool := size.isFinite && !decide (size ≤ 0)

structure Layout where
  width : Nat
  height : Nat
  size : Float32
  width_usable : usableExtent width = true
  height_usable : usableExtent height = true
  size_usable : usableSize size = true

namespace Layout

/-- Dimensions are judged before the tile size. -/
def create (width height : Nat) (size : Single) : Except LayoutError Layout :=
  if hw : usableExtent width = true ∧ usableExtent height = true then
    if hs : usableSize size.value = true then
      .ok ⟨width, height, size.value, hw.1, hw.2, hs⟩
    else .error (.tileSize size)
  else .error (.dimensions width height)

/-- Eight by eight tiles of size one. -/
def standard : Layout := ⟨8, 8, 1, by decide, by decide, by decide +kernel⟩

def tileCount (l : Layout) : Nat := l.width * l.height

def contains (l : Layout) (c : Coord) : Bool :=
  decide (0 ≤ c.x.toInt) && decide (0 ≤ c.y.toInt) &&
    decide (c.x.toInt < l.width) && decide (c.y.toInt < l.height)

def index? (l : Layout) (c : Coord) : Option Nat :=
  if l.contains c then some (c.y.toInt.toNat * l.width + c.x.toInt.toNat) else none

def coordAt? (l : Layout) (i : Nat) : Option Coord :=
  if i < l.tileCount then some ⟨Int32.ofNat (i % l.width), Int32.ofNat (i / l.width)⟩ else none

/-- The neighbour in a direction, if it lies on the board. -/
def neighbor? (l : Layout) (c : Coord) (d : Direction) : Option Coord :=
  (c.neighbor? d).filter l.contains

/-- The neighbours on the board, in the order of the directions. -/
def neighbors (l : Layout) (c : Coord) : List Coord :=
  Direction.all.filterMap (l.neighbor? c)

end Layout

end HexSkirmish
