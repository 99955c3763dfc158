/-! Single-precision numbers where their bits matter: numbers kept as the 32 bits they were given
in, and the roundings of a number to an integer. -/

namespace HexSkirmish

/-- A single-precision number as its bits, so that every pattern that is not a number is kept. -/
structure Single where
  bits : UInt32
deriving DecidableEq

namespace Single

def value (s : Single) : Float32 := Float32.ofBits s.bits

def ofValue (x : Float32) : Single := ⟨x.toBits⟩

/-- Drops the fraction. What is not a number goes to zero; magnitudes from `2 ^ 64` stop there. -/
def truncate (x : Float32) : Int :=
  if x < 0 then -((-x).toUInt64.toNat : Int) else (x.toUInt64.toNat : Int)

/-- The nearest integer, and of two the one farther from zero. From `2 ^ 23` on every number is an
integer already. -/
def round (x : Float32) : Float32 :=
  let size := x.abs
  if size < 8388608 then
    let whole := Float32.ofNat size.toUInt64.toNat
    let nearest := if 0.5 ≤ size - whole then whole + 1 else whole
    if x < 0 then -nearest else nearest
  else x

/-- Holds a number between two bounds. What is not a number stays as it is. -/
def clamp (x low high : Float32) : Float32 :=
  if x < low then low else if high < x then high else x

end Single

end HexSkirmish
