/-! The shortest decimal that reads back as the same binary floating-point number. Such a number is
a whole multiple `m * 2 ^ e` of a power of two, and a decimal reads back as it when it lies nearer
to it than to its neighbours, or as near when `m` is even. The grids of the powers of ten are tried
from the coarsest down; the first that has a point there gives the digits. -/

namespace HexSkirmish.Decimal

/-- A binary format: how many fractions an exponent has, the exponent field of what is not finite,
and the power of two of which every number is a multiple. -/
structure Precision where
  fractions : Nat
  topExponent : Nat
  leastExponent : Int

def Precision.single : Precision := ⟨8388608, 255, -149⟩

def Precision.double : Precision := ⟨4503599627370496, 2047, -1074⟩

inductive Binary where
  | nan
  | infinite
  | zero
  /-- The number `m * 2 ^ e`. The lowest of its binade has its lower neighbour half as far away as
  the upper one. -/
  | positive (m : Nat) (e : Int) (lowest : Bool)

/-- The magnitude that the bits below the sign stand for. -/
def Binary.ofBits (p : Precision) (bits : Nat) : Binary :=
  let exponent := bits / p.fractions
  let fraction := bits % p.fractions
  if exponent = p.topExponent then (if fraction = 0 then infinite else nan)
  else if exponent = 0 then
    (if fraction = 0 then zero else positive fraction p.leastExponent false)
  else
    positive (fraction + p.fractions) (p.leastExponent + exponent - 1)
      (fraction = 0 ∧ 1 < exponent)

private def scaleUp (base : Nat) (k : Int) : Nat := Nat.pow base k.toNat

private def scaleDown (base : Nat) (k : Int) : Nat := Nat.pow base (-k).toNat

/-- The multiple of `10 ^ k` that reads back as `m * 2 ^ e`, if there is one: the nearer of the two
around it, and the greater of two as near. All magnitudes are quarters of `2 ^ e`, brought to one
denominator with `10 ^ k`. -/
def onGrid? (m : Nat) (e : Int) (lowest : Bool) (k : Int) : Option Nat :=
  let unit := scaleUp 10 k * scaleDown 2 (e - 2)
  let quarter := scaleDown 10 k * scaleUp 2 (e - 2)
  let value := 4 * m * quarter
  let low := (4 * m - if lowest then 1 else 2) * quarter
  let high := (4 * m + 2) * quarter
  let closed := m % 2 == 0
  let below := value / unit
  let belowFits := low < below * unit || closed && below * unit == low
  let above := below + 1
  let aboveFits := above * unit < high || closed && above * unit == high
  if below * unit == value then some below
  else if aboveFits && (!belowFits || above * unit - value ≤ value - below * unit) then some above
  else if belowFits then some below
  else none

/-- The first grid with a hit: its power of ten and the multiple of it. -/
def firstGrid (m : Nat) (e : Int) (lowest : Bool) : Nat → Int → Nat × Int
  | 0, k => (0, k)
  | fuel + 1, k =>
    match onGrid? m e lowest k with
    | some digits => (digits, k)
    | none => firstGrid m e lowest fuel (k - 1)

/-- The digits and the power of ten of the shortest decimal. No number reaches `10 ^ 310`, and the
grid of the power of ten with the exponent `e` holds every multiple of `2 ^ e`. -/
def shortest (m : Nat) (e : Int) (lowest : Bool) : Nat × Int :=
  firstGrid m e lowest (311 + e.natAbs) 310

/-- Writes `digits * 10 ^ k` without an exponent, and without a fraction when there is none. -/
def positional (digits : Nat) (k : Int) : String :=
  let text := (toString digits).toList
  if 0 ≤ k then String.ofList (text ++ List.replicate k.toNat '0')
  else
    let places := (-k).toNat
    let padded := List.replicate (places + 1 - text.length) '0' ++ text
    let whole := padded.length - places
    String.ofList (padded.take whole ++ '.' :: padded.drop whole)

/-- Writes `digits * 10 ^ k` with an exponent. -/
def scientific (digits : Nat) (k : Int) : String := toString digits ++ "e" ++ toString k

end HexSkirmish.Decimal
