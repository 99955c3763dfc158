/-! Decimal numerals: the value of a run of digits, and the nearest double-precision number to a
decimal with a fraction and an exponent. -/

namespace HexSkirmish.Decimal

def isDigit (c : Char) : Bool := '0' ≤ c && c ≤ '9'

/-- The value of a digit in any base up to sixteen. -/
def digitValue (c : Char) : Nat :=
  if '0' ≤ c && c ≤ '9' then c.toNat - '0'.toNat
  else if 'a' ≤ c && c ≤ 'f' then c.toNat - 'a'.toNat + 10
  else c.toNat - 'A'.toNat + 10

def isHexDigit (c : Char) : Bool :=
  isDigit c || ('a' ≤ c && c ≤ 'f') || ('A' ≤ c && c ≤ 'F')

def valueIn (base : Nat) (digits : List Char) : Nat :=
  digits.foldl (fun n c => n * base + digitValue c) 0

/-- The nearest double to `mantissa * 10 ^ exponent`. Exponents far outside the range of doubles
are settled by the number of digits, so that no huge power is formed. -/
def toDouble (mantissa : Nat) (exponent : Int) : Float :=
  let magnitude : Int := (toString mantissa).length + exponent
  if mantissa = 0 ∨ magnitude < -400 then 0
  else if 400 < magnitude then 1 / 0
  else if 0 ≤ exponent then Float.ofScientific mantissa false exponent.toNat
  else Float.ofScientific mantissa true (-exponent).toNat

/-- The double with whole digits, fraction digits and an exponent. -/
def ofParts (whole fraction : List Char) (exponent : Int) : Float :=
  toDouble (valueIn 10 (whole ++ fraction)) (exponent - fraction.length)

end HexSkirmish.Decimal
