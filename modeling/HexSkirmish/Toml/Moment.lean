import HexSkirmish.Decimal.Reading

/-! The dates and times of a TOML document. They are checked against the calendar and the clock and
give what is left after them. -/

namespace HexSkirmish.Toml

open Decimal

private def fixedDigits? (count : Nat) (cs : List Char) : Option (Nat × List Char) :=
  let digits := cs.take count
  if digits.length = count ∧ digits.all isDigit then some (valueIn 10 digits, cs.drop count)
  else none

private def expect? (c : Char) : List Char → Option (List Char)
  | d :: rest => if c = d then some rest else none
  | [] => none

def daysInMonth (year month : Nat) : Nat :=
  let leap := year % 4 = 0 ∧ (year % 100 ≠ 0 ∨ year % 400 = 0)
  if month = 2 then (if leap then 29 else 28)
  else if month ∈ [4, 6, 9, 11] then 30 else 31

def date? (cs : List Char) : Option (List Char) := do
  let (year, rest) ← fixedDigits? 4 cs
  let rest ← expect? '-' rest
  let (month, rest) ← fixedDigits? 2 rest
  let rest ← expect? '-' rest
  let (day, rest) ← fixedDigits? 2 rest
  if 1 ≤ month ∧ month ≤ 12 ∧ 1 ≤ day ∧ day ≤ daysInMonth year month then some rest else none

/-- A fraction may follow the seconds, and a minute may have sixty-one of them. -/
def time? (cs : List Char) : Option (List Char) := do
  let (hour, rest) ← fixedDigits? 2 cs
  let rest ← expect? ':' rest
  let (minute, rest) ← fixedDigits? 2 rest
  let rest ← expect? ':' rest
  let (second, rest) ← fixedDigits? 2 rest
  if 23 < hour ∨ 59 < minute ∨ 60 < second then none
  else
    match rest with
    | '.' :: more =>
      let after := more.dropWhile isDigit
      if after.length < more.length then some after else none
    | _ => some rest

/-- What is left after a distance to universal time; there may be none. -/
def zone? (cs : List Char) : Option (List Char) :=
  match cs with
  | 'Z' :: rest => some rest
  | 'z' :: rest => some rest
  | c :: rest =>
    if c == '+' || c == '-' then do
      let (hour, rest) ← fixedDigits? 2 rest
      let rest ← expect? ':' rest
      let (minute, rest) ← fixedDigits? 2 rest
      if 23 < hour ∨ 59 < minute then none else some rest
    else some cs
  | [] => some []

/-- Two digits and a colon. -/
def looksLikeTime (cs : List Char) : Bool :=
  match cs with
  | a :: b :: ':' :: _ => isDigit a && isDigit b
  | _ => false

/-- Four digits and a dash. -/
def looksLikeDate (cs : List Char) : Bool :=
  match cs with
  | a :: b :: c :: d :: '-' :: _ => [a, b, c, d].all isDigit
  | _ => false

def moment? (cs : List Char) : Option (List Char) :=
  if looksLikeDate cs then do
    let rest ← date? cs
    match rest with
    | c :: more =>
      if (c == 'T' || c == 't' || c == ' ') && looksLikeTime more then zone? (← time? more)
      else some rest
    | [] => some rest
  else time? cs

end HexSkirmish.Toml
