import HexSkirmish.Toml
import HexSkirmish.Toml.Moment
import HexSkirmish.Toml.Quoted

/-! The values of a TOML document that hold no other value. Every reader takes the characters that
are left and gives a value and the characters after it. -/

namespace HexSkirmish.Toml

open Decimal

/-- A run of digits, between which single underscores may stand. An underscore without a digit on
either side is an error. -/
def digits? (isDigit : Char → Bool) : List Char → Option (List Char × List Char)
  | c :: rest =>
    if !isDigit c then none
    else
      match rest with
      | '_' :: more => (digits? isDigit more).map fun (ds, rest) => (c :: ds, rest)
      | d :: more =>
        if isDigit d then
          (digits? isDigit (d :: more)).map fun (ds, rest) => (c :: ds, rest)
        else some ([c], rest)
      | [] => some ([c], [])
  | [] => none

private def inRange? (n : Int) : Option Toml :=
  if -9223372036854775808 ≤ n ∧ n ≤ 9223372036854775807 then some (.integer n) else none

private def radix? (base : Nat) (isDigit : Char → Bool) (cs : List Char) :
    Option (Toml × List Char) := do
  let (ds, rest) ← digits? isDigit cs
  return (← inRange? (valueIn base ds), rest)

private def isExponentMark (c : Char) : Bool := c == 'e' || c == 'E'

/-- The exponent after its mark. -/
private def exponent? (cs : List Char) : Option (Int × List Char) := do
  let (negative, cs) := match cs with
    | '-' :: more => (true, more)
    | '+' :: more => (false, more)
    | more => (false, more)
  let (ds, rest) ← digits? isDigit cs
  let n : Int := valueIn 10 ds
  return (if negative then -n else n, rest)

/-- A float with its sign. One that is too large for a double is an error; below the least double
there is still minus infinity. -/
private def floatOf? (negative : Bool) (whole fraction : List Char) (exponent : Int) :
    Option Toml :=
  let size := ofParts whole fraction exponent
  if negative then some (.float (-size))
  else if size.isInf then none
  else some (.float size)

/-- Whole digits do not begin with a zero unless it is the only one. -/
private def whole? : List Char → Option (List Char × List Char)
  | '0' :: rest => some (['0'], rest)
  | cs => digits? isDigit cs

private def decimal? (negative : Bool) (cs : List Char) : Option (Toml × List Char) := do
  let (whole, rest) ← whole? cs
  match rest with
  | '.' :: more =>
    let (fraction, rest) ← digits? isDigit more
    match rest with
    | c :: more =>
      if isExponentMark c then
        let (e, rest) ← exponent? more
        return (← floatOf? negative whole fraction e, rest)
      else return (← floatOf? negative whole fraction 0, rest)
    | [] => return (← floatOf? negative whole fraction 0, rest)
  | c :: more =>
    if isExponentMark c then
      let (e, rest) ← exponent? more
      return (← floatOf? negative whole [] e, rest)
    else return (← inRange? (signed negative (valueIn 10 whole)), rest)
  | [] => return (← inRange? (signed negative (valueIn 10 whole)), rest)
where
  signed (negative : Bool) (n : Nat) : Int := if negative then -n else n

private def afterSign? (negative : Bool) (cs : List Char) : Option (Toml × List Char) :=
  match cs with
  | 'i' :: 'n' :: 'f' :: rest => some (.float (if negative then -(1 / 0) else 1 / 0), rest)
  | 'n' :: 'a' :: 'n' :: rest => some (.float (0 / 0), rest)
  | _ => decimal? negative cs

private def isOctal (c : Char) : Bool := '0' ≤ c && c ≤ '7'

private def isBinary (c : Char) : Bool := c == '0' || c == '1'

def number? (cs : List Char) : Option (Toml × List Char) :=
  if looksLikeDate cs || looksLikeTime cs then (moment? cs).map (.moment, ·)
  else
    match cs with
    | '0' :: 'x' :: rest => radix? 16 isHexDigit rest
    | '0' :: 'o' :: rest => radix? 8 isOctal rest
    | '0' :: 'b' :: rest => radix? 2 isBinary rest
    | '+' :: rest => afterSign? false rest
    | '-' :: rest => afterSign? true rest
    | _ => afterSign? false cs

/-- A value that holds no other value. -/
def scalar? (cs : List Char) : Option (Toml × List Char) :=
  match cs with
  | 't' :: 'r' :: 'u' :: 'e' :: rest => some (.boolean true, rest)
  | 'f' :: 'a' :: 'l' :: 's' :: 'e' :: rest => some (.boolean false, rest)
  | c :: _ =>
    if c == '"' || c == '\'' then (string? cs).map fun (s, rest) => (.string s, rest)
    else number? cs
  | [] => none

end HexSkirmish.Toml
