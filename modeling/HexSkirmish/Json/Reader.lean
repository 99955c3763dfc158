import HexSkirmish.Decimal.Reading
import HexSkirmish.Json

/-! Reading JSON text. Every reader takes the characters that are left and gives a value and the
characters after it. A value inside a value is read with one unit of fuel less; the length of the
text is always enough. -/

namespace HexSkirmish.Json

open Decimal

def isBlank (c : Char) : Bool := c == ' ' || c == '\t' || c == '\n' || c == '\r'

def skipBlanks (cs : List Char) : List Char := cs.dropWhile isBlank

/-- What is left after a literal word. -/
def literal? : List Char → List Char → Option (List Char)
  | [], rest => some rest
  | c :: word, d :: rest => if c = d then literal? word rest else none
  | _, [] => none

def hexFour? : List Char → Option (Nat × List Char)
  | a :: b :: c :: d :: rest =>
    if [a, b, c, d].all isHexDigit then some (valueIn 16 [a, b, c, d], rest) else none
  | _ => none

/-- A code unit after its escape, joined with a second one when it is the first half of a pair. -/
def codePoint? (cs : List Char) : Option (Char × List Char) :=
  match hexFour? cs with
  | none => none
  | some (high, rest) =>
    if 0xD800 ≤ high ∧ high < 0xDC00 then
      match rest with
      | '\\' :: 'u' :: more =>
        match hexFour? more with
        | some (low, rest) =>
          if 0xDC00 ≤ low ∧ low < 0xE000 then
            some (Char.ofNat (0x10000 + (high - 0xD800) * 1024 + (low - 0xDC00)), rest)
          else none
        | none => none
      | _ => none
    else if 0xDC00 ≤ high ∧ high < 0xE000 then none
    else some (Char.ofNat high, rest)

def escaped? : List Char → Option (Char × List Char)
  | '"' :: rest => some ('"', rest)
  | '\\' :: rest => some ('\\', rest)
  | '/' :: rest => some ('/', rest)
  | 'b' :: rest => some ('\x08', rest)
  | 'f' :: rest => some ('\x0c', rest)
  | 'n' :: rest => some ('\n', rest)
  | 'r' :: rest => some ('\r', rest)
  | 't' :: rest => some ('\t', rest)
  | 'u' :: rest => codePoint? rest
  | _ => none

/-- The characters of a string after its opening quote, the last one first. -/
def stringTail? : Nat → List Char → List Char → Option (String × List Char)
  | 0, _, _ => none
  | fuel + 1, read, cs =>
    match cs with
    | [] => none
    | '"' :: rest => some (String.ofList read.reverse, rest)
    | '\\' :: rest =>
      match escaped? rest with
      | some (c, rest) => stringTail? fuel (c :: read) rest
      | none => none
    | c :: rest => if c.toNat < 32 then none else stringTail? fuel (c :: read) rest

def string? (cs : List Char) : Option (String × List Char) :=
  match cs with
  | '"' :: rest => stringTail? cs.length [] rest
  | _ => none

/-- The exponent after a number and what follows it; no exponent is zero. -/
def exponent? (cs : List Char) : Option (Int × List Char) :=
  match cs with
  | e :: rest =>
    if e == 'e' || e == 'E' then
      let (negative, rest) := match rest with
        | '-' :: more => (true, more)
        | '+' :: more => (false, more)
        | more => (false, more)
      let digits := rest.takeWhile isDigit
      if digits.isEmpty then none
      else
        let n : Int := valueIn 10 digits
        some (if negative then -n else n, rest.dropWhile isDigit)
    else some (0, cs)
  | [] => some (0, [])

/-- A number after its sign, without leading zeros. A negative zero and an integer beyond 64 bits are
doubles. -/
def magnitude? (negative : Bool) (cs : List Char) : Option (Json × List Char) :=
  let whole := cs.takeWhile isDigit
  let rest := cs.dropWhile isDigit
  let signed (x : Float) : Json := real (if negative then -x else x)
  if whole.isEmpty || (whole.head? == some '0' && whole.length != 1) then none
  else
    let (fraction, pointed, rest) := match rest with
      | '.' :: more => (more.takeWhile isDigit, true, more.dropWhile isDigit)
      | more => ([], false, more)
    if pointed && fraction.isEmpty then none
    else
      match exponent? rest with
      | none => none
      | some (e, after) =>
        if pointed || after.length != rest.length then
          some (signed (ofParts whole fraction e), after)
        else
          let n := valueIn 10 whole
          if negative then
            if 0 < n ∧ n ≤ 9223372036854775808 then some (int (-(n : Int)), after)
            else some (signed (toDouble n 0), after)
          else if n < 18446744073709551616 then some (int n, after)
          else some (signed (toDouble n 0), after)

def number? : List Char → Option (Json × List Char)
  | '-' :: more => magnitude? true more
  | cs => magnitude? false cs

/-- So many levels of arrays and objects can stand in one another. -/
def maxDepth : Nat := 127

mutual

/-- A value in which arrays and objects stand no deeper than the bound. At the bound of zero only a
scalar is left. -/
def value? : Nat → Nat → List Char → Option (Json × List Char)
  | 0, _, _ => none
  | fuel + 1, depth, cs =>
    match skipBlanks cs, depth with
    | 'n' :: rest, _ => (literal? "ull".toList rest).map (null, ·)
    | 't' :: rest, _ => (literal? "rue".toList rest).map (bool true, ·)
    | 'f' :: rest, _ => (literal? "alse".toList rest).map (bool false, ·)
    | '"' :: rest, _ => (string? ('"' :: rest)).map fun (s, rest) => (string s, rest)
    | '[' :: rest, depth + 1 =>
      match skipBlanks rest with
      | ']' :: rest => some (array [], rest)
      | rest => (elements? fuel depth rest).map fun (xs, rest) => (array xs, rest)
    | '{' :: rest, depth + 1 =>
      match skipBlanks rest with
      | '}' :: rest => some (object [], rest)
      | rest => (members? fuel depth rest).map fun (ms, rest) => (object ms, rest)
    | rest, _ => number? rest

def elements? : Nat → Nat → List Char → Option (List Json × List Char)
  | 0, _, _ => none
  | fuel + 1, depth, cs =>
    match value? fuel depth cs with
    | none => none
    | some (x, rest) =>
      match skipBlanks rest with
      | ',' :: rest => (elements? fuel depth rest).map fun (xs, rest) => (x :: xs, rest)
      | ']' :: rest => some ([x], rest)
      | _ => none

def members? : Nat → Nat → List Char → Option (List (String × Json) × List Char)
  | 0, _, _ => none
  | fuel + 1, depth, cs =>
    match string? (skipBlanks cs) with
    | none => none
    | some (k, rest) =>
      match skipBlanks rest with
      | ':' :: rest =>
        match value? fuel depth rest with
        | none => none
        | some (v, rest) =>
          match skipBlanks rest with
          | ',' :: rest => (members? fuel depth rest).map fun (ms, rest) => ((k, v) :: ms, rest)
          | '}' :: rest => some ([(k, v)], rest)
          | _ => none
      | _ => none

end

/-- The value that a whole text writes. -/
def parse? (s : String) : Option Json :=
  let cs := s.toList
  match value? (2 * cs.length + 2) maxDepth cs with
  | some (j, rest) => if (skipBlanks rest).isEmpty then some j else none
  | none => none

end HexSkirmish.Json
