import HexSkirmish.Decimal.Reading

/-! The strings of a TOML document: on one line or on many, with escapes or without. Every reader
takes the characters that are left and gives the string and the characters after it. -/

namespace HexSkirmish.Toml

open Decimal

/-- Tabs and everything from the space on but the delete character. -/
def isPrintable (c : Char) : Bool := c == '\t' || (' ' ≤ c && c != '\x7f')

private def scalarValue? (digits : List Char) : Option Char :=
  let n := valueIn 16 digits
  if digits.all isHexDigit && (n < 0xD800 || (0xE000 ≤ n && n < 0x110000)) then some (Char.ofNat n)
  else none

/-- The character that an escape stands for, after its backslash. -/
def escaped? : List Char → Option (Char × List Char)
  | 'b' :: rest => some ('\x08', rest)
  | 't' :: rest => some ('\t', rest)
  | 'n' :: rest => some ('\n', rest)
  | 'f' :: rest => some ('\x0c', rest)
  | 'r' :: rest => some ('\r', rest)
  | '"' :: rest => some ('"', rest)
  | '\\' :: rest => some ('\\', rest)
  | 'u' :: a :: b :: c :: d :: rest => (scalarValue? [a, b, c, d]).map (·, rest)
  | 'U' :: a :: b :: c :: d :: e :: f :: g :: h :: rest =>
    (scalarValue? [a, b, c, d, e, f, g, h]).map (·, rest)
  | _ => none

/-- A string on one line, after its opening quote. -/
def basic? : Nat → List Char → List Char → Option (String × List Char)
  | 0, _, _ => none
  | fuel + 1, read, cs =>
    match cs with
    | '"' :: rest => some (String.ofList read.reverse, rest)
    | '\\' :: rest =>
      match escaped? rest with
      | some (c, rest) => basic? fuel (c :: read) rest
      | none => none
    | c :: rest => if isPrintable c then basic? fuel (c :: read) rest else none
    | [] => none

/-- A string on one line without escapes, after its opening quote. -/
def verbatim? (read : List Char) : List Char → Option (String × List Char)
  | '\'' :: rest => some (String.ofList read.reverse, rest)
  | c :: rest => if isPrintable c then verbatim? (c :: read) rest else none
  | [] => none

/-- A line break at the start of a string of many lines is not part of it. -/
def skipBreak : List Char → List Char
  | '\n' :: rest => rest
  | '\r' :: '\n' :: rest => rest
  | cs => cs

/-- The end of a string of many lines: three quotes, before which one or two more may stand. -/
def closing? (quote : Char) (cs : List Char) : Option (List Char × List Char) :=
  let quotes := (cs.takeWhile (· == quote)).length
  if quotes < 3 then none
  else
    let inner := min (quotes - 3) 2
    some (List.replicate inner quote, cs.drop (inner + 3))

/-- Passes over blanks and line breaks. A carriage return counts only before a line feed. -/
def skipBlankLines : List Char → List Char
  | ' ' :: rest => skipBlankLines rest
  | '\t' :: rest => skipBlankLines rest
  | '\n' :: rest => skipBlankLines rest
  | '\r' :: '\n' :: rest => skipBlankLines rest
  | cs => cs

/-- What is left after a line that ends in blanks and the blank lines and blanks that follow it. -/
private def foldBreak? (cs : List Char) : Option (List Char) :=
  match cs.dropWhile fun c => c == ' ' || c == '\t' with
  | '\n' :: rest => some (skipBlankLines rest)
  | '\r' :: '\n' :: rest => some (skipBlankLines rest)
  | _ => none

def longBasic? : Nat → List Char → List Char → Option (String × List Char)
  | 0, _, _ => none
  | fuel + 1, read, cs =>
    match closing? '"' cs with
    | some (quotes, rest) => some (String.ofList (read.reverse ++ quotes), rest)
    | none =>
      match cs with
      | '\\' :: rest =>
        match foldBreak? rest with
        | some rest => longBasic? fuel read rest
        | none =>
          match escaped? rest with
          | some (c, rest) => longBasic? fuel (c :: read) rest
          | none => none
      | '\n' :: rest => longBasic? fuel ('\n' :: read) rest
      | '\r' :: '\n' :: rest => longBasic? fuel ('\n' :: read) rest
      | c :: rest => if isPrintable c then longBasic? fuel (c :: read) rest else none
      | [] => none

def longVerbatim? : Nat → List Char → List Char → Option (String × List Char)
  | 0, _, _ => none
  | fuel + 1, read, cs =>
    match closing? '\'' cs with
    | some (quotes, rest) => some (String.ofList (read.reverse ++ quotes), rest)
    | none =>
      match cs with
      | '\n' :: rest => longVerbatim? fuel ('\n' :: read) rest
      | '\r' :: '\n' :: rest => longVerbatim? fuel ('\n' :: read) rest
      | c :: rest => if isPrintable c then longVerbatim? fuel (c :: read) rest else none
      | [] => none

def string? (cs : List Char) : Option (String × List Char) :=
  match cs with
  | '"' :: '"' :: '"' :: rest => longBasic? cs.length [] (skipBreak rest)
  | '\'' :: '\'' :: '\'' :: rest => longVerbatim? cs.length [] (skipBreak rest)
  | '"' :: rest => basic? cs.length [] rest
  | '\'' :: rest => verbatim? [] rest
  | _ => none

end HexSkirmish.Toml
