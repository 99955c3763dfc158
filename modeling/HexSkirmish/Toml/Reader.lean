import HexSkirmish.Toml.Scalar
import HexSkirmish.Toml.Table

/-! Reading a TOML document. A document is a sequence of lines: headers, which open a table, and
keys with their values, which belong to the table opened last. -/

namespace HexSkirmish.Toml

/-- So deep can arrays and tables stand in one another, and so many parts can a key have. -/
def maxDepth : Nat := 79

def isBlank (c : Char) : Bool := c == ' ' || c == '\t'

def skipBlanks (cs : List Char) : List Char := cs.dropWhile isBlank

/-- A comment may hold any printable character. -/
def skipComment (cs : List Char) : List Char :=
  match cs with
  | '#' :: rest => rest.dropWhile isPrintable
  | _ => cs

/-- What is left after a line break. -/
def lineBreak? : List Char → Option (List Char)
  | '\n' :: rest => some rest
  | '\r' :: '\n' :: rest => some rest
  | _ => none

/-- The end of a line: blanks, a comment, and a line break or the end of the document. -/
def lineEnd? (cs : List Char) : Option (List Char) :=
  match skipComment (skipBlanks cs) with
  | [] => some []
  | rest => lineBreak? rest

/-- Blanks, comments and line breaks, as they may stand between the elements of an array. -/
def skipSpace : Nat → List Char → List Char
  | 0, cs => cs
  | fuel + 1, cs =>
    let rest := skipComment (skipBlanks cs)
    match lineBreak? rest with
    | some rest => skipSpace fuel rest
    | none => rest

/-! ## Keys -/

def isBareKey (c : Char) : Bool :=
  Decimal.isDigit c || ('a' ≤ c && c ≤ 'z') || ('A' ≤ c && c ≤ 'Z') || c == '-' || c == '_'

def simpleKey? (cs : List Char) : Option (String × List Char) :=
  match cs with
  | '"' :: rest => basic? cs.length [] rest
  | '\'' :: rest => verbatim? [] rest
  | _ =>
    let key := cs.takeWhile isBareKey
    if key.isEmpty then none else some (String.ofList key, cs.dropWhile isBareKey)

/-- The parts of a dotted key, with blanks around each. There are no more of them than the bound. -/
def parts? : Nat → List Char → Option (List String × List Char)
  | 0, _ => none
  | bound + 1, cs =>
    match simpleKey? (skipBlanks cs) with
    | none => none
    | some (part, rest) =>
      match skipBlanks rest with
      | '.' :: rest => (parts? bound rest).map fun (parts, rest) => (part :: parts, rest)
      | rest => some ([part], rest)

def key? (cs : List Char) : Option (List String × List Char) := parts? maxDepth cs

/-! ## Values -/

def bindKey? (ms : Members) (key : List String) (v : Toml) : Option Members :=
  match key.getLast? with
  | some last => ms.bind key.dropLast last v
  | none => none

mutual

/-- A value in which arrays and tables stand no deeper than the bound. At the bound of zero only a
scalar is left. -/
def valueWithin? : Nat → Nat → List Char → Option (Toml × List Char)
  | 0, _, _ => none
  | fuel + 1, depth + 1, '[' :: rest =>
    match skipSpace rest.length rest with
    | ']' :: rest => some (.array [], rest)
    | rest => (elements? fuel depth rest).map fun (xs, rest) => (.array xs, rest)
  | fuel + 1, depth + 1, '{' :: rest =>
    match skipBlanks rest with
    | '}' :: rest => some (.table [], rest)
    | rest =>
      (inlineMembers? fuel depth [] rest).map fun (ms, rest) =>
        (.table (Item.membersToToml ms), rest)
  | _ + 1, _, cs => scalar? cs

/-- The elements of an array up to its bracket; a comma may follow the last one. -/
def elements? : Nat → Nat → List Char → Option (List Toml × List Char)
  | 0, _, _ => none
  | fuel + 1, depth, cs =>
    match valueWithin? fuel depth cs with
    | none => none
    | some (x, rest) =>
      match skipSpace rest.length rest with
      | ']' :: rest => some ([x], rest)
      | ',' :: rest =>
        match skipSpace rest.length rest with
        | ']' :: rest => some ([x], rest)
        | rest => (elements? fuel depth rest).map fun (xs, rest) => (x :: xs, rest)
      | _ => none

/-- The members of a table on one line up to its brace; no comma follows the last one. -/
def inlineMembers? : Nat → Nat → Members → List Char → Option (Members × List Char)
  | 0, _, _, _ => none
  | fuel + 1, depth, ms, cs =>
    match key? cs with
    | some (key, '=' :: rest) =>
      match valueWithin? fuel depth (skipBlanks rest) with
      | none => none
      | some (v, rest) =>
        match bindKey? ms key v with
        | none => none
        | some ms =>
          match skipBlanks rest with
          | '}' :: rest => some (ms, rest)
          | ',' :: rest => inlineMembers? fuel depth ms rest
          | _ => none
    | _ => none

end

def value? (cs : List Char) : Option (Toml × List Char) :=
  valueWithin? (2 * cs.length + 2) maxDepth cs

/-! ## Documents -/

/-- The tables read so far and the path of the table opened last. -/
structure Draft where
  root : Members
  opened : List String

/-- A header after its first bracket, and what is left after its line. -/
def header? (d : Draft) (cs : List Char) : Option (Draft × List Char) := do
  let isElement := cs.head? == some '['
  let cs := if isElement then cs.drop 1 else cs
  let (key, rest) ← key? cs
  let rest ← match isElement, rest with
    | true, ']' :: ']' :: rest => some rest
    | false, ']' :: rest => some rest
    | _, _ => none
  let rest ← lineEnd? rest
  let last ← key.getLast?
  let root ← if isElement then d.root.declareElement key.dropLast last
    else d.root.declare key.dropLast last
  return (⟨root, key⟩, rest)

/-- A key with its value, and what is left after its line. -/
def binding? (d : Draft) (cs : List Char) : Option (Draft × List Char) := do
  let (key, rest) ← key? cs
  let rest ← match rest with
    | '=' :: rest => some (skipBlanks rest)
    | _ => none
  let (v, rest) ← value? rest
  let rest ← lineEnd? rest
  let root ← Members.modifyAt false (fun _ ms => bindKey? ms key v) d.opened .declared d.root
  return ({ d with root }, rest)

/-- A line, whatever it holds, and what is left after it. -/
def line? (d : Draft) (cs : List Char) : Option (Draft × List Char) :=
  match cs with
  | '[' :: rest => header? d rest
  | '\n' :: rest => some (d, rest)
  | '\r' :: '\n' :: rest => some (d, rest)
  | '#' :: _ => (lineEnd? cs).map (d, ·)
  | _ => binding? d cs

def lines? : Nat → Draft → List Char → Option Members
  | 0, _, _ => none
  | fuel + 1, d, cs =>
    match skipBlanks cs with
    | [] => some d.root
    | rest =>
      match line? d rest with
      | some (d, rest) => lines? fuel d rest
      | none => none

/-- A mark of the byte order before the text is passed over. -/
def skipByteOrderMark : List Char → List Char
  | '\ufeff' :: rest => rest
  | cs => cs

/-- The members of the outermost table of a document. -/
def parse? (s : String) : Option (List (String × Toml)) :=
  let cs := skipByteOrderMark s.toList
  (lines? (cs.length + 1) ⟨[], []⟩ cs).map Item.membersToToml

end HexSkirmish.Toml
