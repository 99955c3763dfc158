import HexSkirmish.Decimal.Shortest
import HexSkirmish.Json

/-! The text of a JSON value, without blanks. A double is written with the fewest digits that read
back and always with an exponent, which tells it from an integer; infinity and what is not a number
have no text of their own and are null. -/

namespace HexSkirmish.Json

def hexDigit (n : Nat) : Char := "0123456789abcdef".toList.getD n '0'

def escape (c : Char) : List Char :=
  if c = '"' then ['\\', '"']
  else if c = '\\' then ['\\', '\\']
  else if c.toNat < 32 then ['\\', 'u', '0', '0', hexDigit (c.toNat / 16), hexDigit (c.toNat % 16)]
  else [c]

def quote (s : String) : String := String.ofList ('"' :: (s.toList.flatMap escape ++ ['"']))

def realText (x : Float) : String :=
  let bits := x.toBits.toNat
  let sign := if bits / 9223372036854775808 = 1 then "-" else ""
  match Decimal.Binary.ofBits .double (bits % 9223372036854775808) with
  | .nan | .infinite => "null"
  | .zero => sign ++ "0e0"
  | .positive m e lowest =>
    let (digits, k) := Decimal.shortest m e lowest
    sign ++ Decimal.scientific digits k

def text : Json → String
  | null => "null"
  | bool true => "true"
  | bool false => "false"
  | int n => toString n
  | real x => realText x
  | string s => quote s
  | array xs => "[" ++ elements xs ++ "]"
  | object ms => "\x7b" ++ members ms ++ "\x7d"
where
  elements : List Json → String
    | [] => ""
    | [x] => x.text
    | x :: rest => x.text ++ "," ++ elements rest
  members : List (String × Json) → String
    | [] => ""
    | [(k, v)] => quote k ++ ":" ++ v.text
    | (k, v) :: rest => quote k ++ ":" ++ v.text ++ "," ++ members rest

end HexSkirmish.Json
