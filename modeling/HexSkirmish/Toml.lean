/-! Values of a TOML document. A date or a time is only known to be one. -/

namespace HexSkirmish

inductive Toml where
  | string (s : String)
  | integer (n : Int)
  | float (x : Float)
  | boolean (b : Bool)
  | moment
  | array (elements : List Toml)
  | table (members : List (String × Toml))
deriving Inhabited

end HexSkirmish
