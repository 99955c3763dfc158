import HexSkirmish.Battle.Config
import HexSkirmish.Json.Form

/-! Reading the setup of a battle from JSON. A setup names only what differs from the standard one;
an unknown or repeated name is an error. An array gives the fields in their fixed order, as many as
it has. -/

namespace HexSkirmish

namespace Single

/-- Any number stands for the nearest single-precision one. A number that is not an integer is
rounded to a double first. -/
def ofJson? : Json → Option Single
  | .int n => some (ofValue (Float32.ofInt n))
  | .real x => some (ofValue x.toFloat32)
  | _ => none

end Single

namespace BattleConfig

def fieldNames : List String :=
  ["width", "height", "tile_size", "movement_per_turn", "hand_size", "seed", "player", "npcs",
   "obstacles"]

private def seedOfJson? : Json → Option (Option UInt64)
  | .null => some none
  | j => (j.natUpTo? 18446744073709551615).map fun n => some (UInt64.ofNat n)

/-- Replaces one field by the value read for it. -/
def setField? (b : BattleConfig) (name : String) (j : Json) : Option BattleConfig :=
  match name with
  | "width" => (j.natUpTo? 4294967295).map fun n => { b with width := n }
  | "height" => (j.natUpTo? 4294967295).map fun n => { b with height := n }
  | "tile_size" => (Single.ofJson? j).map fun s => { b with size := s }
  | "movement_per_turn" =>
    (j.natUpTo? 4294967295).map fun n => { b with movementPerTurn := n }
  | "hand_size" => (j.natUpTo? 18446744073709551615).map fun n => { b with handSize := n }
  | "seed" => (seedOfJson? j).map fun s => { b with seed := s }
  | "player" => (JsonForm.ofJson? j).map fun c => { b with player := c }
  | "npcs" => (JsonForm.ofJson? j).map fun cs => { b with npcs := cs }
  | "obstacles" => (JsonForm.ofJson? j).map fun cs => { b with obstacles := cs }
  | _ => none

/-- Goes through named values in order. A name may come only once. -/
def setFields? (b : BattleConfig) (seen : List String) :
    List (String × Json) → Option BattleConfig
  | [] => some b
  | (name, j) :: rest =>
    if name ∈ seen then none
    else
      match b.setField? name j with
      | some next => next.setFields? (name :: seen) rest
      | none => none

def ofJson? : Json → Option BattleConfig
  | .object members => standard.setFields? [] members
  | .array elements =>
    if elements.length ≤ fieldNames.length then
      standard.setFields? [] (fieldNames.zip elements)
    else none
  | _ => none

end BattleConfig

end HexSkirmish
