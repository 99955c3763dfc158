import HexSkirmish.Battle.Config
import HexSkirmish.Toml.Reader

/-! Reading the setup of a battle from a TOML document. The document names only what differs from
the standard setup; an unknown name is an error. -/

namespace HexSkirmish

namespace Toml

def natUpTo? (limit : Nat) : Toml → Option Nat
  | integer n => if 0 ≤ n ∧ n ≤ limit then some n.toNat else none
  | _ => none

def word? : Toml → Option Int32
  | integer n => if -2147483648 ≤ n ∧ n ≤ 2147483647 then some (Int32.ofInt n) else none
  | _ => none

def single? : Toml → Option Single
  | integer n => some (.ofValue (Float32.ofInt n))
  | float x => some (.ofValue x.toFloat32)
  | _ => none

private def member? (ms : List (String × Toml)) (name : String) : Option Toml :=
  (ms.find? (·.1 == name)).map Prod.snd

/-- A table with a column and a row, or an array that begins with them. Whatever else is in the
table or the array is passed over. -/
def coord? : Toml → Option Coord
  | table ms => do return ⟨← word? (← member? ms "x"), ← word? (← member? ms "y")⟩
  | array (x :: y :: _) => do return ⟨← word? x, ← word? y⟩
  | _ => none

def coords? : Toml → Option (List Coord)
  | array elements => elements.mapM coord?
  | _ => none

end Toml

namespace BattleConfig

/-- Replaces one field by the value read for it. -/
def setTomlField? (b : BattleConfig) (name : String) (v : Toml) : Option BattleConfig :=
  match name with
  | "width" => (v.natUpTo? 4294967295).map fun n => { b with width := n }
  | "height" => (v.natUpTo? 4294967295).map fun n => { b with height := n }
  | "tile_size" => v.single?.map fun s => { b with size := s }
  | "movement_per_turn" =>
    (v.natUpTo? 4294967295).map fun n => { b with movementPerTurn := n }
  | "hand_size" => (v.natUpTo? 18446744073709551615).map fun n => { b with handSize := n }
  | "seed" =>
    (v.natUpTo? 18446744073709551615).map fun n => { b with seed := some (UInt64.ofNat n) }
  | "player" => v.coord?.map fun c => { b with player := c }
  | "npcs" => v.coords?.map fun cs => { b with npcs := cs }
  | "obstacles" => v.coords?.map fun cs => { b with obstacles := cs }
  | _ => none

def setTomlFields? (b : BattleConfig) : List (String × Toml) → Option BattleConfig
  | [] => some b
  | (name, v) :: rest =>
    match b.setTomlField? name v with
    | some next => next.setTomlFields? rest
    | none => none

def ofToml? (text : String) : Option BattleConfig :=
  (Toml.parse? text).bind standard.setTomlFields?

end BattleConfig

end HexSkirmish
