import HexSkirmish.Actor
import HexSkirmish.Card
import HexSkirmish.Direction
import HexSkirmish.Json
import HexSkirmish.Phase
import HexSkirmish.Tile
import HexSkirmish.World.Command

/-! How the values of a battle are written as JSON. A record is an object of its fields, or an array
of exactly its fields in order; other members of the object are passed over, and a field that is
missing or repeated is an error. A member of a vocabulary is its name, or an object with the name
and null. -/

namespace HexSkirmish

class JsonForm (α : Type) where
  toJson : α → Json
  ofJson? : Json → Option α

export JsonForm (toJson)

namespace JsonForm

variable {α : Type}

instance ofVocabulary [Vocabulary α] : JsonForm α where
  toJson a := .string (Vocabulary.name a)
  ofJson?
    | .string s => Vocabulary.ofName? s
    | .object [(s, .null)] => Vocabulary.ofName? s
    | _ => none

/-- The fields of a record by their names, in order. -/
def fields? (names : List String) : Json → Option (List Json)
  | .object members => names.mapM (Json.only? members)
  | .array elements => if elements.length = names.length then some elements else none
  | _ => none

instance : JsonForm Nat where
  toJson n := .int n
  ofJson? := Json.natUpTo? 18446744073709551615

instance : JsonForm UInt32 where
  toJson n := .int n.toNat
  ofJson? j := (j.natUpTo? 4294967295).map UInt32.ofNat

instance : JsonForm UInt16 where
  toJson n := .int n.toNat
  ofJson? j := (j.natUpTo? 65535).map UInt16.ofNat

instance : JsonForm Int32 where
  toJson n := .int n.toInt
  ofJson? := Json.word?

instance [JsonForm α] : JsonForm (List α) where
  toJson xs := .array (xs.map toJson)
  ofJson?
    | .array elements => elements.mapM ofJson?
    | _ => none

instance : JsonForm Coord where
  toJson c := .object [("x", toJson c.x), ("y", toJson c.y)]
  ofJson? j :=
    match fields? ["x", "y"] j with
    | some [x, y] => do return ⟨← ofJson? x, ← ofJson? y⟩
    | _ => none

instance : JsonForm ActorId where
  toJson i := toJson i.number
  ofJson? j := (ofJson? j).map ActorId.mk

instance : JsonForm Tile where
  toJson t := .object [("movement_cost", toJson t.cost), ("effect", toJson t.effect)]
  ofJson? j :=
    match fields? ["movement_cost", "effect"] j with
    | some [cost, effect] => do return ⟨← ofJson? cost, ← ofJson? effect⟩
    | _ => none

instance : JsonForm Route where
  toJson r :=
    .object [("start", toJson r.start), ("goal", toJson r.goal), ("tiles", toJson r.tiles),
      ("result", toJson r.result)]
  ofJson? j :=
    match fields? ["start", "goal", "tiles", "result"] j with
    | some [start, goal, tiles, result] => do
      return ⟨← ofJson? start, ← ofJson? goal, ← ofJson? tiles, ← ofJson? result⟩
    | _ => none

end JsonForm

end HexSkirmish
