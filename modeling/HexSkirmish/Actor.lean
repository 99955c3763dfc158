import HexSkirmish.Coord
import HexSkirmish.Vocabulary

/-! The actors of a battle: their numbers, their sides and the tiles they stand on. -/

namespace HexSkirmish

structure ActorId where
  number : UInt32
deriving DecidableEq

namespace ActorId

def first : ActorId := ⟨0⟩

/-- The number after this one. The greatest number is followed by itself. -/
def next (i : ActorId) : ActorId := ⟨UInt32.ofNat (min (i.number.toNat + 1) countMax)⟩

end ActorId

inductive ActorKind where
  | player | npc
deriving DecidableEq

instance : Vocabulary ActorKind where
  members := [.player, .npc]
  name
    | .player => "Player"
    | .npc => "Npc"

structure Actor where
  id : ActorId
  kind : ActorKind
  coord : Coord
deriving DecidableEq

end HexSkirmish
