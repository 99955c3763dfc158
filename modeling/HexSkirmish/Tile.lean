import HexSkirmish.Vocabulary

/-! The tiles of a board: what it costs to enter one, and the highlight it carries. The greatest
cost marks a tile that nobody can enter; walls and tiles with an actor on them have it. -/

namespace HexSkirmish

inductive TileEffect where
  | plain | moveable | attackable
deriving DecidableEq

instance : Vocabulary TileEffect where
  members := [.plain, .moveable, .attackable]
  name
    | .plain => "None"
    | .moveable => "MoveableArea"
    | .attackable => "Attackable"

structure Tile where
  cost : UInt16
  effect : TileEffect
deriving DecidableEq

namespace Tile

def blockedCost : UInt16 := 65535
def openCost : UInt16 := 1

def isObstacle (t : Tile) : Bool := t.cost == blockedCost

/-- A tile that can be entered and carries no highlight. -/
def floor : Tile := ⟨openCost, .plain⟩

end Tile

end HexSkirmish
