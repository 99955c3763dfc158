import HexSkirmish.Actor
import HexSkirmish.Card
import HexSkirmish.Route
import HexSkirmish.Single
import HexSkirmish.Tile

/-! What can be asked of a world, and what a world reports about it. -/

namespace HexSkirmish

inductive MoveError where
  | unknownActor | outOfBounds | alreadyThere | obstructed | noPath
deriving DecidableEq

instance : Vocabulary MoveError where
  members := [.unknownActor, .outOfBounds, .alreadyThere, .obstructed, .noPath]
  name
    | .unknownActor => "UnknownActor"
    | .outOfBounds => "OutOfBounds"
    | .alreadyThere => "AlreadyThere"
    | .obstructed => "Obstructed"
    | .noPath => "NoPath"

inductive PlacementError where
  | outOfBounds | occupied
deriving DecidableEq

instance : Vocabulary PlacementError where
  members := [.outOfBounds, .occupied]
  name
    | .outOfBounds => "OutOfBounds"
    | .occupied => "Occupied"

inductive Command where
  | configure (width height : Nat) (size : Single)
  | setCost (coord : Coord) (cost : UInt16)
  | rebuildEdges
  | setEffect (coord : Coord) (effect : TileEffect)
  | clearEffect (coord : Coord)
  | clearEffects (effect : TileEffect)
  | place (kind : ActorKind) (coord : Coord)
  | move (actor : ActorId) (goal : Coord) (tag : Option TileEffect)
  | highlight (origin : Coord) (budget : Nat)
  | draw (card : Card)
deriving DecidableEq

inductive Event where
  | configured (width height : Nat)
  | costChanged (coord : Coord) (cost : UInt16)
  | edgesRebuilt
  | effectChanged (coord : Coord) (effect : TileEffect)
  | effectsCleared (effect : TileEffect) (count : Nat)
  | placed (actor : ActorId) (kind : ActorKind) (coord : Coord)
  | placementRejected (kind : ActorKind) (coord : Coord) (reason : PlacementError)
  | moved (actor : ActorId) (origin goal : Coord) (route : Route)
  | moveRejected (actor : ActorId) (goal : Coord) (reason : MoveError)
  | highlighted (origin : Coord) (budget : Nat) (tiles : List Coord)
  | drawn (card : Card) (handSize : Nat)
deriving DecidableEq

end HexSkirmish
