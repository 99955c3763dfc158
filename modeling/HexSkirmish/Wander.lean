import HexSkirmish.Generator
import HexSkirmish.World

/-! How actors other than the player move: each steps onto a free neighbouring tile at random. All
steps of a turn are planned on one state of the world, in the order of the actors' numbers; a tile
that an earlier actor takes is withheld from the later ones, and a tile that it leaves is theirs to
take. -/

namespace HexSkirmish

namespace Wander

/-- The neighbours on the board that are not blocked, in the order of the directions. -/
def candidates (l : Layout) (origin : Coord) (blocked : Coord → Bool) : List Coord :=
  (l.neighbors origin).filter fun c => !blocked c

def chooseStep (options : List Coord) (g : Generator) : Option Coord × Generator :=
  g.choose options

/-- The tiles that the actors planned so far are going to take and to leave. -/
structure Reservations where
  claimed : List Coord
  vacated : List Coord

def Reservations.blocks (r : Reservations) (w : World) (c : Coord) : Bool :=
  c ∈ r.claimed || (w.grid.isObstacle c && c ∉ r.vacated)

def planFor (w : World) (r : Reservations) (g : Generator) : List Actor → List Command × Generator
  | [] => ([], g)
  | npc :: later =>
    match chooseStep (candidates w.grid.layout npc.coord (r.blocks w)) g with
    | (some goal, g) =>
      let (commands, g) := planFor w ⟨goal :: r.claimed, npc.coord :: r.vacated⟩ g later
      (.move npc.id goal (some .attackable) :: commands, g)
    | (none, g) => planFor w r g later

/-- One step for every actor that is not the player's and has somewhere to go. -/
def plan (w : World) (g : Generator) : List Command × Generator :=
  planFor w ⟨[], []⟩ g (w.ofKind .npc)

end Wander

end HexSkirmish
