import HexSkirmish.Grid
import HexSkirmish.World.Command

/-! The state of a battle as far as its rules go: the board, the actors in the order in which they
were placed, and the hand of cards. Commands are its only changes. A command that cannot be carried
out changes nothing but, at most, the edge table, and every other change is reported by an event. -/

namespace HexSkirmish

structure World where
  grid : Grid
  actors : List Actor
  hand : List Card
  nextId : ActorId

namespace World

/-- An empty board without actors or cards. -/
def vacant (l : Layout) : World := ⟨.vacant l, [], [], .first⟩

/-- An actor by its number; of two with one number, the one placed first. -/
def actor? (w : World) (id : ActorId) : Option Actor := w.actors.find? (·.id = id)

/-- Puts an actor into a list in the order of numbers, before those with the same number. -/
def insertByNumber (a : Actor) : List Actor → List Actor
  | [] => [a]
  | b :: rest =>
    if a.id.number ≤ b.id.number then a :: b :: rest else b :: insertByNumber a rest

/-- The actors in the order of their numbers, and those with one number in the order in which they
were placed. -/
def roster (w : World) : List Actor := w.actors.foldr insertByNumber []

def ofKind (w : World) (kind : ActorKind) : List Actor := w.roster.filter (·.kind = kind)

def player? (w : World) : Option Actor := w.roster.find? (·.kind = .player)

/-- Puts the first actor with a number on a cell. -/
def relocate (id : ActorId) (goal : Coord) : List Actor → List Actor
  | [] => []
  | a :: rest => if a.id = id then { a with coord := goal } :: rest else a :: relocate id goal rest

def setEffect (w : World) (c : Coord) (e : TileEffect) : World × List Event :=
  if w.grid.effectDiffers c e then
    ({ w with grid := w.grid.setEffect c e }, [.effectChanged c e])
  else (w, [])

def place (w : World) (kind : ActorKind) (c : Coord) : World × List Event :=
  if !w.grid.contains c then (w, [.placementRejected kind c .outOfBounds])
  else if w.grid.isObstacle c then (w, [.placementRejected kind c .occupied])
  else
    ({ w with
        grid := (w.grid.setCost c Tile.blockedCost).rebuild
        actors := w.actors ++ [⟨w.nextId, kind, c⟩]
        nextId := w.nextId.next },
      [.placed w.nextId kind c])

/-- Moves the highlight that follows an actor from the tile it leaves to the tile it enters. -/
def carryTag (w : World) (origin goal : Coord) : Option TileEffect → World × List Event
  | none => (w, [])
  | some e =>
    let (entered, onGoal) := w.setEffect goal e
    let (left, onOrigin) := entered.setEffect origin .plain
    (left, onGoal ++ onOrigin)

/-- The tile entered is blocked and the tile left is opened before the table is rebuilt. -/
def commitMove (w : World) (a : Actor) (goal : Coord) (tag : Option TileEffect) (route : Route) :
    World × List Event :=
  let grid :=
    ((w.grid.setCost goal Tile.blockedCost).setCost a.coord Tile.openCost).rebuild
  let (tagged, changes) := carryTag { w with grid } a.coord goal tag
  ({ tagged with actors := relocate a.id goal tagged.actors },
    changes ++ [.moved a.id a.coord goal route])

def move (w : World) (id : ActorId) (goal : Coord) (tag : Option TileEffect) :
    World × List Event :=
  match w.actor? id with
  | none => (w, [.moveRejected id goal .unknownActor])
  | some a =>
    if !w.grid.contains goal then (w, [.moveRejected id goal .outOfBounds])
    else if goal = a.coord then (w, [.moveRejected id goal .alreadyThere])
    else if w.grid.isObstacle goal then (w, [.moveRejected id goal .obstructed])
    else
      let ready := { w with grid := w.grid.refresh }
      let route := ready.grid.route a.coord goal
      if route.isFound then ready.commitMove a goal tag route
      else (ready, [.moveRejected id goal .noPath])

/-- Carries out a command and reports what it changed, in order. -/
def apply (w : World) : Command → World × List Event
  | .configure width height size =>
    match Layout.create width height size with
    | .ok l => (vacant l, [.configured width height])
    | .error _ => (w, [])
  | .setCost c cost =>
    if w.grid.contains c then ({ w with grid := w.grid.setCost c cost }, [.costChanged c cost])
    else (w, [])
  | .rebuildEdges => ({ w with grid := w.grid.rebuild }, [.edgesRebuilt])
  | .setEffect c e => w.setEffect c e
  | .clearEffect c => w.setEffect c .plain
  | .clearEffects e =>
    let count := w.grid.effectCount e
    ({ w with grid := w.grid.clearEffects e },
      if 0 < count then [.effectsCleared e count] else [])
  | .place kind c => w.place kind c
  | .move id goal tag => w.move id goal tag
  | .highlight origin budget =>
    let (grid, tiles) := w.grid.highlight origin budget
    ({ w with grid }, [.highlighted origin budget tiles])
  | .draw card =>
    let hand := w.hand ++ [card]
    ({ w with hand }, [.drawn card hand.length])

def applyAll (w : World) : List Command → World × List Event
  | [] => (w, [])
  | c :: rest =>
    let (next, events) := w.apply c
    let (last, later) := next.applyAll rest
    (last, events ++ later)

end World

end HexSkirmish
