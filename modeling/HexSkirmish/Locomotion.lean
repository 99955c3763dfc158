import HexSkirmish.Layout.Plane
import HexSkirmish.Locomotion.Duration
import HexSkirmish.World.Command

/-! The world moves actors at once. Here every committed route is travelled over time, from tile
centre to tile centre, so that an actor can be shown on its way. -/

namespace HexSkirmish

/-- An actor on its way through a list of points. -/
structure Follower where
  actor : ActorId
  waypoints : List Point
  elapsed : Duration
deriving DecidableEq

structure PositionUpdate where
  actor : ActorId
  position : Point
  arrived : Bool
deriving DecidableEq

namespace Follower

/-- The time that the whole way takes. -/
def total (f : Follower) (perTile : Duration) : Duration :=
  perTile.scale (min (f.waypoints.length - 1) countMax)

def hasArrived (f : Follower) (perTile : Duration) : Bool :=
  decide ((f.total perTile).nanos ≤ f.elapsed.nanos)

/-- A point of the way; ways have at least two. -/
def waypoint (f : Follower) (i : Nat) : Point := f.waypoints[i]?.getD ⟨0, 0⟩

/-- The place after the time spent so far, on the straight line between two points of the way. -/
def position (f : Follower) (perTile : Duration) : Point :=
  let last := f.waypoints.length - 1
  if perTile.nanos = 0 ∨ f.hasArrived perTile then f.waypoint last
  else
    let progress := f.elapsed.asSeconds / perTile.asSeconds
    let segment := min (Single.truncate progress).toNat (last - 1)
    let share := Single.clamp (progress - Float32.ofNat segment) 0 1
    (f.waypoint segment).lerp (f.waypoint (segment + 1)) share

def update (f : Follower) (perTile : Duration) : PositionUpdate :=
  ⟨f.actor, f.position perTile, f.hasArrived perTile⟩

end Follower

structure Locomotion where
  perTile : Duration
  followers : List Follower
deriving DecidableEq

namespace Locomotion

def idle (perTile : Duration) : Locomotion := ⟨perTile, []⟩

/-- Half a second for each tile. -/
def standard : Locomotion := idle (.ofMillis 500)

def isIdle (l : Locomotion) : Bool := l.followers.isEmpty

/-- The points of a route. A route that was not found, has no tiles or leaves the board has none. -/
def waypoints? (layout : Layout) (origin : Coord) (route : Route) : Option (List Point) :=
  if !route.isFound || route.tiles.isEmpty then none
  else (route.tiles.mapM layout.centerAt?).map (layout.center origin :: ·)

/-- Starts an actor on a way, in place of the one that it was on. -/
def follow (l : Locomotion) (actor : ActorId) (waypoints : List Point) : Locomotion :=
  { l with followers := l.followers.filter (·.actor ≠ actor) ++ [⟨actor, waypoints, .zero⟩] }

def handleEvent (l : Locomotion) (layout : Layout) : Event → Locomotion
  | .moved actor origin _ route =>
    match waypoints? layout origin route with
    | some points => l.follow actor points
    | none => l
  | _ => l

def handle (l : Locomotion) (layout : Layout) (events : List Event) : Locomotion :=
  events.foldl (handleEvent · layout) l

/-- Lets time pass. Every follower is reported; those that have arrived are then dropped. -/
def advance (l : Locomotion) (time : Duration) : Locomotion × List PositionUpdate :=
  let moved := l.followers.map fun f => { f with elapsed := f.elapsed.add time }
  ({ l with followers := moved.filter fun f => !f.hasArrived l.perTile },
    moved.map (·.update l.perTile))

def position? (l : Locomotion) (actor : ActorId) : Option Point :=
  (l.followers.find? (·.actor = actor)).map (·.position l.perTile)

end Locomotion

end HexSkirmish
