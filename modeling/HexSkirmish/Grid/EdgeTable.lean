import HexSkirmish.Layout
import HexSkirmish.Tile

/-! Which tiles can be stepped onto from which, as it was when the table was built. Every tile has
one slot for each direction, which holds the neighbour there if it lay on the board and could be
entered. -/

namespace HexSkirmish

structure EdgeTable where
  slots : Array (List (Option Nat))
  passable : Array Bool
deriving DecidableEq

namespace EdgeTable

def isPassable (tiles : Array Tile) (i : Nat) : Bool :=
  match tiles[i]? with
  | some t => !t.isObstacle
  | none => false

/-- The number of the neighbouring tile in a direction. -/
def adjacent? (l : Layout) (i : Nat) (d : Direction) : Option Nat :=
  (l.coordAt? i).bind fun c => (l.neighbor? c d).bind l.index?

def slotsOf (l : Layout) (tiles : Array Tile) (i : Nat) : List (Option Nat) :=
  Direction.all.map fun d => (adjacent? l i d).filter (isPassable tiles)

def build (l : Layout) (tiles : Array Tile) : EdgeTable where
  slots := Array.ofFn fun i : Fin tiles.size => slotsOf l tiles i
  passable := tiles.map fun t => !t.isObstacle

def tileCount (e : EdgeTable) : Nat := e.slots.size

def slots? (e : EdgeTable) (i : Nat) : Option (List (Option Nat)) := e.slots[i]?

/-- Stands in a slot for no neighbour: the number after that of the last tile. -/
def noNeighbor (e : EdgeTable) : Nat := e.tileCount

/-- The slots of a tile as numbers. -/
def slotNumbers? (e : EdgeTable) (i : Nat) : Option (List Nat) :=
  (e.slots? i).map fun slots => slots.map (·.getD e.noNeighbor)

def isOpen (e : EdgeTable) (i : Nat) : Bool := e.passable[i]?.getD false

/-- The tiles that can be entered next to a tile, in the order of the directions, whether or not
the tile itself can be entered: an actor leaves the tile that it blocks. -/
def exits (e : EdgeTable) (i : Nat) : List Nat := (e.slots[i]?.getD []).filterMap id

/-- The exits of a tile that can itself be entered. -/
def neighbors (e : EdgeTable) (i : Nat) : List Nat := if e.isOpen i then e.exits i else []

/-- Where a search goes on from a tile: only its origin is left although it may be blocked. -/
def onward (e : EdgeTable) (origin i : Nat) : List Nat :=
  if i = origin then e.exits i else e.neighbors i

end EdgeTable

end HexSkirmish
