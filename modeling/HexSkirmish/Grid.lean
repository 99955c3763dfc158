import HexSkirmish.Grid.EdgeTable
import HexSkirmish.Grid.FlowSearch
import HexSkirmish.Grid.RouteSearch
import HexSkirmish.Route

/-! The board: its tiles row by row, and an edge table that is built from them when it is needed.
A write to a cost makes the table stale. Questions about routes and distances never see a stale
table: they build a fresh one. -/

namespace HexSkirmish

inductive GridError where
  | outOfBounds (coord : Coord)
  | flowFieldSize (expected actual : Nat)
deriving DecidableEq

namespace GridError

def message : GridError → String
  | outOfBounds c => "coordinate " ++ c.text ++ " is outside the grid"
  | flowFieldSize expected actual =>
    "flow-field buffer holds " ++ toString actual ++ " slots but the grid has " ++
      toString expected ++ " tiles"

end GridError

structure Grid where
  layout : Layout
  tiles : Array Tile
  edges : EdgeTable
  stale : Bool
  size_eq : tiles.size = layout.tileCount

namespace Grid

/-- A board on which every tile can be entered. -/
def vacant (l : Layout) : Grid :=
  let tiles := Array.replicate l.tileCount Tile.floor
  ⟨l, tiles, .build l tiles, false, by simp [tiles]⟩

def contains (g : Grid) (c : Coord) : Bool := g.layout.contains c

def tileAt? (g : Grid) (c : Coord) : Option Tile :=
  (g.layout.index? c).bind fun i => g.tiles[i]?

/-- Places off the board cannot be entered either. -/
def isObstacle (g : Grid) (c : Coord) : Bool :=
  match g.tileAt? c with
  | some t => t.isObstacle
  | none => true

def check (g : Grid) (c : Coord) : Except GridError Unit :=
  if g.contains c then .ok () else .error (.outOfBounds c)

/-- Changes the tile at a cell of the board. -/
def modify (g : Grid) (c : Coord) (f : Tile → Tile) : Grid :=
  match g.layout.index? c with
  | some i => { g with tiles := g.tiles.modify i f, size_eq := by simp [g.size_eq] }
  | none => g

def setCost (g : Grid) (c : Coord) (cost : UInt16) : Grid :=
  match g.tileAt? c with
  | some t =>
    if t.cost = cost then g
    else { g.modify c fun t => { t with cost } with stale := true }
  | none => g

def rebuild (g : Grid) : Grid := { g with edges := .build g.layout g.tiles, stale := false }

def refresh (g : Grid) : Grid := if g.stale then g.rebuild else g

/-- The edge table of the tiles as they are now. -/
def currentEdges (g : Grid) : EdgeTable :=
  if g.stale then .build g.layout g.tiles else g.edges

/-- Whether writing the effect would change the tile. -/
def effectDiffers (g : Grid) (c : Coord) (e : TileEffect) : Bool :=
  match g.tileAt? c with
  | some t => t.effect != e
  | none => false

def setEffect (g : Grid) (c : Coord) (e : TileEffect) : Grid :=
  g.modify c fun t => { t with effect := e }

/-- How many tiles carry a highlight. Carrying none is not one. -/
def effectCount (g : Grid) (e : TileEffect) : Nat :=
  if e = .plain then 0 else g.tiles.countP fun t => t.effect == e

def clearEffects (g : Grid) (e : TileEffect) : Grid :=
  { g with
    tiles := g.tiles.map fun t => if t.effect = e then { t with effect := .plain } else t
    size_eq := by simp [g.size_eq] }

/-- The shortest route between two cells. The first tile may be blocked, by the actor that starts
there; a route from a cell to itself is empty, on the board or off it. -/
def route (g : Grid) (start goal : Coord) : Route :=
  if start = goal then .found start goal []
  else
    match g.layout.index? start, g.layout.index? goal with
    | some s, some t =>
      match RouteSearch.tiles? (g.currentEdges.onward s) g.layout.tileCount s t with
      | some tiles => .found start goal tiles
      | none => .missing start goal
    | _, _ => .missing start goal

/-- The distance of a tile that cannot be reached, and the greatest that a flow field holds. -/
def unreachable : Nat := countMax

/-- The number of steps from an origin to every tile, over a given edge table. -/
def flowOver (g : Grid) (edges : EdgeTable) (origin : Coord) : Array Nat :=
  match g.layout.index? origin with
  | some o => FlowSearch.field (edges.onward o) unreachable g.layout.tileCount o
  | none => Array.replicate g.layout.tileCount unreachable

def flow (g : Grid) (origin : Coord) : Array Nat := g.flowOver g.currentEdges origin

/-- A buffer for a flow field has one slot for each tile. -/
def checkSize (g : Grid) (size : Nat) : Except GridError Unit :=
  if size = g.layout.tileCount then .ok () else .error (.flowFieldSize g.layout.tileCount size)

/-- Fills a buffer with the flow field. A buffer of the wrong size is refused. -/
def flowInto (g : Grid) (origin : Coord) (buffer : Array Nat) : Except GridError (Array Nat) :=
  (g.checkSize buffer.size).map fun _ => g.flow origin

/-- The distance that a buffer holds for a cell. -/
def distanceIn (g : Grid) (c : Coord) (buffer : Array Nat) : Nat :=
  ((g.layout.index? c).bind fun i => buffer[i]?).getD unreachable

def withinBudget (field : Array Nat) (budget i : Nat) : Bool :=
  match field[i]? with
  | some d => decide (1 ≤ d) && decide (d ≤ budget)
  | none => false

/-- The tiles from one to `budget` steps away get the movement highlight and all others lose it.
Gives the cells that have it now, in the order of their numbers. -/
def highlight (g : Grid) (origin : Coord) (budget : Nat) : Grid × List Coord :=
  let fresh := g.refresh
  let field := fresh.flowOver fresh.edges origin
  let cleared := fresh.clearEffects .moveable
  ({ cleared with
      tiles := cleared.tiles.mapIdx fun i t =>
        if withinBudget field budget i then { t with effect := .moveable } else t
      size_eq := by simp [cleared.size_eq] },
    ((List.range g.layout.tileCount).filter (withinBudget field budget)).filterMap
      g.layout.coordAt?)

end Grid

end HexSkirmish
