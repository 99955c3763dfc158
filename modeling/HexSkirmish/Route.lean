import HexSkirmish.Coord
import HexSkirmish.Vocabulary

/-! The answer to a search for a way between two cells. Its tiles are indices of the board, from
the first step to the goal; a route that was not found has none. -/

namespace HexSkirmish

inductive RouteResult where
  | found | missing
deriving DecidableEq

instance : Vocabulary RouteResult where
  members := [.found, .missing]
  name
    | .found => "Ok"
    | .missing => "NoPath"

structure Route where
  start : Coord
  goal : Coord
  tiles : List Nat
  result : RouteResult
deriving DecidableEq

namespace Route

def found (start goal : Coord) (tiles : List Nat) : Route := ⟨start, goal, tiles, .found⟩

def missing (start goal : Coord) : Route := ⟨start, goal, [], .missing⟩

def isFound (r : Route) : Bool := r.result == .found

def length (r : Route) : Nat := r.tiles.length

/-- The tile reached after `n + 1` steps. -/
def tileAt? (r : Route) (n : Nat) : Option Nat := r.tiles[n]?

end Route

end HexSkirmish
