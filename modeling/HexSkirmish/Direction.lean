import HexSkirmish.Coord
import HexSkirmish.Vocabulary

/-! The six directions of a hexagonal board, in the order in which every search and every list of
neighbours goes through them, and the step that each of them takes from an even and from an odd
row. -/

namespace HexSkirmish

inductive Direction where
  | east | northEast | northWest | west | southWest | southEast
deriving DecidableEq

namespace Direction

def all : List Direction := [.east, .northEast, .northWest, .west, .southWest, .southEast]

instance : Vocabulary Direction where
  members := all
  name
    | .east => "East"
    | .northEast => "NorthEast"
    | .northWest => "NorthWest"
    | .west => "West"
    | .southWest => "SouthWest"
    | .southEast => "SouthEast"

def index : Direction → Nat
  | .east => 0
  | .northEast => 1
  | .northWest => 2
  | .west => 3
  | .southWest => 4
  | .southEast => 5

/-- Indices go round: six is east again. -/
def ofIndex (n : Nat) : Direction :=
  match n % 6 with
  | 0 => .east
  | 1 => .northEast
  | 2 => .northWest
  | 3 => .west
  | 4 => .southWest
  | _ => .southEast

def opposite : Direction → Direction
  | .east => .west
  | .northEast => .southWest
  | .northWest => .southEast
  | .west => .east
  | .southWest => .northEast
  | .southEast => .northWest

/-- The change of column and row for one step from an odd row or from an even one. -/
def offset (odd : Bool) : Direction → Int × Int
  | .east => (1, 0)
  | .northEast => (if odd then 1 else 0, -1)
  | .northWest => (if odd then 0 else -1, -1)
  | .west => (-1, 0)
  | .southWest => (if odd then 0 else -1, 1)
  | .southEast => (if odd then 1 else 0, 1)

end Direction

namespace Coord

/-- The neighbour in a direction, held at the ends of the range of words. -/
def neighbor (c : Coord) (d : Direction) : Coord :=
  let step := d.offset c.isOddRow
  ofIntsClamped (c.x.toInt + step.1) (c.y.toInt + step.2)

/-- The neighbour in a direction, if its column and row are words. -/
def neighbor? (c : Coord) (d : Direction) : Option Coord :=
  let step := d.offset c.isOddRow
  ofInts? (c.x.toInt + step.1) (c.y.toInt + step.2)

end Coord

end HexSkirmish
