/-! Cells of a hexagonal board in odd-row offset coordinates: rows with an odd number are shifted
half a cell to the right. Columns and rows are 32-bit words, and arithmetic that leaves their range
stops at its ends. The axial form (`q`, `r`) straightens the shifted rows; the number of steps
between two cells is read off it. -/

namespace HexSkirmish

structure Coord where
  x : Int32
  y : Int32
deriving DecidableEq

structure Axial where
  q : Int32
  r : Int32
deriving DecidableEq

/-- The largest count that counters and distances can show. -/
def countMax : Nat := 4294967295

namespace Coord

/-- Stands for a place that lies on no board. -/
def offGrid : Coord := ⟨Int32.minValue, Int32.minValue⟩

def isOddRow (c : Coord) : Bool := c.y.toInt % 2 == 1

def toAxial (c : Coord) : Axial :=
  ⟨Int32.ofIntClamp (c.x.toInt - c.y.toInt / 2), c.y⟩

def ofAxial (a : Axial) : Coord :=
  ⟨Int32.ofIntClamp (a.q.toInt + a.r.toInt / 2), a.r⟩

/-- The greatest of the three cube differences, which is the number of steps between the cells. -/
def distance (a b : Coord) : Nat :=
  let dq := a.toAxial.q.toInt - b.toAxial.q.toInt
  let dr := a.toAxial.r.toInt - b.toAxial.r.toInt
  let ds := -dq - dr
  min (max (max dq.natAbs dr.natAbs) ds.natAbs) countMax

/-- The cell at a column and a row, if both are 32-bit words. -/
def ofInts? (x y : Int) : Option Coord :=
  let fits (n : Int) : Bool := decide (-2147483648 ≤ n) && decide (n ≤ 2147483647)
  if fits x && fits y then some ⟨Int32.ofInt x, Int32.ofInt y⟩ else none

/-- The nearest cell to a column and a row of any size. -/
def ofIntsClamped (x y : Int) : Coord := ⟨Int32.ofIntClamp x, Int32.ofIntClamp y⟩

/-- How messages write a cell. -/
def text (c : Coord) : String :=
  "HexCoord \x7b x: " ++ toString c.x.toInt ++ ", y: " ++ toString c.y.toInt ++ " \x7d"

end Coord

end HexSkirmish
