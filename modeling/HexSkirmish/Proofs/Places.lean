import HexSkirmish.Direction
import Mathlib.Order.Bounds.Defs

/-! The distance of two cells on a board without edges. There columns and rows are integers of any
size, and the distance is the least number of steps: no step lowers the greatest cube difference by
more than one, and some step lowers it. The distance of two cells of words is computed from axial
columns that are words as well. It counts the steps wherever these columns fit; a column that does not
is replaced by the nearest word, so that cells of one row may become one. -/

namespace HexSkirmish

namespace Direction

/-- The change of column and row for one step, when the shifted rows are set straight. -/
def stride : Direction → Int × Int
  | east => (1, 0)
  | northEast => (1, -1)
  | northWest => (0, -1)
  | west => (-1, 0)
  | southWest => (-1, 1)
  | southEast => (0, 1)

/-- A step from a row of any number, even or odd. -/
theorem offset_row (y : Int) (d : Direction) : d.offset (y % 2 == 1) =
    (d.stride.1 + (y + d.stride.2) / 2 - y / 2, d.stride.2) := by
  rcases Int.emod_two_eq y with heven | hodd
  · cases d <;> simp [offset, stride, heven] <;> omega
  · cases d <;> simp [offset, stride, hodd] <;> omega

end Direction

/-- A cell of the board without edges. -/
structure Place where
  x : Int
  y : Int
deriving DecidableEq

namespace Place

variable {p q : Place} {d : Direction} {ds : List Direction}

/-- One step, from an odd row or from an even one. -/
def step (p : Place) (d : Direction) : Place :=
  let change := d.offset (p.y % 2 == 1)
  ⟨p.x + change.1, p.y + change.2⟩

def walk (p : Place) (ds : List Direction) : Place := ds.foldl step p

/-- The numbers of steps in which one can walk from a cell to another one. -/
def stepCounts (p q : Place) : Set Nat := {n | ∃ ds : List Direction, ds.length = n ∧ p.walk ds = q}

/-- The column of a cell when the shifted rows are set straight. -/
def column (p : Place) : Int := p.x - p.y / 2

/-- The greatest of the three cube differences. -/
def apart (p q : Place) : Nat :=
  max (max (p.column - q.column).natAbs (p.y - q.y).natAbs) (p.column - q.column + (p.y - q.y)).natAbs

theorem apart_le_iff {n : Nat} : p.apart q ≤ n ↔
    (p.column - q.column ≤ n ∧ q.column - p.column ≤ n) ∧ (p.y - q.y ≤ n ∧ q.y - p.y ≤ n) ∧
      p.column - q.column + (p.y - q.y) ≤ n ∧ q.column - p.column + (q.y - p.y) ≤ n := by
  simp only [apart, Nat.max_le]
  omega

theorem apart_self (p : Place) : p.apart p = 0 := by simp [apart]

theorem apart_eq_zero : p.apart q = 0 ↔ p = q := by
  constructor
  · intro h
    obtain ⟨hcolumn, hrow, _⟩ := apart_le_iff.mp (Nat.le_of_eq h)
    have hy : p.y = q.y := by omega
    have hx : p.x = q.x := by
      simp only [column, hy] at hcolumn
      omega
    cases p
    cases q
    simp_all
  · rintro rfl
    exact apart_self p

theorem step_row : (p.step d).y = p.y + d.stride.2 := by
  simp [step, Direction.offset_row]

theorem step_column : (p.step d).column = p.column + d.stride.1 := by
  simp only [column, step, Direction.offset_row]
  omega

/-- A step lowers the distance by at most one. -/
theorem apart_le_step (p q : Place) (d : Direction) : p.apart q ≤ (p.step d).apart q + 1 := by
  have hbounds := apart_le_iff.mp (Nat.le_refl ((p.step d).apart q))
  rw [step_row, step_column] at hbounds
  rw [apart_le_iff]
  cases d <;> simp only [Direction.stride] at hbounds <;> omega

/-- So a walk is at least as long as its ends are apart. -/
theorem apart_le_length (h : p.walk ds = q) : p.apart q ≤ ds.length := by
  induction ds generalizing p with
  | nil =>
    obtain rfl : p = q := h
    simp [apart_self]
  | cons d ds ih =>
    have hrest := ih (p := p.step d) h
    have hfirst := apart_le_step p q d
    rw [List.length_cons]
    omega

/-- From every cell some step comes nearer to any other one: towards the row of that one and, where
there is a choice, towards its straightened column. -/
theorem exists_nearer (h : p ≠ q) : ∃ d, (p.step d).apart q < p.apart q := by
  have hbounds := apart_le_iff.mp (Nat.le_refl (p.apart q))
  have hfar : ¬ p.apart q ≤ 0 := fun hzero => h (apart_eq_zero.mp (Nat.le_zero.mp hzero))
  have hnear : ∀ d : Direction, (p.step d).apart q ≤ p.apart q - 1 →
      ∃ d, (p.step d).apart q < p.apart q := fun d hd => ⟨d, by omega⟩
  simp only [apart_le_iff, step_row, step_column] at hnear
  rw [apart_le_iff] at hfar
  rcases Int.lt_trichotomy p.y q.y with below | level | above
  · by_cases hside : p.column ≤ q.column
    · apply hnear .southEast
      simp only [Direction.stride]
      omega
    · apply hnear .southWest
      simp only [Direction.stride]
      omega
  · by_cases hside : p.column < q.column
    · apply hnear .east
      simp only [Direction.stride]
      omega
    · apply hnear .west
      simp only [Direction.stride]
      omega
  · by_cases hside : q.column ≤ p.column
    · apply hnear .northWest
      simp only [Direction.stride]
      omega
    · apply hnear .northEast
      simp only [Direction.stride]
      omega

theorem exists_walk (p q : Place) : ∃ ds : List Direction, ds.length = p.apart q ∧ p.walk ds = q := by
  -- The walk is built from its first step, and the distance that is left decreases.
  induction hn : p.apart q generalizing p with
  | zero => exact ⟨[], rfl, apart_eq_zero.mp hn⟩
  | succ n ih =>
    have hne : p ≠ q := by
      rintro rfl
      simp [apart_self] at hn
    obtain ⟨d, hd⟩ := exists_nearer hne
    have hleft := apart_le_step p q d
    obtain ⟨ds, hlen, hwalk⟩ := ih (p.step d) (by omega)
    exact ⟨d :: ds, by rw [List.length_cons, hlen], hwalk⟩

/-- The greatest cube difference is the least number of steps. -/
theorem isLeast_apart (p q : Place) : IsLeast (p.stepCounts q) (p.apart q) :=
  ⟨exists_walk p q, fun _ ⟨_, hlen, hwalk⟩ => hlen ▸ apart_le_length hwalk⟩

end Place

namespace Coord

variable {a b c : Coord}

/-- The column of a cell when the shifted rows are set straight. -/
def column (c : Coord) : Int := c.x.toInt - c.y.toInt / 2

def place (c : Coord) : Place := ⟨c.x.toInt, c.y.toInt⟩

/-- Whether the straightened column of a cell is a word. -/
def Straightens (c : Coord) : Prop := -2147483648 ≤ c.column ∧ c.column ≤ 2147483647

/-- The cell of the same row whose straightened column is the word nearest to that of the cell. -/
def held (c : Coord) : Place :=
  ⟨max (-2147483648) (min c.column 2147483647) + c.y.toInt / 2, c.y.toInt⟩

theorem place_inj : a.place = b.place ↔ a = b := by
  obtain ⟨ax, ay⟩ := a
  obtain ⟨bx, bY⟩ := b
  simp [place, Int32.toInt_inj]

theorem held_of_straightens (h : c.Straightens) : c.held = c.place := by
  obtain ⟨hlow, hhigh⟩ := h
  rw [held, Int.min_eq_left hhigh, Int.max_eq_right hlow, column, Int.sub_add_cancel, place]

theorem toAxial_column (c : Coord) : c.toAxial.q.toInt = c.held.column := by
  have hlow : Int32.minValue.toInt = -2147483648 := rfl
  have hhigh : Int32.maxValue.toInt = 2147483647 := rfl
  simp only [toAxial, held, Place.column, column, Int32.ofIntClamp]
  split
  · split
    · rw [Int32.toInt_ofIntLE]
      omega
    · omega
  · omega

/-- What is computed is the distance of the held cells, as far as a count can show it. -/
theorem distance_eq_held (a b : Coord) : a.distance b = min 4294967295 (a.held.apart b.held) := by
  have hrow : ∀ c : Coord, c.toAxial.r.toInt = c.held.y := fun _ => rfl
  have hthird : ∀ q r : Int, (-q - r).natAbs = (q + r).natAbs := by omega
  simp only [distance, toAxial_column, hrow, hthird, Place.apart, countMax]
  exact Nat.min_comm _ _

/-- The distance counts steps. Where the straightened columns of two cells are words, it is the least
number of single steps that lead from the one to the other on a board without edges, or the greatest
count if they are more, and it is zero only from a cell to itself. Everywhere, it is this number for
the cells of the same rows whose straightened columns are the nearest words. -/
theorem distance_counts_steps (a b : Coord) :
    (a.Straightens → b.Straightens →
      (∃ n, IsLeast (a.place.stepCounts b.place) n ∧ a.distance b = min 4294967295 n) ∧
        (a.distance b = 0 ↔ a = b)) ∧
      ∃ n, IsLeast (a.held.stepCounts b.held) n ∧ a.distance b = min 4294967295 n := by
  refine ⟨fun ha hb => ⟨?_, ?_⟩, _, Place.isLeast_apart _ _, distance_eq_held a b⟩
  · refine ⟨_, Place.isLeast_apart _ _, ?_⟩
    rw [distance_eq_held, held_of_straightens ha, held_of_straightens hb]
  · rw [distance_eq_held, held_of_straightens ha, held_of_straightens hb, ← place_inj,
      ← Place.apart_eq_zero]
    omega

/-- Between opposite corners of the range of words there are more steps than a count can show. -/
theorem distance_counts_steps_corners :
    (⟨-2147483648, -2147483648⟩ : Coord).Straightens ∧
      (⟨2147483647, 2147483647⟩ : Coord).Straightens ∧
      ∃ n, IsLeast ((⟨-2147483648, -2147483648⟩ : Place).stepCounts ⟨2147483647, 2147483647⟩) n ∧
        4294967295 = min 4294967295 n := by
  have hfirst : (⟨-2147483648, -2147483648⟩ : Coord).Straightens := by
    constructor <;> decide
  have hlast : (⟨2147483647, 2147483647⟩ : Coord).Straightens := by
    constructor <;> decide
  have hdistance : (⟨-2147483648, -2147483648⟩ : Coord).distance ⟨2147483647, 2147483647⟩ =
      4294967295 := by decide
  obtain ⟨hcounts, _⟩ := distance_counts_steps ⟨-2147483648, -2147483648⟩ ⟨2147483647, 2147483647⟩
  obtain ⟨⟨n, hleast, hn⟩, _⟩ := hcounts hfirst hlast
  exact ⟨hfirst, hlast, n, hleast, hdistance.symm.trans hn⟩

/-- The last two cells of the first row of words lie beside each other, but the nearest word to both of
their straightened columns is the greatest one: no step is counted where one is needed. -/
theorem neighbors_not_told_apart :
    IsLeast ((⟨2147483647, -2147483648⟩ : Coord).place.stepCounts
      (⟨2147483646, -2147483648⟩ : Coord).place) 1 ∧
    (⟨2147483647, -2147483648⟩ : Coord).distance ⟨2147483646, -2147483648⟩ = 0 ∧
    (⟨2147483647, -2147483648⟩ : Coord) ≠ ⟨2147483646, -2147483648⟩ :=
  ⟨Place.isLeast_apart _ _, by decide, by decide⟩

end Coord

end HexSkirmish
