import HexSkirmish.Proofs.Numbering
import HexSkirmish.Proofs.Words

/-! The numbers of tiles as unsigned words. A board has fewer tiles than there are such words, so
neither the count of its tiles nor the number of any of them wraps around, and the column and the row of
every number are signed words again. Hence the conversions computed with words are those computed with
numbers of any size. -/

namespace HexSkirmish.Layout

variable {l : Layout} {c e : Coord} {i j : Nat}

/-! ### Conversions with words -/

def columns (l : Layout) : UInt32 := UInt32.ofNat l.width

def rows (l : Layout) : UInt32 := UInt32.ofNat l.height

def wordCount? (l : Layout) : Option UInt64 := Words.mul? l.columns.toUInt64 l.rows.toUInt64

/-- Columns and rows that are not negative are compared without their sign. -/
def wordContains (l : Layout) (c : Coord) : Bool :=
  decide (0 ≤ c.x) && decide (0 ≤ c.y) && decide (c.x.toUInt32 < l.columns) &&
    decide (c.y.toUInt32 < l.rows)

/-- The number of the tile at a cell. Fails if an operation on words fails; the answer is none if the
cell does not lie on the board. -/
def wordIndex? (l : Layout) (c : Coord) : Option (Option UInt64) :=
  if l.wordContains c then do
    let before ← Words.mul? (Words.widen c.y) l.columns.toUInt64
    let i ← Words.add? before (Words.widen c.x)
    return some i
  else some none

/-- The cell of the tile with a number. Fails if an operation on words fails; the answer is none if there
is no such tile, or if its column or its row is no signed word. -/
def wordCoordAt? (l : Layout) (i : UInt64) : Option (Option Coord) := do
  let count ← l.wordCount?
  if count ≤ i then return none
  else
    let (row, column) ← Words.split? i l.columns.toUInt64
    return do
      let x ← Words.narrow? column
      let y ← Words.narrow? row
      return ⟨x, y⟩

theorem columns_toNat (l : Layout) : l.columns.toNat = l.width := by
  have := l.width_bounds
  exact UInt32.toNat_ofNat_of_lt' (show l.width < 4294967296 by omega)

theorem rows_toNat (l : Layout) : l.rows.toNat = l.height := by
  have := l.height_bounds
  exact UInt32.toNat_ofNat_of_lt' (show l.height < 4294967296 by omega)

theorem tileCount_le (l : Layout) : l.tileCount ≤ 4611686014132420609 :=
  Nat.mul_le_mul l.width_bounds.2 l.height_bounds.2

theorem exists_wordCount? (l : Layout) : ∃ n, l.wordCount? = some n ∧ n.toNat = l.tileCount := by
  have hle := l.tileCount_le
  obtain ⟨n, hn, hvalue⟩ :=
    Words.exists_mul? (a := l.columns.toUInt64) (b := l.rows.toUInt64) (by
      rw [UInt32.toNat_toUInt64, UInt32.toNat_toUInt64, columns_toNat, rows_toNat, ← tileCount]
      omega)
  refine ⟨n, hn, ?_⟩
  rw [hvalue, UInt32.toNat_toUInt64, UInt32.toNat_toUInt64, columns_toNat, rows_toNat, tileCount]

theorem wordContains_eq (l : Layout) (c : Coord) : l.wordContains c = l.contains c := by
  rw [Bool.eq_iff_iff, contains_iff]
  simp only [wordContains, Bool.and_eq_true, decide_eq_true_eq, and_assoc, Int32.le_iff_toInt_le,
    Int32.toInt_zero, UInt32.lt_iff_toNat_lt, columns_toNat, rows_toNat]
  refine and_congr_right fun hx => and_congr_right fun hy => ?_
  rw [Words.toNat_toUInt32 hx, Words.toNat_toUInt32 hy]
  omega

theorem exists_wordIndex? (l : Layout) (c : Coord) :
    ∃ answer, l.wordIndex? c = some answer ∧ answer.map UInt64.toNat = l.index? c := by
  cases hc : l.contains c with
  | false => exact ⟨none, by simp [wordIndex?, wordContains_eq, hc], by simp [index?, hc]⟩
  | true =>
    obtain ⟨hx, hy, hw, hh⟩ := contains_iff.mp hc
    have hindex : l.index? c = some (c.y.toInt.toNat * l.width + c.x.toInt.toNat) := by
      simp [index?, hc]
    -- The number is below the count of the tiles, and so is the first tile of its row.
    have hlt := index?_lt hindex
    have hle := l.tileCount_le
    obtain ⟨before, hmul, hbefore⟩ :=
      Words.exists_mul? (a := Words.widen c.y) (b := l.columns.toUInt64) (by
        rw [Words.toNat_widen hy, UInt32.toNat_toUInt64, columns_toNat]
        omega)
    rw [Words.toNat_widen hy, UInt32.toNat_toUInt64, columns_toNat] at hbefore
    obtain ⟨i, hadd, hi⟩ := Words.exists_add? (a := before) (b := Words.widen c.x) (by
      rw [hbefore, Words.toNat_widen hx]
      omega)
    rw [hbefore, Words.toNat_widen hx] at hi
    exact ⟨some i, by simp [wordIndex?, wordContains_eq, hc, hmul, hadd], by simp [hindex, hi]⟩

theorem wordCoordAt?_eq (l : Layout) (i : UInt64) :
    l.wordCoordAt? i = some (l.coordAt? i.toNat) := by
  obtain ⟨count, hcount, hvalue⟩ := l.exists_wordCount?
  have hin : count ≤ i ↔ ¬ i.toNat < l.tileCount := by
    rw [UInt64.le_iff_toNat_le, hvalue, Nat.not_lt]
  by_cases hlt : i.toNat < l.tileCount
  · have hw := l.width_bounds
    have hh := l.height_bounds
    have hcolumn := Nat.mod_lt i.toNat hw.1
    have hrow : i.toNat / l.width < l.height := by
      rw [Nat.div_lt_iff_lt_mul hw.1, Nat.mul_comm]
      exact hlt
    have hdivisor : l.columns.toUInt64.toNat = l.width := by
      rw [UInt32.toNat_toUInt64, columns_toNat]
    have hne : l.columns.toUInt64 ≠ 0 := by
      intro h
      rw [h] at hdivisor
      exact absurd hdivisor.symm (Nat.ne_of_gt hw.1)
    have hx : Words.narrow? (i % l.columns.toUInt64) = some (Int32.ofNat (i.toNat % l.width)) := by
      rw [Words.narrow?, UInt64.toNat_mod, hdivisor, if_pos (by omega)]
    have hy : Words.narrow? (i / l.columns.toUInt64) = some (Int32.ofNat (i.toNat / l.width)) := by
      rw [Words.narrow?, UInt64.toNat_div, hdivisor, if_pos (by omega)]
    simp [wordCoordAt?, hcount, hin, hlt, Words.split?, hne, hx, hy, coordAt?]
  · simp [wordCoordAt?, hcount, hin, hlt, coordAt?]

/-! ### The order of the tiles -/

/-- A tile comes before all of every later row. -/
theorem rowMajor_lt {width x y y' : Nat} (x' : Nat) (hx : x < width) (hrow : y < y') :
    y * width + x < y' * width + x' := by
  have hnext : (y + 1) * width ≤ y' * width := Nat.mul_le_mul_right width hrow
  rw [Nat.add_mul, Nat.one_mul] at hnext
  omega

theorem index?_lt_iff (hc : l.index? c = some i) (he : l.index? e = some j) : i < j ↔
    c.y.toInt < e.y.toInt ∨ c.y.toInt = e.y.toInt ∧ c.x.toInt < e.x.toInt := by
  obtain ⟨hcin, rfl⟩ := index?_eq_some_iff.mp hc
  obtain ⟨hein, rfl⟩ := index?_eq_some_iff.mp he
  obtain ⟨hcx, hcy, hcw, _⟩ := contains_iff.mp hcin
  obtain ⟨hex, hey, hew, _⟩ := contains_iff.mp hein
  have hcolumn : c.x.toInt.toNat < l.width := by omega
  have hcolumn' : e.x.toInt.toNat < l.width := by omega
  rcases Nat.lt_trichotomy c.y.toInt.toNat e.y.toInt.toNat with before | same | after
  · have := rowMajor_lt e.x.toInt.toNat hcolumn before
    omega
  · rw [same]
    omega
  · have := rowMajor_lt c.x.toInt.toNat hcolumn' after
    omega

/-- Cells of a board and numbers of its tiles are converted into each other without loss and without
overflow, on boards of every shape. A cell has a number if and only if it lies on the board; the number is
that of one of the tiles, and leads back to the cell. Every number below the count of the tiles, and no
other, has a cell; the cell lies on the board and has that number. Computed with words of 64 bits, the
count of the tiles, whether a cell lies on the board, its number and the cell of every number come out as
they are, and no operation on the way fails. The numbers follow the order of rows first and columns
then. -/
theorem numbers_exact (l : Layout) :
    (∀ c, (∃ i, l.index? c = some i) ↔ l.contains c = true) ∧
      (∀ c i, l.index? c = some i → i < l.tileCount ∧ l.coordAt? i = some c) ∧
      (∀ i, (∃ c, l.coordAt? i = some c) ↔ i < l.tileCount) ∧
      (∀ i c, l.coordAt? i = some c → l.contains c = true ∧ l.index? c = some i) ∧
      (∃ n, l.wordCount? = some n ∧ n.toNat = l.tileCount) ∧
      (∀ c, l.wordContains c = l.contains c) ∧
      (∀ c, ∃ answer, l.wordIndex? c = some answer ∧ answer.map UInt64.toNat = l.index? c) ∧
      (∀ i : UInt64, l.wordCoordAt? i = some (l.coordAt? i.toNat)) ∧
      ∀ c e i j, l.index? c = some i → l.index? e = some j → (i < j ↔
        c.y.toInt < e.y.toInt ∨ c.y.toInt = e.y.toInt ∧ c.x.toInt < e.x.toInt) := by
  refine ⟨fun c => ?_, fun c i h => ⟨index?_lt h, coordAt?_of_index? h⟩, fun i => ⟨?_, exists_coordAt?⟩,
    fun i c h => ?_, l.exists_wordCount?, l.wordContains_eq, l.exists_wordIndex?, l.wordCoordAt?_eq,
    fun _ _ _ _ => index?_lt_iff⟩
  · rw [← index?_isSome, Option.isSome_iff_exists]
  · rintro ⟨c, hc⟩
    exact index?_lt (index?_of_coordAt? hc)
  · have hindex := index?_of_coordAt? h
    exact ⟨contains_of_index? hindex, hindex⟩

end HexSkirmish.Layout
