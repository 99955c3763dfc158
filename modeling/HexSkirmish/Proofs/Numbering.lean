import HexSkirmish.Layout
import Mathlib.Data.Nat.Basic

/-! Cells of a board and the numbers of its tiles determine each other, and a neighbour on the board
is another cell of it. -/

namespace HexSkirmish

namespace Layout

variable {l : Layout} {c e : Coord} {i : Nat}

theorem width_bounds (l : Layout) : 0 < l.width ∧ l.width ≤ 2147483647 := by
  simpa [usableExtent] using l.width_usable

theorem height_bounds (l : Layout) : 0 < l.height ∧ l.height ≤ 2147483647 := by
  simpa [usableExtent] using l.height_usable

theorem create_ok {width height : Nat} {size : Single} (h : create width height size = .ok l) :
    l.width = width ∧ l.height = height := by
  simp only [create] at h
  split at h
  · split at h
    · obtain rfl := Except.ok.inj h
      exact ⟨rfl, rfl⟩
    · cases h
  · cases h

theorem contains_iff : l.contains c = true ↔
    0 ≤ c.x.toInt ∧ 0 ≤ c.y.toInt ∧ c.x.toInt < l.width ∧ c.y.toInt < l.height := by
  simp [contains, and_assoc]

theorem index?_eq_some_iff : l.index? c = some i ↔
    l.contains c = true ∧ i = c.y.toInt.toNat * l.width + c.x.toInt.toNat := by
  by_cases hc : l.contains c = true
  · simp only [index?, hc, if_true, Option.some.injEq, true_and]
    exact eq_comm
  · simp [index?, hc]

theorem index?_isSome : (l.index? c).isSome = l.contains c := by
  cases hc : l.contains c <;> simp [index?, hc]

theorem exists_index? (h : l.contains c = true) : ∃ i, l.index? c = some i :=
  ⟨_, index?_eq_some_iff.mpr ⟨h, rfl⟩⟩

theorem contains_of_index? (h : l.index? c = some i) : l.contains c = true :=
  (index?_eq_some_iff.mp h).1

theorem index?_lt (h : l.index? c = some i) : i < l.tileCount := by
  obtain ⟨hc, rfl⟩ := index?_eq_some_iff.mp h
  obtain ⟨hx, hy, hw, hh⟩ := contains_iff.mp hc
  have hrow : c.y.toInt.toNat + 1 ≤ l.height := by omega
  have := Nat.mul_le_mul_right l.width hrow
  rw [Nat.add_mul, Nat.one_mul] at this
  rw [tileCount, Nat.mul_comm l.width]
  omega

theorem coordAt?_of_index? (h : l.index? c = some i) : l.coordAt? i = some c := by
  have hlt := index?_lt h
  obtain ⟨hc, rfl⟩ := index?_eq_some_iff.mp h
  obtain ⟨hx, hy, hw, hh⟩ := contains_iff.mp hc
  have hcol : (c.y.toInt.toNat * l.width + c.x.toInt.toNat) % l.width = c.x.toInt.toNat := by
    rw [Nat.add_comm, Nat.add_mul_mod_self_right, Nat.mod_eq_of_lt (by omega)]
  have hrow : (c.y.toInt.toNat * l.width + c.x.toInt.toNat) / l.width = c.y.toInt.toNat := by
    rw [Nat.add_comm, Nat.add_mul_div_right _ _ l.width_bounds.1, Nat.div_eq_of_lt (by omega),
      Nat.zero_add]
  rw [coordAt?, if_pos hlt, hcol, hrow]
  have hxe : Int32.ofNat c.x.toInt.toNat = c.x := by
    rw [← Int32.toInt_inj, Int32.toInt_ofNat_of_lt (by have := l.width_bounds; omega)]
    omega
  have hye : Int32.ofNat c.y.toInt.toNat = c.y := by
    rw [← Int32.toInt_inj, Int32.toInt_ofNat_of_lt (by have := l.height_bounds; omega)]
    omega
  rw [hxe, hye]

theorem index?_of_coordAt? (h : l.coordAt? i = some c) : l.index? c = some i := by
  simp only [coordAt?] at h
  split at h
  · rename_i hlt
    obtain rfl := (Option.some.inj h).symm
    have hw := l.width_bounds
    have hh := l.height_bounds
    have hcol := Nat.mod_lt i hw.1
    have hrow : i / l.width < l.height := by
      rw [Nat.div_lt_iff_lt_mul hw.1, Nat.mul_comm]
      exact hlt
    have hx : (Int32.ofNat (i % l.width)).toInt = (i % l.width : Nat) :=
      Int32.toInt_ofNat_of_lt (by omega)
    have hy : (Int32.ofNat (i / l.width)).toInt = (i / l.width : Nat) :=
      Int32.toInt_ofNat_of_lt (by omega)
    have hdiv := Nat.div_add_mod' i l.width
    rw [index?_eq_some_iff, contains_iff]
    dsimp only
    rw [hx, hy]
    simp only [Int.toNat_natCast]
    exact ⟨⟨Int.natCast_nonneg _, Int.natCast_nonneg _, Int.ofNat_lt.mpr hcol,
      Int.ofNat_lt.mpr hrow⟩, hdiv.symm⟩
  · cases h

theorem index?_inj (h : l.index? c = some i) (h' : l.index? e = some i) : c = e :=
  Option.some.inj ((coordAt?_of_index? h).symm.trans (coordAt?_of_index? h'))

theorem exists_coordAt? (h : i < l.tileCount) : ∃ c, l.coordAt? i = some c := by
  simp [coordAt?, h]

theorem neighbor?_contains {d : Direction} (h : l.neighbor? c d = some e) :
    l.contains e = true := by
  simp only [neighbor?, Option.filter_eq_some_iff] at h
  exact h.2

/-- Whether a cell of the board is a neighbour of another one. -/
def Beside (l : Layout) (c e : Coord) : Prop := ∃ d, l.neighbor? c d = some e

theorem mem_neighbors : e ∈ l.neighbors c ↔ ∃ d, l.neighbor? c d = some e := by
  simp only [neighbors, List.mem_filterMap]
  constructor
  · rintro ⟨d, _, h⟩
    exact ⟨d, h⟩
  · rintro ⟨d, h⟩
    exact ⟨d, by cases d <;> simp [Direction.all], h⟩

end Layout

namespace Coord

theorem ofInts?_toInt {x y : Int} {c : Coord} (h : ofInts? x y = some c) :
    c.x.toInt = x ∧ c.y.toInt = y := by
  simp only [ofInts?] at h
  split at h
  · rename_i hfits
    simp only [Bool.and_eq_true, decide_eq_true_eq] at hfits
    obtain rfl := Option.some.inj h
    exact ⟨Int32.toInt_ofInt_of_le (by omega) (by omega),
      Int32.toInt_ofInt_of_le (by omega) (by omega)⟩
  · cases h

theorem neighbor?_ne {c e : Coord} {d : Direction} (h : c.neighbor? d = some e) : e ≠ c := by
  rintro rfl
  obtain ⟨hx, hy⟩ := ofInts?_toInt h
  have : (d.offset e.isOddRow).1 ≠ 0 ∨ (d.offset e.isOddRow).2 ≠ 0 := by
    cases d <;> simp [Direction.offset]
  omega

end Coord

theorem Layout.neighbor?_ne {l : Layout} {c e : Coord} {d : Direction}
    (h : l.neighbor? c d = some e) : e ≠ c := by
  simp only [Layout.neighbor?, Option.filter_eq_some_iff] at h
  exact Coord.neighbor?_ne h.1

end HexSkirmish
