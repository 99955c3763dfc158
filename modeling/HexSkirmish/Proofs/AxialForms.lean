import HexSkirmish.Proofs.Numbering
import HexSkirmish.Proofs.Words

/-! The axial form of a cell and back. Half of a row is found with words: the row is made even, which is
possible for every word, and halved without a fraction. Only the column can leave the range of words, and
then it is held at its end: the conversion is lost there, and nowhere else, in either direction. -/

namespace HexSkirmish.Coord

/-- Half of a row, or of the row before it if it is odd. -/
def halfRow? (y : Int32) : Option Int32 := do
  let even ← Words.sub? y (y &&& 1)
  Words.div? even 2

/-- The axial form, computed with words. -/
def toAxialWords? (c : Coord) : Option Axial := do
  let half ← halfRow? c.y
  return ⟨Words.subHeld c.x half, c.y⟩

/-- The cell of an axial form, computed with words. -/
def ofAxialWords? (a : Axial) : Option Coord := do
  let half ← halfRow? a.r
  return ⟨Words.addHeld a.q half, a.r⟩

theorem exists_halfRow? (y : Int32) : ∃ h, halfRow? y = some h ∧ h.toInt = y.toInt / 2 := by
  obtain ⟨hlow, hhigh⟩ := Words.isWord_toInt y
  have hparity := Words.toInt_and_one y
  -- The least word is even, so that one is never taken from it.
  obtain ⟨even, hsub, heven⟩ := Words.exists_sub? (a := y) (b := y &&& 1) (by
    constructor <;> omega)
  have htwo : (2 : Int32).toInt = 2 := rfl
  have hhalf : even.toInt.tdiv 2 = y.toInt / 2 := by
    rw [heven, hparity, Int.tdiv_eq_ediv_of_dvd (by omega)]
    omega
  obtain ⟨h, hdiv, hh⟩ := Words.exists_div? (a := even) (b := 2) (by decide) (by
    rw [htwo, hhalf]
    constructor <;> omega)
  refine ⟨h, ?_, by rw [hh, htwo, hhalf]⟩
  simp [halfRow?, hsub, hdiv]

theorem toAxialWords?_eq (c : Coord) : c.toAxialWords? = some c.toAxial := by
  obtain ⟨h, hhalf, hh⟩ := exists_halfRow? c.y
  simp [toAxialWords?, hhalf, toAxial, Words.subHeld, hh]

theorem ofAxialWords?_eq (a : Axial) : ofAxialWords? a = some (ofAxial a) := by
  obtain ⟨h, hhalf, hh⟩ := exists_halfRow? a.r
  simp [ofAxialWords?, hhalf, ofAxial, Words.addHeld, hh]

theorem ofAxial_toAxial_iff (c : Coord) :
    ofAxial c.toAxial = c ↔ IsWord (c.x.toInt - c.y.toInt / 2) := by
  obtain ⟨x, y⟩ := c
  obtain ⟨_, _⟩ := Words.isWord_toInt x
  obtain ⟨_, _⟩ := Words.isWord_toInt y
  simp only [ofAxial, toAxial, Coord.mk.injEq, and_true, ← Int32.toInt_inj,
    Words.toInt_ofIntClamp_eq, IsWord]
  omega

theorem toAxial_ofAxial_iff (a : Axial) :
    (ofAxial a).toAxial = a ↔ IsWord (a.q.toInt + a.r.toInt / 2) := by
  obtain ⟨q, r⟩ := a
  obtain ⟨_, _⟩ := Words.isWord_toInt q
  obtain ⟨_, _⟩ := Words.isWord_toInt r
  simp only [ofAxial, toAxial, Axial.mk.injEq, and_true, ← Int32.toInt_inj,
    Words.toInt_ofIntClamp_eq, IsWord]
  omega

/-- The axial conversion is a bijection exactly where it does not saturate. A cell comes back from its
axial form if and only if its straightened column is a word, and an axial form from its cell if and only
if the column there is. Computed with words, neither conversion leaves their range on the way, whatever
the cell. On a board every cell comes back. -/
theorem axial_exact (c : Coord) (a : Axial) :
    (ofAxial c.toAxial = c ↔ IsWord (c.x.toInt - c.y.toInt / 2)) ∧
      ((ofAxial a).toAxial = a ↔ IsWord (a.q.toInt + a.r.toInt / 2)) ∧
      c.toAxialWords? = some c.toAxial ∧ ofAxialWords? a = some (ofAxial a) ∧
      ∀ l : Layout, l.contains c = true → IsWord (c.x.toInt - c.y.toInt / 2) := by
  refine ⟨ofAxial_toAxial_iff c, toAxial_ofAxial_iff a, toAxialWords?_eq c, ofAxialWords?_eq a, ?_⟩
  intro l hc
  obtain ⟨hx, hy, hw, hh⟩ := Layout.contains_iff.mp hc
  have := l.width_bounds
  have := l.height_bounds
  constructor <;> omega

/-- In the first row of words the last column that comes back is followed by one that does not. -/
example : ofAxial (toAxial ⟨1073741823, -2147483648⟩) = ⟨1073741823, -2147483648⟩ ∧
    ofAxial (toAxial ⟨1073741824, -2147483648⟩) = ⟨1073741823, -2147483648⟩ := by decide

end HexSkirmish.Coord
