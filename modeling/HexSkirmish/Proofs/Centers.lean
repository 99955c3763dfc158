import HexSkirmish.Proofs.Distances
import HexSkirmish.Proofs.Singles
import HexSkirmish.Layout.Plane

/-! Which cells are found again at their centers. A center is computed in a few roundings, and its cell
is found in a few more, so what arrives is a little away from the cell, and the farther away the farther
the cell lies from the corner of the board. -/

namespace HexSkirmish

namespace Layout

open Single

section

variable {x : Float32} {v w z t τ δ σ : ℚ} {a b c : ℤ}

theorem shows_sqrtThree : Shows sqrtThree (14529495 / 2 ^ 23) :=
  shows_of_parts (k := 14529495) (e := -23) (by decide) (by norm_num)

theorem shows_sqrtThree_third : Shows (sqrtThree / 3) (9686330 / 2 ^ 24) :=
  shows_of_parts (k := 9686330) (e := -24) (by decide) (by norm_num)

theorem shows_twoThirds : Shows (2 / 3) (11184811 / 2 ^ 24) :=
  shows_of_parts (k := 11184811) (e := -24) (by decide) (by norm_num)

theorem shows_threeHalves : Shows 1.5 (3 / 2) :=
  shows_of_parts (k := 12582912) (e := -23) (by decide) (by norm_num)

theorem shows_three : Shows 3 3 :=
  shows_of_parts (k := 12582912) (e := -22) (by decide) (by norm_num)

theorem shows_axialLimit : Shows axialLimit (2 ^ 29) :=
  shows_of_parts (k := 8388608) (e := 6) (by decide) (by norm_num)

/-- One more rounding: an error `δ` against `t` grows by a share of what is rounded. -/
theorem near_of_nearest (h : |v| < 2 ^ 127 → ∃ z, Shows x z ∧ Nearest v z) (ht : |t| ≤ τ)
    (hnear : |v - t| ≤ δ) (hbound : τ + δ < 2 ^ 127) (hσ : 1 / 2 ^ 126 ≤ σ) :
    ∃ z, Shows x z ∧ |z - t| ≤ δ + (τ + δ + σ) / 2 ^ 24 := by
  have hv : |v| ≤ τ + δ := by
    have := abs_sub_abs_le_abs_sub v t
    linarith
  obtain ⟨z, hz, hnearest⟩ := h (hv.trans_lt hbound)
  refine ⟨z, hz, ?_⟩
  have herror := hnearest.abs_sub_le
  have htriangle := abs_sub_le z v t
  norm_num at herror hσ ⊢
  linarith

theorem word_eq (h : Shows x a) (ha : |a| < 2 ^ 24) : cubeRound.word x = Int32.ofIntClamp a := by
  rw [cubeRound.word, h.truncate (by omega)]

/-- The difference of two integers with room, the first one with the other sign. -/
theorem shows_neg_sub {y : Float32} (hx : Shows x a) (hy : Shows y b) (h : |(-a - b)| < 2 ^ 24) :
    Shows (-x - y) (-a - b : ℤ) := by
  have hcast : (-(a : ℚ) - b) = ((-a - b : ℤ) : ℚ) := by push_cast; rfl
  have hsmall : |-(a : ℚ) - b| < 2 ^ 127 := by
    rw [hcast]
    exact (by exact_mod_cast h : |((-a - b : ℤ) : ℚ)| < 2 ^ 24).trans (by norm_num)
  obtain ⟨z, hz, hnear⟩ := hx.neg.sub hy hsmall
  rw [hcast] at hnear
  rwa [hnear.eq_int h] at hz

theorem abs_lt_of_near {n : ℤ} (h : |v - a| < 1 / 2) (ha : |a| < n) : |v| < n := by
  have htriangle := abs_sub_abs_le_abs_sub v a
  have hroom : |(a : ℚ)| + 1 ≤ n := by exact_mod_cast ha
  linarith

/-- Three components that add up to zero are rounded to three integers that do, if each of them is
nearer than one half to its own: then it does not matter which of them is given up. -/
theorem cubeRound_eq {q r : Float32} (hq : Shows q v) (hr : Shows r w) (hs : Shows (-q - r) z)
    (hv : |v - a| < 1 / 2) (hw : |w - b| < 1 / 2) (hz : |z - c| < 1 / 2) (hsum : a + b + c = 0)
    (ha : |a| < 2 ^ 22) (hb : |b| < 2 ^ 22) :
    cubeRound q r = ⟨Int32.ofIntClamp a, Int32.ofIntClamp b⟩ := by
  have hc : |c| < 2 ^ 23 := by
    obtain ⟨ha, ha'⟩ := abs_lt.1 ha
    obtain ⟨hb, hb'⟩ := abs_lt.1 hb
    exact abs_lt.2 ⟨by omega, by omega⟩
  have hrq := hq.round (by exact_mod_cast abs_lt_of_near hv (ha.trans (by norm_num))) hv
  have hrr := hr.round (by exact_mod_cast abs_lt_of_near hw (hb.trans (by norm_num))) hw
  have hrs := hs.round (by exact_mod_cast abs_lt_of_near hz hc) hz
  have hfirst : -b - c = a := by omega
  have hsecond : -a - c = b := by omega
  have hq' := word_eq hrq (ha.trans (by norm_num))
  have hr' := word_eq hrr (hb.trans (by norm_num))
  rw [cubeRound]
  split
  · have hgiven := shows_neg_sub hrr hrs (by rw [hfirst]; exact ha.trans (by norm_num))
    rw [hfirst] at hgiven
    rw [word_eq hgiven (ha.trans (by norm_num)), hr']
  · split
    · have hgiven := shows_neg_sub hrq hrs (by rw [hsecond]; exact hb.trans (by norm_num))
      rw [hsecond] at hgiven
      rw [word_eq hgiven (hb.trans (by norm_num)), hq']
    · rw [hq', hr']

end

section

/-- A board whose size is kept with all its bits and leaves room for products, and a place that is not
far from its corner, in units of the spacings. -/
structure Nearby (l : Layout) (σ X Y : ℚ) : Prop where
  size : Shows l.size σ
  normal : 1 / 2 ^ 126 ≤ σ
  roomy : σ ≤ 2 ^ 106
  column : 0 ≤ X
  row : 0 ≤ Y
  far : X + Y ≤ 2 ^ 20 + 1 / 2

variable {l : Layout} {p : Point} {σ X Y P R q r v t τ δ : ℚ} {fx fy : Float32}

namespace Nearby

theorem pos (h : Nearby l σ X Y) : 0 < σ := lt_of_lt_of_le (by norm_num) h.normal

theorem scaled_column (h : Nearby l σ X Y) : 0 ≤ σ * X := mul_nonneg h.pos.le h.column

theorem scaled_row (h : Nearby l σ X Y) : 0 ≤ σ * Y := mul_nonneg h.pos.le h.row

theorem scaled_sum (h : Nearby l σ X Y) : σ * X + σ * Y ≤ 2 ^ 106 * (2 ^ 20 + 1 / 2) := by
  rw [← mul_add]
  exact mul_le_mul h.roomy h.far (add_nonneg h.column h.row) (by norm_num)

/-- What is not much longer than both lengths together is kept. -/
theorem lt_two_pow (h : Nearby l σ X Y) (hlength : t ≤ 1.75 * (σ * X + σ * Y) + 9 * σ) :
    t < 2 ^ 127 := by
  have hsum := h.scaled_sum
  have hroomy := h.roomy
  norm_num at hlength hsum hroomy ⊢
  linarith only [hlength, hsum, hroomy]

/-- The spacings are off by one rounding. -/
theorem spacing_near (h : Nearby l σ X Y) :
    ∃ A B, Shows l.spacing.x A ∧ Shows l.spacing.y B ∧
      |A - 14529495 / 2 ^ 23 * σ| ≤ 14529495 / 2 ^ 23 * σ / 2 ^ 24 ∧
        |B - 3 / 2 * σ| ≤ 3 / 2 * σ / 2 ^ 24 := by
  have hpos := h.pos
  have hnormal := h.normal
  have hx : |14529495 / 2 ^ 23 * σ| = 14529495 / 2 ^ 23 * σ := abs_of_pos (by positivity)
  have hy : |3 / 2 * σ| = 3 / 2 * σ := abs_of_pos (by positivity)
  have ha := h.scaled_column
  have hb := h.scaled_row
  obtain ⟨A, hA, hnearx⟩ := shows_sqrtThree.mul h.size
    (by rw [hx]; exact h.lt_two_pow (by norm_num; linarith only [ha, hb, hpos]))
  obtain ⟨B, hB, hneary⟩ := shows_threeHalves.mul h.size
    (by rw [hy]; exact h.lt_two_pow (by norm_num; linarith only [ha, hb, hpos]))
  have herrorx := hnearx.abs_sub_le_of_normal
    (by rw [hx]; norm_num at hnormal ⊢; linarith only [hnormal])
  have herrory := hneary.abs_sub_le_of_normal
    (by rw [hy]; norm_num at hnormal ⊢; linarith only [hnormal])
  rw [hx] at herrorx
  rw [hy] at herrory
  exact ⟨A, B, hA, hB, herrorx, herrory⟩

/-- A center is off by two roundings of what it is away from the corner. -/
theorem center_near (h : Nearby l σ X Y) (hfx : Shows fx X) (hfy : Shows fy Y) :
    ∃ P R, Shows (l.spacing.x * fx) P ∧ Shows (l.spacing.y * fy) R ∧
      |P - 14529495 / 2 ^ 23 * (σ * X)| ≤ (3.47 * (σ * X) + σ) / 2 ^ 24 ∧
        |R - 3 / 2 * (σ * Y)| ≤ (3.01 * (σ * Y) + σ) / 2 ^ 24 := by
  have hpos := h.pos
  have ha := h.scaled_column
  have hb := h.scaled_row
  obtain ⟨A, B, hA, hB, herrorx, herrory⟩ := h.spacing_near
  have hnearx : |A * X - 14529495 / 2 ^ 23 * (σ * X)| ≤ 14529495 / 2 ^ 23 * (σ * X) / 2 ^ 24 := by
    rw [← mul_assoc, ← sub_mul, abs_mul, abs_of_nonneg h.column, ← div_mul_eq_mul_div]
    exact mul_le_mul_of_nonneg_right herrorx h.column
  have hneary : |B * Y - 3 / 2 * (σ * Y)| ≤ 3 / 2 * (σ * Y) / 2 ^ 24 := by
    rw [← mul_assoc, ← sub_mul, abs_mul, abs_of_nonneg h.row, ← div_mul_eq_mul_div]
    exact mul_le_mul_of_nonneg_right herrory h.row
  obtain ⟨P, hP, hPnear⟩ := near_of_nearest (hA.mul hfx) (abs_of_nonneg (by positivity)).le hnearx
    (h.lt_two_pow (by norm_num; linarith only [ha, hb, hpos])) h.normal
  obtain ⟨R, hR, hRnear⟩ := near_of_nearest (hB.mul hfy) (abs_of_nonneg (by positivity)).le hneary
    (h.lt_two_pow (by norm_num; linarith only [ha, hb, hpos])) h.normal
  refine ⟨P, R, hP, hR, hPnear.trans ?_, hRnear.trans ?_⟩
  · norm_num
    linarith only [ha, hpos]
  · norm_num
    linarith only [hb, hpos]

/-- A length is divided by the size. -/
theorem div_size_near (h : Nearby l σ X Y) {y : Float32} (hy : Shows y v)
    (hnear : |v - σ * t| ≤ σ * δ) (ht : |t| ≤ τ) (hbound : τ + δ < 2 ^ 127) :
    ∃ z, Shows (y / l.size) z ∧ |z - t| ≤ δ + (τ + δ + 1) / 2 ^ 24 := by
  have hpos := h.pos
  have hscaled : |v / σ - t| ≤ δ := by
    rw [← mul_le_mul_iff_right₀ hpos, ← abs_of_pos hpos, ← abs_mul, abs_of_pos hpos, mul_sub,
      mul_div_cancel₀ _ hpos.ne']
    exact hnear
  exact near_of_nearest (hy.div h.size hpos.ne') ht hscaled hbound (by norm_num)

/-- The column that comes back from a center is off by four roundings more. -/
theorem column_near (h : Nearby l σ X Y) (hP : Shows p.x P) (hR : Shows p.y R)
    (hx : |P - 14529495 / 2 ^ 23 * (σ * X)| ≤ (3.47 * (σ * X) + σ) / 2 ^ 24)
    (hy : |R - 3 / 2 * (σ * Y)| ≤ (3.01 * (σ * Y) + σ) / 2 ^ 24) :
    ∃ q, Shows (l.fractional p).1 q ∧ |q - (X - Y / 2)| ≤ (5.7 * X + 2.6 * Y + 9) / 2 ^ 24 := by
  have hpos := h.pos
  have ha := h.scaled_column
  have hb := h.scaled_row
  have hX := h.column
  have hY := h.row
  have hfar := h.far
  have hcolumn : |9686330 / 2 ^ 24 * P - σ * X| ≤ (2.63 * (σ * X) + σ) / 2 ^ 24 := by
    rw [abs_le] at hx ⊢
    norm_num at hx ⊢
    constructor <;> linarith only [hx, ha, hpos]
  have hhalf : |R / 3 - σ * Y / 2| ≤ (1.01 * (σ * Y) + σ) / 2 ^ 24 := by
    rw [abs_le] at hy ⊢
    norm_num at hy ⊢
    constructor <;> linarith only [hy, hb, hpos]
  obtain ⟨q₁, hq₁, hnear₁⟩ := near_of_nearest (shows_sqrtThree_third.mul hP)
    (abs_of_nonneg ha).le hcolumn (h.lt_two_pow (by norm_num; linarith only [ha, hb, hpos])) h.normal
  obtain ⟨q₂, hq₂, hnear₂⟩ := near_of_nearest (hR.div shows_three (by norm_num))
    (abs_of_nonneg (by positivity)).le hhalf
    (h.lt_two_pow (by norm_num; linarith only [ha, hb, hpos])) h.normal
  have hcross : |q₁ - q₂ - (σ * X - σ * Y / 2)| ≤
      (3.64 * (σ * X) + 1.52 * (σ * Y) + 5 * σ) / 2 ^ 24 := by
    rw [abs_le] at hnear₁ hnear₂ ⊢
    norm_num at hnear₁ hnear₂ ⊢
    constructor <;> linarith only [hnear₁, hnear₂, ha, hb, hpos]
  have hlength : |σ * X - σ * Y / 2| ≤ σ * X + σ * Y / 2 := by
    rw [abs_le]
    constructor <;> linarith only [ha, hb]
  obtain ⟨q₀, hq₀, hnear₀⟩ := near_of_nearest (hq₁.sub hq₂) hlength hcross
    (h.lt_two_pow (by norm_num; linarith only [ha, hb, hpos])) h.normal
  have hcolumn₀ : |q₀ - σ * (X - Y / 2)| ≤ σ * ((4.66 * X + 2.04 * Y + 7) / 2 ^ 24) := by
    rw [mul_sub, ← mul_div_assoc σ Y]
    refine hnear₀.trans ?_
    norm_num
    linarith only [ha, hb, hpos]
  have hunit : |X - Y / 2| ≤ X + Y / 2 := by
    rw [abs_le]
    constructor <;> linarith only [hX, hY]
  obtain ⟨q, hq, hqnear⟩ := h.div_size_near hq₀ hcolumn₀ hunit
    (by norm_num at hfar ⊢; linarith only [hfar, hX, hY])
  refine ⟨q, hq, hqnear.trans ?_⟩
  norm_num
  linarith only [hX, hY]

/-- The row that comes back from a center is off by two roundings more. -/
theorem row_near (h : Nearby l σ X Y) (hR : Shows p.y R)
    (hy : |R - 3 / 2 * (σ * Y)| ≤ (3.01 * (σ * Y) + σ) / 2 ^ 24) :
    ∃ r, Shows (l.fractional p).2 r ∧ |r - Y| ≤ (4.6 * Y + 5) / 2 ^ 24 := by
  have hpos := h.pos
  have ha := h.scaled_column
  have hb := h.scaled_row
  have hX := h.column
  have hY := h.row
  have hfar := h.far
  have hrow : |11184811 / 2 ^ 24 * R - σ * Y| ≤ (2.51 * (σ * Y) + σ) / 2 ^ 24 := by
    rw [abs_le] at hy ⊢
    norm_num at hy ⊢
    constructor <;> linarith only [hy, hb, hpos]
  obtain ⟨r₁, hr₁, hnear₁⟩ := near_of_nearest (shows_twoThirds.mul hR) (abs_of_nonneg hb).le
    hrow (h.lt_two_pow (by norm_num; linarith only [ha, hb, hpos])) h.normal
  have hrow₀ : |r₁ - σ * Y| ≤ σ * ((3.53 * Y + 3) / 2 ^ 24) := by
    refine hnear₁.trans ?_
    norm_num
    linarith only [hb, hpos]
  obtain ⟨r, hr, hrnear⟩ := h.div_size_near hr₁ hrow₀ (abs_of_nonneg hY).le
    (by norm_num at hfar ⊢; linarith only [hfar, hX, hY])
  refine ⟨r, hr, hrnear.trans ?_⟩
  norm_num
  linarith only [hY]

/-- The third component is off by what the others are off by, and one rounding. -/
theorem third_near (h : Nearby l σ X Y) (hq : Shows fx q) (hr : Shows fy r)
    (hqnear : |q - (X - Y / 2)| ≤ (5.7 * X + 2.6 * Y + 9) / 2 ^ 24)
    (hrnear : |r - Y| ≤ (4.6 * Y + 5) / 2 ^ 24) :
    ∃ s, Shows (-fx - fy) s ∧ |s - (-X - Y / 2)| ≤ (6.71 * X + 7.71 * Y + 16) / 2 ^ 24 := by
  have hX := h.column
  have hY := h.row
  have hfar := h.far
  have hsum : |-q - r - (-X - Y / 2)| ≤ (5.7 * X + 7.2 * Y + 14) / 2 ^ 24 := by
    rw [abs_le] at hqnear hrnear ⊢
    norm_num at hqnear hrnear ⊢
    constructor <;> linarith only [hqnear, hrnear]
  have hlength : |-X - Y / 2| ≤ X + Y / 2 := by
    rw [abs_le]
    constructor <;> linarith only [hX, hY]
  obtain ⟨s, hs, hsnear⟩ := near_of_nearest (σ := 1) (hq.neg.sub hr) hlength hsum
    (by norm_num at hfar ⊢; linarith only [hfar, hX, hY]) (by norm_num)
  refine ⟨s, hs, hsnear.trans ?_⟩
  norm_num
  linarith only [hX, hY]

/-- All three components of a center are off by less than one half. -/
theorem components_near (h : Nearby l σ X Y) (hP : Shows p.x P) (hR : Shows p.y R)
    (hx : |P - 14529495 / 2 ^ 23 * (σ * X)| ≤ (3.47 * (σ * X) + σ) / 2 ^ 24)
    (hy : |R - 3 / 2 * (σ * Y)| ≤ (3.01 * (σ * Y) + σ) / 2 ^ 24) :
    ∃ q r s, Shows (l.fractional p).1 q ∧ Shows (l.fractional p).2 r ∧
      Shows (-(l.fractional p).1 - (l.fractional p).2) s ∧ |q - (X - Y / 2)| < 1 / 2 ∧
        |r - Y| < 1 / 2 ∧ |s - (-X - Y / 2)| < 1 / 2 := by
  have hX := h.column
  have hY := h.row
  have hfar := h.far
  norm_num at hfar
  obtain ⟨q, hq, hqnear⟩ := h.column_near hP hR hx hy
  obtain ⟨r, hr, hrnear⟩ := h.row_near hR hy
  obtain ⟨s, hs, hsnear⟩ := h.third_near hq hr hqnear hrnear
  refine ⟨q, r, s, hq, hr, hs, hqnear.trans_lt ?_, hrnear.trans_lt ?_, hsnear.trans_lt ?_⟩ <;>
    · norm_num
      linarith only [hfar, hX, hY]

end Nearby

end

section

variable {l : Layout} {c : Coord} {σ : ℚ}

/-- The column of a center, in units of the spacing. -/
def shiftedColumn (c : Coord) : ℚ := c.x.toInt + (c.y.toInt % 2 : ℤ) / 2

theorem shiftedColumn_sub_half (c : Coord) :
    shiftedColumn c - c.y.toInt / 2 = (c.x.toInt - c.y.toInt / 2 : ℤ) := by
  have hsplit : (c.y.toInt : ℚ) = (c.y.toInt % 2 : ℤ) + 2 * (c.y.toInt / 2 : ℤ) := by
    exact_mod_cast (Int.emod_add_mul_ediv c.y.toInt 2).symm
  rw [shiftedColumn, hsplit]
  push_cast
  ring

theorem shiftedColumn_nonneg (hx : 0 ≤ c.x.toInt) : 0 ≤ shiftedColumn c := by
  have hparity : 0 ≤ c.y.toInt % 2 := Int.emod_nonneg _ two_ne_zero
  rw [shiftedColumn]
  positivity

theorem shiftedColumn_le (c : Coord) : shiftedColumn c ≤ c.x.toInt + 1 / 2 := by
  have hparity : ((c.y.toInt % 2 : ℤ) : ℚ) ≤ 1 := by
    exact_mod_cast Int.lt_add_one_iff.1 (Int.emod_lt_of_pos c.y.toInt two_pos)
  rw [shiftedColumn]
  linarith

theorem shows_shiftedColumn (hx : 0 ≤ c.x.toInt) (hfar : c.x.toInt ≤ 2 ^ 20) :
    Shows (Float32.ofInt c.x.toInt + if c.isOddRow then 0.5 else 0) (shiftedColumn c) := by
  rw [shiftedColumn]
  have hcolumn := shows_ofInt (n := c.x.toInt) (by rw [abs_of_nonneg hx]; omega)
  have hodd : c.isOddRow = decide (c.y.toInt % 2 = 1) := rfl
  have hshift : Shows (if c.isOddRow then 0.5 else 0) ((c.y.toInt % 2 : ℤ) / 2) := by
    rw [hodd]
    obtain h | h := Int.emod_two_eq_zero_or_one c.y.toInt
    · rw [h]
      simpa using shows_zero
    · rw [h]
      simpa using shows_half
  have hscaled : (c.x.toInt : ℚ) + (c.y.toInt % 2 : ℤ) / 2 =
      (2 * c.x.toInt + c.y.toInt % 2 : ℤ) * 2 ^ (-1 : ℤ) := by
    push_cast
    ring
  have hroom : |2 * c.x.toInt + c.y.toInt % 2| < 2 ^ 24 := by
    rw [abs_of_nonneg (by omega)]
    omega
  have hsmall : |(c.x.toInt : ℚ) + (c.y.toInt % 2 : ℤ) / 2| < 2 ^ 127 := by
    have hcast : |((2 * c.x.toInt + c.y.toInt % 2 : ℤ) : ℚ)| < 2 ^ 24 := by exact_mod_cast hroom
    rw [hscaled, abs_mul]
    norm_num at hcast ⊢
    linarith
  obtain ⟨z, hz, hnear⟩ := hcolumn.add hshift hsmall
  rw [hscaled] at hnear
  rw [hnear.eq_of_room hroom (by norm_num), ← hscaled] at hz
  exact hz

theorem ofAxial_column (h : l.contains c = true) :
    Coord.ofAxial ⟨Int32.ofIntClamp c.column, Int32.ofIntClamp c.y.toInt⟩ = c := by
  have hcolumn : (Int32.ofIntClamp c.column).toInt = c.column := (Coord.toAxial_toInt h).1
  have hx : c.column + c.y.toInt / 2 = c.x.toInt := by
    rw [Coord.column]
    omega
  rw [Coord.ofAxial, hcolumn, Int32.ofIntClamp_toInt, hx, Int32.ofIntClamp_toInt]

theorem clamp_of_near {x : Float32} {v : ℚ} {a : ℤ} (hx : Shows x v) (h : |v - a| < 1 / 2)
    (ha : |a| < 2 ^ 22) : clamp x (-axialLimit) axialLimit = x := by
  have hv : |v| < 2 ^ 22 := by exact_mod_cast abs_lt_of_near h ha
  obtain ⟨hlow, hhigh⟩ := abs_lt.1 hv
  norm_num at hlow hhigh
  exact hx.clamp shows_axialLimit.neg shows_axialLimit (by norm_num; linarith) (by norm_num; linarith)

/-- A point is in a cell near the corner of the board if its three components are nearer than one half
to those of the cell. -/
theorem cellAt_of_near {p : Point} {q r s : ℚ} (h : l.contains c = true)
    (hfar : c.x.toInt + c.y.toInt ≤ 2 ^ 20) (hq : Shows (l.fractional p).1 q)
    (hr : Shows (l.fractional p).2 r) (hs : Shows (-(l.fractional p).1 - (l.fractional p).2) s)
    (hqnear : |q - (c.column : ℤ)| < 1 / 2) (hrnear : |r - c.y.toInt| < 1 / 2)
    (hsnear : |s - (-c.column - c.y.toInt : ℤ)| < 1 / 2) : l.cellAt p = c := by
  obtain ⟨hx, hy, -, -⟩ := contains_iff.mp h
  have hcolumn : |c.column| < 2 ^ 22 := by
    rw [Coord.column, abs_lt]
    omega
  have hrow : |c.y.toInt| < 2 ^ 22 := by
    rw [abs_of_nonneg hy]
    omega
  have hcell := cubeRound_eq hq hr hs hqnear hrnear hsnear (by omega) hcolumn hrow
  rw [cellAt]
  simp only [hq.isFinite, hr.isFinite, clamp_of_near hq hqnear hcolumn, clamp_of_near hr hrnear hrow,
    hcell, Bool.and_self, if_true]
  exact ofAxial_column h

/-- The least number that is kept with all its bits. -/
def leastSize : Float32 := Float32.ofBits 0x00800000

/-- `2 ^ 106`, which leaves room for the farthest center that is found again. -/
def greatestSize : Float32 := Float32.ofBits 0x74800000

theorem shows_leastSize : Shows leastSize (1 / 2 ^ 126) :=
  shows_of_parts (k := 8388608) (e := -149) (by decide) (by norm_num)

theorem shows_greatestSize : Shows greatestSize (2 ^ 106) :=
  shows_of_parts (k := 8388608) (e := 83) (by decide) (by norm_num)

theorem exists_shows_size (l : Layout) : ∃ σ, Shows l.size σ := by
  have husable := l.size_usable
  rw [usableSize, Bool.and_eq_true] at husable
  exact exists_shows husable.1

theorem cellAt_center (hlow : leastSize ≤ l.size) (hhigh : l.size ≤ greatestSize)
    (h : l.contains c = true) (hfar : c.x.toInt + c.y.toInt ≤ 2 ^ 20) :
    l.cellAt (l.center c) = c := by
  obtain ⟨σ, hsize⟩ := l.exists_shows_size
  rw [shows_leastSize.le_iff hsize] at hlow
  rw [hsize.le_iff shows_greatestSize] at hhigh
  obtain ⟨hx, hy, -, -⟩ := contains_iff.mp h
  have hsum : shiftedColumn c + c.y.toInt ≤ 2 ^ 20 + 1 / 2 := by
    have : (c.x.toInt + c.y.toInt : ℚ) ≤ 2 ^ 20 := by exact_mod_cast hfar
    linarith only [shiftedColumn_le c, this]
  have hnearby : Nearby l σ (shiftedColumn c) c.y.toInt :=
    ⟨hsize, hlow, hhigh, shiftedColumn_nonneg hx, by exact_mod_cast hy, hsum⟩
  obtain ⟨P, R, hP, hR, hPnear, hRnear⟩ := hnearby.center_near (shows_shiftedColumn hx (by omega))
    (shows_ofInt (by rw [abs_of_nonneg hy]; omega))
  obtain ⟨q, r, s, hq, hr, hs, hqnear, hrnear, hsnear⟩ :=
    hnearby.components_near (p := l.center c) hP hR hPnear hRnear
  have hcolumn : shiftedColumn c - c.y.toInt / 2 = (c.column : ℤ) := shiftedColumn_sub_half c
  have hthird : -shiftedColumn c - c.y.toInt / 2 = (-c.column - c.y.toInt : ℤ) := by
    push_cast
    rw [← hcolumn]
    ring
  rw [hcolumn] at hqnear
  rw [hthird] at hsnear
  exact cellAt_of_near h hfar hq hr hs hqnear hrnear hsnear

/-- From this size on the rows are farther apart than any number that is kept. -/
def lostSize : Float32 := Float32.ofBits 0x7f2aaaab

theorem shows_lostSize : Shows lostSize (11184811 * 2 ^ 104) :=
  shows_of_parts (k := 11184811) (e := 104) (by decide) (by norm_num)

theorem cellAt_center_of_lostSize (h : lostSize ≤ l.size) (c : Coord) :
    l.cellAt (l.center c) = Coord.offGrid := by
  obtain ⟨σ, hsize⟩ := l.exists_shows_size
  rw [shows_lostSize.le_iff hsize] at h
  have hspacing : l.spacing.y.isFinite = false := by
    refine (Reads.mul shows_threeHalves hsize).not_isFinite ?_
    rw [abs_of_nonneg (by norm_num at h ⊢; linarith)]
    norm_num at h ⊢
    linarith
  have hcenter : (l.center c).y.isFinite = false :=
    not_isFinite_mul (by rw [hspacing, Bool.false_and])
  have hrow : (l.fractional (l.center c)).2.isFinite = false :=
    not_isFinite_div (not_isFinite_mul (by rw [hcenter, Bool.and_false])) _
  rw [cellAt]
  simp only [hrow, Bool.and_false, Bool.false_eq_true, if_false]

/-- Of two cells with one center at least one is not found again. -/
theorem exists_not_found {a b : Coord} (ha : l.contains a = true) (hb : l.contains b = true)
    (hne : a ≠ b) (h : l.center a = l.center b) :
    ∃ c, l.contains c = true ∧ l.cellAt (l.center c) ≠ c := by
  by_cases hfound : l.cellAt (l.center a) = a
  · refine ⟨b, hb, fun hfound' => hne ?_⟩
    rw [← hfound, h, hfound']
  · exact ⟨a, ha, hfound⟩

/-- Integers of more than 24 bits are rounded: columns fall together from `2 ^ 24` on, and rows of one
parity from `2 ^ 25` on. -/
theorem exists_not_found_of_extent (h : 2 ^ 24 + 2 ≤ l.width ∨ 2 ^ 25 + 3 ≤ l.height) :
    ∃ c, l.contains c = true ∧ l.cellAt (l.center c) ≠ c := by
  have := l.width_bounds
  have := l.height_bounds
  obtain hwide | htall := h
  · have hcolumn : Float32.ofInt 16777216 = Float32.ofInt 16777217 := by decide
    refine exists_not_found (a := ⟨16777216, 0⟩) (b := ⟨16777217, 0⟩) ?_ ?_ (by decide) ?_
    · rw [contains_iff]
      change (0 : ℤ) ≤ 16777216 ∧ (0 : ℤ) ≤ 0 ∧ (16777216 : ℤ) < _ ∧ (0 : ℤ) < _
      omega
    · rw [contains_iff]
      change (0 : ℤ) ≤ 16777217 ∧ (0 : ℤ) ≤ 0 ∧ (16777217 : ℤ) < _ ∧ (0 : ℤ) < _
      omega
    · rw [center, center]
      change Point.mk (_ * (Float32.ofInt 16777216 + _)) _ =
        Point.mk (_ * (Float32.ofInt 16777217 + _)) _
      rw [hcolumn]
      rfl
  · have hrow : Float32.ofInt 33554432 = Float32.ofInt 33554434 := by decide
    refine exists_not_found (a := ⟨0, 33554432⟩) (b := ⟨0, 33554434⟩) ?_ ?_ (by decide) ?_
    · rw [contains_iff]
      change (0 : ℤ) ≤ 0 ∧ (0 : ℤ) ≤ 33554432 ∧ (0 : ℤ) < _ ∧ (33554432 : ℤ) < _
      omega
    · rw [contains_iff]
      change (0 : ℤ) ≤ 0 ∧ (0 : ℤ) ≤ 33554434 ∧ (0 : ℤ) < _ ∧ (33554434 : ℤ) < _
      omega
    · rw [center, center]
      change Point.mk _ (_ * Float32.ofInt 33554432) = Point.mk _ (_ * Float32.ofInt 33554434)
      rw [hrow]
      rfl

/-- Centers lead back to their cells. On a board whose size is kept with all its bits and leaves room
for products, this holds for every cell near enough to the corner. It cannot hold for all cells of a
board on which two columns or two rows have one number, and it holds for no cell of a board whose rows
are farther apart than any number. -/
theorem centers_return (l : Layout) :
    (leastSize ≤ l.size → l.size ≤ greatestSize → ∀ c, l.contains c = true →
      c.x.toInt + c.y.toInt ≤ 2 ^ 20 → l.cellAt (l.center c) = c) ∧
    (2 ^ 24 + 2 ≤ l.width ∨ 2 ^ 25 + 3 ≤ l.height →
      ∃ c, l.contains c = true ∧ l.cellAt (l.center c) ≠ c) ∧
    (lostSize ≤ l.size → ∀ c, l.cellAt (l.center c) = Coord.offGrid) :=
  ⟨fun hlow hhigh _ h hfar => cellAt_center hlow hhigh h hfar, exists_not_found_of_extent,
    fun h c => cellAt_center_of_lostSize h c⟩

/-- One tile of the greatest size there is. -/
def hugeTile : Layout :=
  ⟨1, 1, Float32.ofBits 0x7f7fffff, by decide, by decide, by decide +kernel⟩

/-- One row with two columns that have the same center. -/
def longRow : Layout := ⟨16777218, 1, 1, by decide, by decide, standard.size_usable⟩

theorem centers_return_and_not :
    standard.cellAt (standard.center ⟨7, 7⟩) = ⟨7, 7⟩ ∧
      (∃ c, longRow.contains c = true ∧ longRow.cellAt (longRow.center c) ≠ c) ∧
        ∀ c, hugeTile.cellAt (hugeTile.center c) = Coord.offGrid :=
  ⟨(centers_return standard).1 (by decide +kernel) (by decide +kernel) ⟨7, 7⟩ (by decide)
      (by decide),
    (centers_return longRow).2.1 (Or.inl le_rfl),
    (centers_return hugeTile).2.2 (by decide +kernel)⟩

/-- The last cell of a row is taken for the one two columns before it. -/
theorem longRow_end_not_found :
    longRow.contains ⟨16777217, 0⟩ = true ∧
      longRow.cellAt (longRow.center ⟨16777217, 0⟩) = ⟨16777215, 0⟩ ∧
        longRow.cellAt (longRow.center ⟨16777217, 0⟩) ≠ ⟨16777217, 0⟩ := by
  decide +kernel

end

end Layout

end HexSkirmish
