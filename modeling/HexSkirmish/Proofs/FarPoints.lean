import HexSkirmish.Proofs.Centers
import HexSkirmish.Proofs.Words

/-! Points so far away that their components are beyond the range of words. The components are held at a
limit, one quarter of that range, before they are rounded, so such a point comes to a cell in the column or
in the row of the limit or off every board. The limit is itself a place on boards that reach as far. -/

namespace HexSkirmish

namespace Layout

open Single

section

variable {x y q r : Float32} {v w : ℚ} {n : ℤ}

/-! ### Rounding and holding large numbers -/

/-- A number is what is nearest to it. -/
theorem shows_nearest (hx : Shows x v) (h : Nearest v w) : w = v := by
  obtain ⟨k, e, -, hfits, rfl⟩ := hx
  exact h.eq_of_room (by rw [Int.abs_eq_natAbs]; exact_mod_cast hfits.room) hfits.least

theorem nearest_zero (h : Nearest 0 w) : w = 0 := by
  rw [← Int.cast_zero] at h
  exact_mod_cast h.eq_int (by norm_num)

theorem shows_sub_zero (hx : Shows x v) (hy : Shows y 0) (hv : |v| < 2 ^ 127) : Shows (x - y) v := by
  obtain ⟨z, hz, hnear⟩ := hx.sub hy (by rwa [sub_zero])
  rw [sub_zero] at hnear
  rwa [shows_nearest hx hnear] at hz

theorem shows_sub_same (hx : Shows x v) (hy : Shows y v) : Shows (x - y) 0 := by
  obtain ⟨z, hz, hnear⟩ := hx.sub hy (by rw [sub_self]; norm_num)
  rw [sub_self] at hnear
  rwa [nearest_zero hnear] at hz

/-- From `2 ^ 23` on every number is left as it is. -/
theorem round_of_large (hx : Shows x v) (hv : 2 ^ 23 ≤ |v|) : Single.round x = x := by
  have hlarge : ¬ x.abs < 8388608 := by
    rw [hx.abs.lt_iff shows_wholeLimit]
    exact not_lt.2 hv
  rw [Single.round]
  simp only [if_neg hlarge]

/-- No number is rounded farther than one half. -/
theorem exists_shows_round (hx : Shows x v) : ∃ u, Shows (Single.round x) u ∧ |u - v| ≤ 1 / 2 := by
  obtain hv | hv := lt_or_ge |v| (2 ^ 23)
  · obtain ⟨n, hn, hnear⟩ := hx.exists_round hv
    exact ⟨n, hn, hnear⟩
  · rw [round_of_large hx hv]
    exact ⟨v, hx, by norm_num⟩

theorem shows_clamp {low high : Float32} {a b : ℚ} (hx : Shows x v) (hlow : Shows low a)
    (hhigh : Shows high b) (hab : a ≤ b) : Shows (clamp x low high) (max a (min b v)) := by
  rw [clamp]
  split
  · rename_i hless
    rw [hx.lt_iff hlow] at hless
    rwa [max_eq_left (min_le_of_right_le hless.le)]
  · rename_i hlow'
    rw [hx.lt_iff hlow, not_lt] at hlow'
    split
    · rename_i hmore
      rw [hhigh.lt_iff hx] at hmore
      rwa [min_eq_left hmore.le, max_eq_right hab]
    · rename_i hhigh'
      rw [hhigh.lt_iff hx, not_lt] at hhigh'
      rwa [min_eq_right hhigh', max_eq_right hlow']

theorem toInt_word (hx : Shows x n) (hn : |n| < 2 ^ 31) : (cubeRound.word x).toInt = n := by
  obtain ⟨hlow, hhigh⟩ := abs_lt.1 hn
  rw [cubeRound.word, hx.truncate (hn.trans (by norm_num)), Words.toInt_ofIntClamp_eq]
  omega

theorem toInt_word_limit (hx : Shows x (2 ^ 29)) : (cubeRound.word x).toInt = 2 ^ 29 :=
  toInt_word (by exact_mod_cast hx) (by norm_num)

theorem toInt_word_low_limit (hx : Shows x (-2 ^ 29)) : (cubeRound.word x).toInt = -2 ^ 29 :=
  toInt_word (by exact_mod_cast hx) (by norm_num)

/-- Dropping the fraction does not lead past a positive integer. -/
theorem toInt_word_lt (hx : Shows x v) (hfar : |v| < 2 ^ 64) (hpos : 0 < n) (hv : v < n) :
    (cubeRound.word x).toInt < n := by
  have htruncate : truncate x < n := by
    rw [truncate]
    split
    · omega
    · rename_i hneg
      rw [hx.lt_iff shows_zero, not_lt] at hneg
      rw [hx.toUInt64 hneg ((le_abs_self v).trans_lt hfar)]
      exact Int.floor_lt.2 hv
  rw [cubeRound.word, Words.toInt_ofIntClamp_eq]
  omega

/-! ### Cells of large components -/

/-- What rounding changes is not less than nothing. -/
theorem exists_shows_change (hx : Shows x v) : ∃ u, Shows (Single.round x - x).abs u ∧ 0 ≤ u := by
  obtain ⟨u, hu, hnear⟩ := exists_shows_round hx
  obtain ⟨z, hz, -⟩ := hu.sub hx (hnear.trans_lt (by norm_num))
  exact ⟨|z|, hz.abs, abs_nonneg z⟩

theorem shows_change_of_large (hx : Shows x v) (hv : 2 ^ 23 ≤ |v|) :
    Shows (Single.round x - x).abs 0 := by
  rw [round_of_large hx hv]
  simpa using (shows_sub_same hx hx).abs

/-- The third component is off by one rounding, which is `64` or less at this magnitude. -/
theorem exists_shows_third (hq : Shows q v) (hr : Shows r w) (hv : |v| ≤ 2 ^ 29)
    (hw : |w| ≤ 2 ^ 29) : ∃ z, Shows (-q - r) z ∧ |z - (-v - w)| ≤ 65 := by
  have hsum : |-v - w| ≤ 2 ^ 30 := by
    have htriangle := abs_sub (-v) w
    rw [abs_neg] at htriangle
    linarith
  obtain ⟨z, hz, hnear⟩ := hq.neg.sub hr (hsum.trans_lt (by norm_num))
  refine ⟨z, hz, hnear.abs_sub_le.trans ?_⟩
  norm_num at hsum ⊢
  linarith

/-- A large first component is not given up. -/
theorem cubeRound_of_large_column (hq : Shows q v) (hr : Shows r w) (hlarge : 2 ^ 23 ≤ |v|) :
    cubeRound q r = ⟨cubeRound.word q, cubeRound.word (Single.round r)⟩ ∨
      cubeRound q r = ⟨cubeRound.word q, cubeRound.word (-q - Single.round (-q - r))⟩ := by
  obtain ⟨u, hu, hnonneg⟩ := exists_shows_change hr
  have hkept : ¬ (Single.round r - r).abs < (Single.round q - q).abs := by
    rw [hu.lt_iff (shows_change_of_large hq hlarge)]
    exact not_lt.2 hnonneg
  simp only [cubeRound]
  rw [if_neg (fun h => hkept h.1), round_of_large hq hlarge]
  split
  · exact .inr rfl
  · exact .inl rfl

/-- A large second component is not given up. -/
theorem cubeRound_of_large_row (hq : Shows q v) (hr : Shows r w) (hv : |v| ≤ 2 ^ 29)
    (hw : |w| ≤ 2 ^ 29) (hlarge : 2 ^ 23 ≤ |w|) : (cubeRound q r).r = cubeRound.word r := by
  obtain ⟨z, hz, -⟩ := exists_shows_third hq hr hv hw
  obtain ⟨u, hu, hnonneg⟩ := exists_shows_change hz
  have hkept : ¬ (Single.round (-q - r) - (-q - r)).abs < (Single.round r - r).abs := by
    rw [hu.lt_iff (shows_change_of_large hr hlarge)]
    exact not_lt.2 hnonneg
  simp only [cubeRound]
  rw [if_neg hkept, round_of_large hr hlarge]
  split <;> rfl

theorem word_round_lt (hr : Shows r w) (hw : |w| ≤ 2 ^ 29) :
    (cubeRound.word (Single.round r)).toInt < 2 ^ 30 := by
  obtain ⟨u, hu, hnear⟩ := exists_shows_round hr
  obtain ⟨hlow, hhigh⟩ := abs_le.1 hw
  obtain ⟨hulow, huhigh⟩ := abs_le.1 hnear
  norm_num at hlow hhigh
  refine toInt_word_lt hu ?_ (by norm_num) ?_
  · rw [abs_lt]
    norm_num
    constructor <;> linarith
  · norm_num
    linarith

/-- The row that restores the sum is not much more than what the first component takes away from it. -/
theorem word_restored_lt (hq : Shows q (-2 ^ 29)) (hr : Shows r w) (hw : |w| ≤ 2 ^ 29) :
    (cubeRound.word (-q - Single.round (-q - r))).toInt < 2 ^ 30 := by
  obtain ⟨z, hz, hznear⟩ := exists_shows_third hq hr (by norm_num) hw
  obtain ⟨u, hu, hunear⟩ := exists_shows_round hz
  obtain ⟨hlow, hhigh⟩ := abs_le.1 hw
  obtain ⟨hzlow, hzhigh⟩ := abs_le.1 hznear
  obtain ⟨hulow, huhigh⟩ := abs_le.1 hunear
  norm_num at hlow hhigh hzlow hzhigh
  have hsum : |-(-2 ^ 29) - u| ≤ 2 ^ 29 + 66 := by
    rw [abs_le]
    norm_num
    constructor <;> linarith
  obtain ⟨k, hk, hknear⟩ := hq.neg.sub hu (hsum.trans_lt (by norm_num))
  have herror := hknear.abs_sub_le
  have hsmall : |k| < 2 ^ 30 := by
    have htriangle := abs_sub_abs_le_abs_sub k (-(-2 ^ 29) - u)
    norm_num at hsum herror htriangle ⊢
    linarith
  refine toInt_word_lt hk (hsmall.trans (by norm_num)) (by norm_num) ?_
  exact (le_abs_self k).trans_lt (by exact_mod_cast hsmall)

/-- With the first component at the lower limit the row is not high enough for a column of a board. -/
theorem cubeRound_of_low_column (hq : Shows q (-2 ^ 29)) (hr : Shows r w) (hw : |w| ≤ 2 ^ 29) :
    (cubeRound q r).q.toInt = -2 ^ 29 ∧ (cubeRound q r).r.toInt < 2 ^ 30 := by
  have hword := toInt_word_low_limit hq
  obtain hcell | hcell := cubeRound_of_large_column hq hr (by norm_num)
  · rw [hcell]
    exact ⟨hword, word_round_lt hr hw⟩
  · rw [hcell]
    exact ⟨hword, word_restored_lt hq hr hw⟩

/-! ### Components beyond the range of words -/

/-- In the range of words. What is not a number is in no range. -/
def InWords (x : Float32) : Prop := -2147483648 ≤ x ∧ x < 2147483648

instance (x : Float32) : Decidable (InWords x) := inferInstanceAs (Decidable (_ ∧ _))

theorem shows_wordLimit : Shows 2147483648 (2 ^ 31) :=
  shows_of_parts (k := 8388608) (e := 8) (by decide) (by norm_num)

theorem inWords_iff (hx : Shows x v) : InWords x ↔ -2 ^ 31 ≤ v ∧ v < 2 ^ 31 := by
  rw [InWords, shows_wordLimit.neg.le_iff hx, hx.lt_iff shows_wordLimit]

/-- A component as it is held within the limits. -/
def held (x : Float32) : Float32 := clamp x (-axialLimit) axialLimit

theorem shows_held (hx : Shows x v) : Shows (held x) (max (-2 ^ 29) (min (2 ^ 29) v)) :=
  shows_clamp hx shows_axialLimit.neg shows_axialLimit (by norm_num)

theorem exists_shows_held (hx : Shows x v) : ∃ a, Shows (held x) a ∧ |a| ≤ 2 ^ 29 := by
  refine ⟨_, shows_held hx, abs_le.2 ⟨le_max_left _ _, max_le (by norm_num) (min_le_left _ _)⟩⟩

theorem shows_held_of_not_inWords (hx : Shows x v) (hfar : ¬ InWords x) :
    Shows (held x) (2 ^ 29) ∨ Shows (held x) (-2 ^ 29) := by
  have hheld := shows_held hx
  rw [inWords_iff hx, not_and_or, not_le, not_lt] at hfar
  obtain hlow | hhigh := hfar
  · rw [min_eq_right (hlow.le.trans (by norm_num)), max_eq_left (hlow.le.trans (by norm_num))] at hheld
    exact .inr hheld
  · rw [min_eq_left (le_trans (by norm_num) hhigh), max_eq_right (by norm_num)] at hheld
    exact .inl hheld

end

section

variable {l : Layout} {p : Point} {x : Float32} {v z σ : ℚ}

/-- A point whose components are not both words. -/
def Far (l : Layout) (p : Point) : Prop :=
  ¬ (InWords (l.fractional p).1 ∧ InWords (l.fractional p).2)

instance (l : Layout) (p : Point) : Decidable (l.Far p) := inferInstanceAs (Decidable (¬ _))

theorem cellAt_of_isFinite (hq : (l.fractional p).1.isFinite = true)
    (hr : (l.fractional p).2.isFinite = true) :
    l.cellAt p = Coord.ofAxial (cubeRound (held (l.fractional p).1) (held (l.fractional p).2)) := by
  rw [cellAt]
  simp only [hq, hr, Bool.and_self, if_true]
  rfl

theorem isFinite_of_contains (hon : l.contains (l.cellAt p) = true) :
    (l.fractional p).1.isFinite = true ∧ (l.fractional p).2.isFinite = true := by
  rw [← Bool.and_eq_true]
  by_contra hinfinite
  have hoff : l.cellAt p = Coord.offGrid := if_neg hinfinite
  rw [hoff] at hon
  exact absurd (contains_iff.mp hon).1 (by decide)

/-- The only places of boards that a far point can come to are in the column of the limit or beyond it, or in
the row of the limit. -/
theorem Far.cellAt (hfar : l.Far p) (hon : l.contains (l.cellAt p) = true) :
    2 ^ 29 ≤ (l.cellAt p).x.toInt ∨ (l.cellAt p).y.toInt = 2 ^ 29 := by
  obtain ⟨hfq, hfr⟩ := isFinite_of_contains hon
  obtain ⟨hx, hy, -, -⟩ := contains_iff.mp hon
  rw [cellAt_of_isFinite hfq hfr] at hx hy ⊢
  obtain ⟨v, hq⟩ := exists_shows hfq
  obtain ⟨w, hr⟩ := exists_shows hfr
  obtain ⟨a, ha, hav⟩ := exists_shows_held hq
  obtain ⟨b, hb, hbw⟩ := exists_shows_held hr
  simp only [Coord.ofAxial, Words.toInt_ofIntClamp_eq] at hx hy ⊢
  obtain hfar | hfar := not_and_or.1 hfar
  · obtain hlimit | hlimit := shows_held_of_not_inWords hq hfar
    · -- a row of the board does not lower the column
      left
      have hcolumn := toInt_word_limit hlimit
      obtain hcell | hcell := cubeRound_of_large_column hlimit hb (by norm_num) <;>
        · rw [hcell] at hy ⊢
          simp only [hcolumn] at hy ⊢
          omega
    · -- half of the row does not make up for the column
      obtain ⟨hcolumn, hrow⟩ := cubeRound_of_low_column hlimit hb hbw
      omega
  · obtain hlimit | hlimit := shows_held_of_not_inWords hr hfar
    · right
      rw [cubeRound_of_large_row ha hlimit hav (by norm_num) (by norm_num)]
      exact toInt_word_limit hlimit
    · rw [cubeRound_of_large_row ha hlimit hav (by norm_num) (by norm_num),
        toInt_word_low_limit hlimit] at hy
      omega

/-- `2 ^ 94`, which leaves room for a point far enough to the right. -/
def roomySize : Float32 := Float32.ofBits 0x6e800000

theorem shows_roomySize : Shows roomySize (2 ^ 94) :=
  shows_of_parts (k := 8388608) (e := 71) (by decide) (by norm_num)

/-- In the first row, `2 ^ 32` sizes to the right. -/
def farRight (l : Layout) : Point := ⟨l.size * 4294967296, 0⟩

theorem usableSize_pos (hsize : Shows l.size σ) : 0 < σ := by
  have husable := l.size_usable
  rw [usableSize, Bool.and_eq_true, Bool.not_eq_true', decide_eq_false_iff_not,
    hsize.le_iff shows_zero, not_le] at husable
  exact husable.2

/-- Products with a power of two have room for all that was there. -/
theorem shows_farRight (hsize : Shows l.size σ) (hroomy : σ ≤ 2 ^ 94) :
    Shows (l.size * 4294967296) (σ * 2 ^ 32) ∧ 1 / 2 ^ 149 ≤ σ := by
  have hpos := usableSize_pos hsize
  have hfactor : Shows 4294967296 (2 ^ 32) :=
    shows_of_parts (k := 8388608) (e := 9) (by decide) (by norm_num)
  obtain ⟨P, hP, hnear⟩ := hsize.mul hfactor (by
    rw [abs_of_pos (by positivity)]
    norm_num at hroomy ⊢
    linarith)
  obtain ⟨k, e, -, hfits, hvalue⟩ := hsize
  have hscaled : σ * 2 ^ 32 = k * 2 ^ (e + 32) := by
    rw [hvalue, zpow_add₀ two_ne_zero, mul_assoc]
    norm_num
  rw [hscaled] at hnear ⊢
  rw [hnear.eq_of_room (by rw [Int.abs_eq_natAbs]; exact_mod_cast hfits.room)
    (by have := hfits.least; omega)] at hP
  refine ⟨hP, ?_⟩
  have hk : 0 < k := by
    rw [hvalue, mul_pos_iff_of_pos_right (two_zpow_pos e)] at hpos
    exact_mod_cast hpos
  have hone : (1 : ℚ) ≤ k := by exact_mod_cast hk
  have hleast : (2 : ℚ) ^ (-149 : ℤ) ≤ 2 ^ e := zpow_le_zpow_right₀ one_le_two hfits.least
  calc (1 / 2 ^ 149 : ℚ) = 1 * 2 ^ (-149 : ℤ) := by norm_num
    _ ≤ k * 2 ^ e := mul_le_mul hone hleast (two_zpow_pos _).le (by positivity)
    _ = σ := hvalue.symm

theorem farRight_column (hσ : Shows l.size σ) (hroomy : σ ≤ 2 ^ 94) :
    ∃ v, Shows (l.fractional l.farRight).1 v ∧ 2 ^ 31 ≤ v := by
  have hpos := usableSize_pos hσ
  obtain ⟨hP, hleast⟩ := shows_farRight hσ hroomy
  have hlength : |9686330 / 2 ^ 24 * (σ * 2 ^ 32)| = 9686330 / 2 ^ 24 * (σ * 2 ^ 32) :=
    abs_of_pos (by positivity)
  norm_num at hroomy hleast
  obtain ⟨A, hA, hAnear⟩ := shows_sqrtThree_third.mul hP (by
    rw [hlength]
    norm_num
    linarith)
  have herror := hAnear.abs_sub_le_of_normal (by
    rw [hlength]
    norm_num
    linarith)
  rw [hlength] at herror
  obtain ⟨hlow, hhigh⟩ := abs_le.1 herror
  norm_num at hlow hhigh
  have hthird : Shows ((0 : Float32) / 3) 0 :=
    shows_of_parts (k := 0) (e := -149) (by decide) (by norm_num)
  have hB := shows_sub_zero hA hthird (by
    rw [abs_lt]
    norm_num
    constructor <;> linarith)
  have hshare : 2 ^ 31 + 256 ≤ A / σ ∧ A / σ ≤ 2 ^ 32 := by
    rw [le_div_iff₀ hpos, div_le_iff₀ hpos]
    norm_num
    constructor <;> linarith
  norm_num at hshare
  obtain ⟨v, hv, hvnear⟩ := hB.div hσ hpos.ne' (by
    rw [abs_lt]
    norm_num
    constructor <;> linarith)
  have hverror := hvnear.abs_sub_le
  rw [abs_of_pos ((by norm_num : (0 : ℚ) < 2147483904).trans_le hshare.1)] at hverror
  obtain ⟨hvlow, -⟩ := abs_le.1 hverror
  refine ⟨v, hv, ?_⟩
  norm_num at hvlow ⊢
  linarith

theorem farRight_row (hσ : Shows l.size σ) : Shows (l.fractional l.farRight).2 0 := by
  have hrow : Shows ((2 : Float32) / 3 * 0) 0 :=
    shows_of_parts (k := 0) (e := -149) (by decide) (by norm_num)
  obtain ⟨u, hu, hnear⟩ := hrow.div hσ (usableSize_pos hσ).ne' (by rw [zero_div]; norm_num)
  rw [zero_div] at hnear
  rwa [nearest_zero hnear] at hu

/-- From the limit in the first row nothing is given up. -/
theorem cubeRound_limit {q r : Float32} (hq : Shows q (2 ^ 29)) (hr : Shows r 0) :
    (cubeRound q r).q.toInt = 2 ^ 29 ∧ (cubeRound q r).r.toInt = 0 := by
  have hcolumn := toInt_word_limit hq
  have hzero : ∀ {x : Float32}, Shows x 0 → (cubeRound.word x).toInt = 0 := fun hx =>
    toInt_word (n := 0) (by exact_mod_cast hx) (by norm_num)
  obtain hcell | hcell := cubeRound_of_large_column hq hr (by norm_num)
  · rw [hcell]
    have hround : Shows (Single.round r) (0 : ℤ) := hr.round (by norm_num) (by norm_num)
    exact ⟨hcolumn, hzero (by exact_mod_cast hround)⟩
  · rw [hcell]
    refine ⟨hcolumn, hzero ?_⟩
    have hthird := shows_sub_zero hq.neg hr (by norm_num)
    rw [round_of_large hthird (by norm_num)]
    exact shows_sub_same hq.neg hthird

/-- A board that reaches the column of the limit has a cell that a far point comes to. -/
theorem cellAt_farRight (hsize : l.size ≤ roomySize) :
    l.Far l.farRight ∧ (l.cellAt l.farRight).x.toInt = 2 ^ 29 ∧
      (l.cellAt l.farRight).y.toInt = 0 := by
  obtain ⟨σ, hσ⟩ := l.exists_shows_size
  obtain ⟨v, hq, hv⟩ := farRight_column hσ ((hσ.le_iff shows_roomySize).1 hsize)
  have hr := farRight_row hσ
  have hfar : ¬ InWords (l.fractional l.farRight).1 := by
    rw [inWords_iff hq]
    exact fun h => absurd h.2 (not_lt.2 hv)
  have hcolumn : Shows (held (l.fractional l.farRight).1) (2 ^ 29) := by
    have hheld := shows_held hq
    rwa [min_eq_left (le_trans (by norm_num) hv), max_eq_right (by norm_num)] at hheld
  have hrow : Shows (held (l.fractional l.farRight).2) 0 := by
    have hheld := shows_held hr
    rwa [min_eq_right (by norm_num), max_eq_right (by norm_num)] at hheld
  obtain ⟨hx, hy⟩ := cubeRound_limit hcolumn hrow
  refine ⟨fun h => hfar h.1, ?_⟩
  rw [cellAt_of_isFinite hq.isFinite hr.isFinite]
  simp only [Coord.ofAxial, Words.toInt_ofIntClamp_eq, hx, hy]
  exact ⟨by decide, trivial⟩

/-- Far points do not come to boards that end before the limit, and what they come to on longer ones is in
the column of the limit or beyond it, or in the row of the limit. On every board that reaches the column of
the limit, unless its tiles are too large for points that far, one of them does come to a cell. -/
theorem far_points (l : Layout) :
    (∀ p, l.Far p → l.contains (l.cellAt p) = true →
      2 ^ 29 ≤ (l.cellAt p).x.toInt ∨ (l.cellAt p).y.toInt = 2 ^ 29) ∧
    (l.width ≤ 2 ^ 29 → l.height ≤ 2 ^ 29 → ∀ p, l.Far p → l.contains (l.cellAt p) = false) ∧
    (2 ^ 29 < l.width → l.size ≤ roomySize →
      ∃ p, l.Far p ∧ l.contains (l.cellAt p) = true) := by
  refine ⟨fun p hfar hon => hfar.cellAt hon, fun hwidth hheight p hfar => ?_, fun hwide hsize => ?_⟩
  · by_contra hon
    rw [Bool.not_eq_false] at hon
    obtain ⟨-, -, hx, hy⟩ := contains_iff.mp hon
    have := hfar.cellAt hon
    omega
  · obtain ⟨hfar, hx, hy⟩ := l.cellAt_farRight hsize
    refine ⟨l.farRight, hfar, contains_iff.mpr ?_⟩
    have := l.height_bounds
    omega

/-- A row that ends with the column of the limit. -/
def limitRow : Layout :=
  ⟨536870913, 1, 1, by decide, longRow.height_usable, standard.size_usable⟩

theorem far_points_standard_and_limit :
    standard.contains (standard.cellAt ⟨1e12, -1e12⟩) = false ∧
      ∃ p, limitRow.Far p ∧ limitRow.contains (limitRow.cellAt p) = true :=
  ⟨(far_points standard).2.1 (by decide) (by decide) ⟨1e12, -1e12⟩ (by decide +kernel),
    (far_points limitRow).2.2 (by decide) (by decide +kernel)⟩

/-- The components of the point are about `(5773502464, 0)`. -/
theorem limitRow_far_selected :
    limitRow.Far ⟨1e10, 0⟩ ∧ limitRow.cellAt ⟨1e10, 0⟩ = ⟨536870912, 0⟩ ∧
      limitRow.contains (limitRow.cellAt ⟨1e10, 0⟩) = true := by
  decide +kernel

end

end Layout

end HexSkirmish
