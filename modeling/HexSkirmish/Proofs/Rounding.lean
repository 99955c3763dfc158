import Mathlib

/-! How an exact result becomes a number that can be kept. The mantissa of an exact result is cut at the
last place there is room for, with a round bit and a sticky bit for what is cut off, and the bits decide
whether the next mantissa is nearer. What is kept is never farther from the exact result than half of the
last place, and is the exact result itself where there is room for it. -/

namespace HexSkirmish

namespace Single

open Float.Model Float.Model.UnpackedFloat

/-- What a mantissa with its round bit and its sticky bit says about a number: how many halves of a unit
are below it, and whether that is all of it. -/
def Describes (em : ExtendedMantissa) (x : ℚ) : Prop :=
  let low : ℚ := em.mantissa + if em.roundBit then 1 / 2 else 0
  if em.stickyBit then low < x ∧ x < low + 1 / 2 else x = low

section

variable {em : ExtendedMantissa} {x : ℚ}

theorem Describes.le (h : Describes em x) : (em.mantissa : ℚ) ≤ x := by
  obtain ⟨m, round, sticky⟩ := em
  cases round <;> cases sticky <;> simp [Describes] at h ⊢ <;> linarith

theorem Describes.lt (h : Describes em x) : x < em.mantissa + 1 := by
  obtain ⟨m, round, sticky⟩ := em
  cases round <;> cases sticky <;> simp [Describes] at h ⊢ <;> linarith

theorem Describes.abs_sub_le (h : Describes em x) : |(em.roundedMantissa : ℚ) - x| ≤ 1 / 2 := by
  obtain ⟨m, round, sticky⟩ := em
  have heven : m % 2 = 0 ∨ m % 2 = 1 := by omega
  rw [abs_le]
  cases round <;> cases sticky <;>
    simp only [Describes, ExtendedMantissa.roundedMantissa, ExtendedMantissa.accuracy,
      Accuracy.roundToNearestEven, Bool.false_eq_true, if_false, if_true] at h ⊢
  · constructor <;> linarith
  · constructor <;> linarith
  · obtain heven | heven := heven <;> rw [heven] <;> push_cast <;> constructor <;> linarith
  · push_cast
    constructor <;> linarith

theorem rounded_bounds :
    em.mantissa ≤ em.roundedMantissa ∧ em.roundedMantissa ≤ em.mantissa + 1 := by
  obtain ⟨m, round, sticky⟩ := em
  cases round <;> cases sticky <;>
    simp [ExtendedMantissa.roundedMantissa, ExtendedMantissa.accuracy, Accuracy.roundToNearestEven]
  omega

theorem Describes.shiftRightOne (h : Describes em x) : Describes em.shiftRightOne (x / 2) := by
  obtain ⟨m, round, sticky⟩ := em
  have hsplit : ((m % 2 : ℕ) : ℚ) + 2 * ((m / 2 : ℕ) : ℚ) = m := by
    exact_mod_cast Nat.mod_add_div m 2
  have hlast : m % 2 = 0 ∨ m % 2 = 1 := by omega
  obtain hlast | hlast := hlast <;> rw [hlast] at hsplit <;> push_cast at hsplit <;>
    cases round <;> cases sticky <;>
    simp [Describes, ExtendedMantissa.shiftRightOne, hlast] at h ⊢
  all_goals first | linarith | constructor <;> linarith

theorem Describes.shiftRight (h : Describes em x) (n : ℕ) : Describes (em >>> n) (x / 2 ^ n) := by
  change Describes (n.repeat ExtendedMantissa.shiftRightOne em) _
  induction n with
  | zero => simpa [Nat.repeat] using h
  | succ n ih =>
    rw [Nat.repeat, pow_succ, ← div_div]
    exact ih.shiftRightOne

end

theorem describes_exact (m : ℕ) :
    Describes (ExtendedMantissa.ofMantissaAndAccuracy m .exact) m := by
  simp [Describes, ExtendedMantissa.ofMantissaAndAccuracy]

/-- The remainder of a division decides both bits. -/
theorem describes_quotient (a : ℕ) {b : ℕ} (hb : 0 < b) :
    Describes (ExtendedMantissa.ofMantissaAndAccuracy (a / b) (accuracyOfFraction (a % b) b))
      ((a : ℚ) / b) := by
  have hpos : (0 : ℚ) < b := by exact_mod_cast hb
  have hsplit : (a : ℚ) / b = (a / b : ℕ) + (a % b : ℕ) / (b : ℚ) := by
    rw [div_eq_iff hpos.ne', add_mul, div_mul_cancel₀ _ hpos.ne']
    exact_mod_cast (Nat.div_add_mod' a b).symm
  have hlt : ((a % b : ℕ) : ℚ) / b < 1 := by
    rw [div_lt_one hpos]
    exact_mod_cast Nat.mod_lt a hb
  rw [hsplit, accuracyOfFraction]
  split
  case isTrue h => simp [h, Describes, ExtendedMantissa.ofMantissaAndAccuracy]
  case isFalse h =>
    have hrest : (0 : ℚ) < (a % b : ℕ) / (b : ℚ) :=
      div_pos (by exact_mod_cast Nat.pos_of_ne_zero h) hpos
    cases hc : compare (2 * (a % b)) b with
    | lt =>
      have hhalf : ((a % b : ℕ) : ℚ) / b < 1 / 2 := by
        rw [div_lt_div_iff₀ hpos two_pos]
        have := compare_lt_iff_lt.1 hc
        exact_mod_cast (by omega : a % b * 2 < 1 * b)
      simp only [Describes, ExtendedMantissa.ofMantissaAndAccuracy, Bool.false_eq_true, if_false,
        if_true]
      constructor <;> linarith
    | eq =>
      have hhalf : ((a % b : ℕ) : ℚ) / b = 1 / 2 := by
        rw [div_eq_div_iff hpos.ne' two_ne_zero]
        have := compare_eq_iff_eq.1 hc
        exact_mod_cast (by omega : a % b * 2 = 1 * b)
      simp [Describes, ExtendedMantissa.ofMantissaAndAccuracy, hhalf]
    | gt =>
      have hhalf : 1 / 2 < ((a % b : ℕ) : ℚ) / b := by
        rw [div_lt_div_iff₀ two_pos hpos]
        have := compare_gt_iff_gt.1 hc
        exact_mod_cast (by omega : 1 * b < a % b * 2)
      simp only [Describes, ExtendedMantissa.ofMantissaAndAccuracy, if_true]
      constructor <;> linarith

/-- A mantissa and an exponent as they are kept: as many bits as there is room for, unless the exponent
is the least one. -/
structure Fits (m : ℕ) (e : ℤ) : Prop where
  room : m < 2 ^ 24
  least : -149 ≤ e
  full : 2 ^ 23 ≤ m ∨ e = -149

/-- A multiple of a power of two that is not farther from a number than half of the power, where the
power is the least there is or the number is long against it. -/
def Nearest (x z : ℚ) : Prop :=
  ∃ t n : ℤ, z = n * 2 ^ t ∧ |z - x| ≤ 2 ^ t / 2 ∧
    (t = -149 ∨ -149 ≤ t ∧ 2 ^ (t + 23) ≤ |x|)

section

variable {x z : ℚ} {m : ℕ} {k e : ℤ}

theorem two_zpow_pos (e : ℤ) : (0 : ℚ) < 2 ^ e := zpow_pos two_pos e

theorem Fits.abs_lt (h : Fits k.natAbs e) : |(k : ℚ)| < 2 ^ 24 := by
  rw [← Int.cast_abs, Int.abs_eq_natAbs]
  exact_mod_cast h.room

theorem Fits.abs_mul_lt (h : Fits k.natAbs e) : |(k : ℚ) * 2 ^ e| < 2 ^ (e + 24) := by
  rw [abs_mul, abs_of_pos (two_zpow_pos e), zpow_add₀ two_ne_zero, mul_comm]
  exact mul_lt_mul_of_pos_left h.abs_lt (two_zpow_pos e)

theorem Fits.le_abs_mul (h : Fits k.natAbs e) :
    e = -149 ∨ -149 ≤ e ∧ 2 ^ (e + 23) ≤ |(k : ℚ) * 2 ^ e| := by
  refine h.full.symm.imp_right fun hfull => ⟨h.least, ?_⟩
  have hk : (2 : ℚ) ^ 23 ≤ |(k : ℚ)| := by
    rw [← Int.cast_abs, Int.abs_eq_natAbs]
    exact_mod_cast hfull
  rw [abs_mul, abs_of_pos (two_zpow_pos e), zpow_add₀ two_ne_zero, mul_comm]
  exact mul_le_mul_of_nonneg_right hk (two_zpow_pos e).le

theorem Nearest.neg (h : Nearest x z) : Nearest (-x) (-z) := by
  obtain ⟨t, n, rfl, hnear, ht⟩ := h
  refine ⟨t, -n, by push_cast; ring, ?_, by rwa [abs_neg]⟩
  rwa [neg_sub_neg, abs_sub_comm]

theorem Nearest.self (h : Fits k.natAbs e) : Nearest (k * 2 ^ e) (k * 2 ^ e) := by
  refine ⟨e, k, rfl, ?_, h.le_abs_mul⟩
  rw [sub_self, abs_zero]
  exact (half_pos (two_zpow_pos e)).le

/-- The error is a share of the number, or of the least power. -/
theorem Nearest.abs_sub_le (h : Nearest x z) : |z - x| ≤ |x| / 2 ^ 24 + 1 / 2 ^ 150 := by
  obtain ⟨t, n, -, hnear, rfl | ⟨-, ht⟩⟩ := h
  · have : (0 : ℚ) ≤ |x| / 2 ^ 24 := by positivity
    have hleast : (2 : ℚ) ^ (-149 : ℤ) / 2 = 1 / 2 ^ 150 := by norm_num
    linarith
  · rw [zpow_add₀ two_ne_zero] at ht
    norm_num at ht ⊢
    linarith

theorem Nearest.abs_sub_le_of_normal (h : Nearest x z) (hx : 1 / 2 ^ 126 ≤ |x|) :
    |z - x| ≤ |x| / 2 ^ 24 := by
  obtain ⟨t, n, -, hnear, rfl | ⟨-, ht⟩⟩ := h
  · norm_num at hx hnear ⊢
    linarith
  · rw [zpow_add₀ two_ne_zero] at ht
    norm_num at ht ⊢
    linarith

/-- A number that can be kept as it is is not rounded. -/
theorem Nearest.eq_of_room (h : Nearest (k * 2 ^ e) z) (hk : |k| < 2 ^ 24) (he : -149 ≤ e) :
    z = k * 2 ^ e := by
  obtain ⟨t, n, rfl, hnear, ht⟩ := h
  have hte : t ≤ e := by
    obtain rfl | ⟨-, ht⟩ := ht
    · exact he
    · have hlt : (2 : ℚ) ^ (t + 23) < 2 ^ (24 + e) := by
        refine ht.trans_lt ?_
        rw [abs_mul, abs_of_pos (two_zpow_pos e), zpow_add₀ two_ne_zero 24 e]
        refine mul_lt_mul_of_pos_right ?_ (two_zpow_pos e)
        exact_mod_cast hk
      have := (zpow_lt_zpow_iff_right₀ one_lt_two).1 hlt
      omega
  obtain ⟨d, rfl⟩ := Int.le.dest hte
  -- both numbers are multiples of the same power
  have hmul : (k : ℚ) * 2 ^ (t + (d : ℤ)) = ((k * 2 ^ d : ℤ) : ℚ) * 2 ^ t := by
    rw [zpow_add₀ two_ne_zero, zpow_natCast]
    push_cast
    ring
  rw [hmul] at hnear ⊢
  rw [← sub_mul, abs_mul, abs_of_pos (two_zpow_pos t), ← mul_comm (2 ^ t), div_eq_mul_inv,
    mul_le_mul_iff_right₀ (two_zpow_pos t)] at hnear
  have hlt : |n - k * 2 ^ d| < 1 := by
    have : |((n - k * 2 ^ d : ℤ) : ℚ)| < 1 := by
      push_cast at hnear ⊢
      linarith
    exact_mod_cast this
  rw [sub_eq_zero.1 (Int.abs_lt_one_iff.1 hlt)]

theorem Nearest.eq_int (h : Nearest k z) (hk : |k| < 2 ^ 24) : z = k := by
  rw [← mul_one (k : ℚ), ← zpow_zero (2 : ℚ)] at h
  rw [h.eq_of_room hk (by norm_num), zpow_zero, mul_one]

end

/-- The signed mantissa and the exponent of a number. What is not a finite number has none. -/
def parts : UnpackedFloat → Option (ℤ × ℤ)
  | .zero _ => some (0, -149)
  | .finite s m e _ => some (s.apply m, e)
  | _ => none

/-- The exponent at which the last bit with room is kept. -/
def lastPlace (m : ℕ) (e : ℤ) : ℤ := max (m.log2 + 1 + e - 24) (-149)

section

variable {m : ℕ} {e t : ℤ} {accuracy : Accuracy} {x : ℚ}

theorem shiftToTargetExponent_eq (m : ℕ) (e : ℤ) (accuracy : Accuracy) :
    shiftToTargetExponent .binary32 m e accuracy =
      (ExtendedMantissa.ofMantissaAndAccuracy m accuracy >>> (lastPlace m e - e).toNat,
        e + (lastPlace m e - e).toNat) := rfl

theorem le_lastPlace (h : 2 ^ 23 ≤ m ∨ e ≤ -149) : e ≤ lastPlace m e := by
  obtain h | h := h
  · have : 23 ≤ m.log2 := (Nat.le_log2 (by omega)).2 h
    unfold lastPlace
    omega
  · exact h.trans (le_max_right _ _)

theorem least_le_lastPlace (m : ℕ) (e : ℤ) : -149 ≤ lastPlace m e := le_max_right _ _

theorem lastPlace_eq_or :
    lastPlace m e = -149 ∨ -149 ≤ lastPlace m e ∧ lastPlace m e + 23 = m.log2 + e := by
  unfold lastPlace
  omega

/-- A number described at one exponent, seen from a greater one. -/
theorem div_two_pow_mul_zpow (h : e ≤ t) (x : ℚ) : x / 2 ^ (t - e).toNat * 2 ^ t = x * 2 ^ e := by
  obtain ⟨d, rfl⟩ := Int.le.dest h
  rw [add_sub_cancel_left, Int.toNat_natCast, zpow_add₀ two_ne_zero, zpow_natCast]
  field_simp

theorem lt_two_zpow_lastPlace (hx : x < m + 1) : x * 2 ^ e < 2 ^ (lastPlace m e + 24) := by
  have hm : ((m : ℚ) + 1) ≤ 2 ^ (m.log2 + 1) := by
    exact_mod_cast Nat.lt_log2_self
  calc x * 2 ^ e < 2 ^ (m.log2 + 1) * 2 ^ e :=
        mul_lt_mul_of_pos_right (hx.trans_le hm) (two_zpow_pos e)
    _ = 2 ^ ((m.log2 : ℤ) + 1 + e) := by
        rw [zpow_add₀ two_ne_zero, ← zpow_natCast]
        push_cast
        rfl
    _ ≤ 2 ^ (lastPlace m e + 24) := by
        refine zpow_le_zpow_right₀ one_le_two ?_
        unfold lastPlace
        omega

theorem two_zpow_lastPlace_le (h : 2 ^ 23 ≤ m ∨ e ≤ -149) (hx : (m : ℚ) ≤ x) :
    lastPlace m e = -149 ∨ -149 ≤ lastPlace m e ∧ 2 ^ (lastPlace m e + 23) ≤ x * 2 ^ e := by
  by_cases hm : m = 0
  · have hlog : Nat.log2 0 = 0 := by decide
    left
    subst hm
    unfold lastPlace
    omega
  · refine lastPlace_eq_or.imp_right fun hplace => ⟨hplace.1, ?_⟩
    rw [hplace.2, zpow_add₀ two_ne_zero, zpow_natCast]
    refine mul_le_mul_of_nonneg_right (le_trans ?_ hx) (two_zpow_pos e).le
    exact_mod_cast Nat.log2_self_le hm

/-- What is cut at its last place and rounded has all the bits there is room for, or one more. -/
theorem Describes.rounded_long {em : ExtendedMantissa} {v : ℚ} (hcut : Describes em x)
    (hvalue : x * 2 ^ t = v) (htop : v < 2 ^ (t + 24))
    (hlong : t = -149 ∨ -149 ≤ t ∧ 2 ^ (t + 23) ≤ v) :
    em.roundedMantissa ≤ 2 ^ 24 ∧ (2 ^ 23 ≤ em.roundedMantissa ∨ t = -149) ∧
      Nearest v (em.roundedMantissa * 2 ^ t) := by
  have hpos := two_zpow_pos t
  refine ⟨?_, ?_, t, em.roundedMantissa, by push_cast; rfl, ?_, ?_⟩
  · have hx : x < 2 ^ 24 := by
      rwa [← hvalue, zpow_add₀ two_ne_zero, mul_comm, mul_lt_mul_iff_right₀ hpos] at htop
    have hm : em.mantissa < 2 ^ 24 := by exact_mod_cast hcut.le.trans_lt hx
    exact rounded_bounds.2.trans hm
  · refine hlong.symm.imp_left fun hle => ?_
    have hx : 2 ^ 23 ≤ x := by
      have := hle.2
      rwa [← hvalue, zpow_add₀ two_ne_zero, mul_comm, mul_le_mul_iff_left₀ hpos] at this
    have hm : 2 ^ 23 < em.mantissa + 1 := by exact_mod_cast hx.trans_lt hcut.lt
    exact (Nat.lt_succ_iff.1 hm).trans rounded_bounds.1
  · rw [← hvalue, ← sub_mul, abs_mul, abs_of_pos hpos]
    have := mul_le_mul_of_nonneg_right hcut.abs_sub_le hpos.le
    linarith
  · exact hlong.imp_right fun hle => ⟨hle.1, hle.2.trans (le_abs_self v)⟩

/-- A rounded mantissa that became too long is halved; any other fits. -/
theorem shift_rounded (hm : m ≤ 2 ^ 24) (he : -149 ≤ e) (hfull : 2 ^ 23 ≤ m ∨ e = -149) :
    ∃ (n : ℕ) (t : ℤ), (shiftToTargetExponent .binary32 m e .exact).1.mantissa = n ∧
      (shiftToTargetExponent .binary32 m e .exact).2 = t ∧ Fits n t ∧
        (n * 2 ^ t : ℚ) = m * 2 ^ e ∧ e ≤ t := by
  rw [shiftToTargetExponent_eq]
  obtain rfl | hlt := hm.eq_or_lt
  · have hlog : (2 ^ 24 : ℕ).log2 = 24 := Nat.log2_two_pow
    have hplace : (lastPlace (2 ^ 24) e - e).toNat = 1 := by
      rw [lastPlace, hlog]
      omega
    rw [hplace]
    refine ⟨2 ^ 23, e + 1, rfl, rfl, ⟨by norm_num, by omega, Or.inl le_rfl⟩, ?_, by omega⟩
    rw [zpow_add_one₀ two_ne_zero]
    push_cast
    ring
  · have hlog : m.log2 < 24 := by
      obtain rfl | hpos := Nat.eq_zero_or_pos m
      · decide
      · exact (Nat.log2_lt hpos.ne').2 hlt
    have hplace : (lastPlace m e - e).toNat = 0 := by
      unfold lastPlace
      omega
    rw [hplace]
    exact ⟨m, e, rfl, add_zero _, ⟨hlt, he, hfull⟩, rfl, le_rfl⟩

theorem parts_of_fits (s : Sign) (h : Fits m e) :
    parts (if hm : m = 0 then .zero s else .finite s m e (Nat.pos_of_ne_zero hm)) =
      some (s.apply m, e) := by
  split
  case isTrue hm =>
    subst hm
    have he : e = -149 := h.full.resolve_left (by norm_num)
    cases s <;> rw [he] <;> rfl
  case isFalse hm => rfl

theorem roundWithAccuracy_eq (s : Sign) {em : ExtendedMantissa}
    (h : shiftToTargetExponent .binary32 m e accuracy = (em, t)) :
    roundWithAccuracy .binary32 s m e accuracy =
      let (final, place) := shiftToTargetExponent .binary32 em.roundedMantissa t .exact
      if hm : final.mantissa = 0 then .zero s
      else .finite s final.mantissa place (Nat.pos_of_ne_zero hm) := by
  rw [roundWithAccuracy, h]

/-- Rounding keeps what is nearest: the mantissa is shifted to the last place there is room for,
rounded, and shifted once more if rounding made it too long. -/
theorem roundWithAccuracy_fits (s : Sign)
    (hx : Describes (ExtendedMantissa.ofMantissaAndAccuracy m accuracy) x)
    (h : 2 ^ 23 ≤ m ∨ e ≤ -149) :
    ∃ (n : ℕ) (t : ℤ), parts (roundWithAccuracy .binary32 s m e accuracy) = some (s.apply n, t) ∧
      Fits n t ∧ Nearest (x * 2 ^ e) (n * 2 ^ t) ∧ x * 2 ^ e < 2 ^ (t + 24) := by
  have hplace : e ≤ lastPlace m e := le_lastPlace h
  have hmantissa : (ExtendedMantissa.ofMantissaAndAccuracy m accuracy).mantissa = m := by
    obtain - | o := accuracy
    · rfl
    · cases o <;> rfl
  have hlow := hx.le
  have hhigh := hx.lt
  rw [hmantissa] at hlow hhigh
  have hfirst := shiftToTargetExponent_eq m e accuracy
  rw [show e + ((lastPlace m e - e).toNat : ℤ) = lastPlace m e by omega] at hfirst
  have htop := lt_two_zpow_lastPlace (e := e) hhigh
  obtain ⟨hmost, hfull, hnear⟩ := (hx.shiftRight (lastPlace m e - e).toNat).rounded_long
    (div_two_pow_mul_zpow hplace x) htop (two_zpow_lastPlace_le h hlow)
  obtain ⟨n, t, hn, ht, hfits, hvalue, hle⟩ := shift_rounded hmost (least_le_lastPlace m e) hfull
  refine ⟨n, t, ?_, hfits, ?_, ?_⟩
  · have hround : roundWithAccuracy .binary32 s m e accuracy =
        if hm : n = 0 then .zero s else .finite s n t (Nat.pos_of_ne_zero hm) := by
      rw [roundWithAccuracy_eq s hfirst]
      subst hn ht
      rfl
    rw [hround, parts_of_fits s hfits]
  · rwa [hvalue]
  · exact htop.trans_le (zpow_le_zpow_right₀ one_le_two (by omega))

end

end Single

end HexSkirmish
