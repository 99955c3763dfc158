import HexSkirmish.Proofs.Rounding

/-! Sums, differences, products and quotients of numbers that are kept: each is the exact result, rounded
to what is nearest. -/

namespace HexSkirmish

namespace Single

open Float.Model Float.Model.UnpackedFloat

/-- The sign as a factor. -/
def unit : Sign → ℚ
  | .negative => -1
  | .positive => 1

/-- A number in the form in which it is kept, and the fraction it stands for. -/
def Reads (f : UnpackedFloat) (v : ℚ) : Prop :=
  ∃ k e, parts f = some (k, e) ∧ Fits k.natAbs e ∧ v = k * 2 ^ e

/-- A result in the form in which it is kept, with a fraction that was rounded to it. -/
def Rounds (f : UnpackedFloat) (v : ℚ) : Prop :=
  ∃ k e, parts f = some (k, e) ∧ Fits k.natAbs e ∧ Nearest v (k * 2 ^ e) ∧ |v| < 2 ^ (e + 24)

section

variable {f g : UnpackedFloat} {s : Sign} {m : ℕ} {e : ℤ} {v w : ℚ}

@[simp]
theorem natAbs_apply (s : Sign) (m : ℕ) : (s.apply m).natAbs = m := by
  cases s
  · exact Int.natAbs_neg _
  · rfl

theorem cast_apply (s : Sign) (m : ℕ) : ((s.apply m : ℤ) : ℚ) = unit s * m := by
  cases s <;> simp [Sign.apply, unit]

theorem unit_mul (s t : Sign) : unit (s * t) = unit s * unit t := by
  cases s <;> cases t
  · exact ((neg_mul_neg (1 : ℚ) 1).trans (one_mul 1)).symm
  · exact (mul_one (-1 : ℚ)).symm
  · exact (one_mul (-1 : ℚ)).symm
  · exact (one_mul (1 : ℚ)).symm

theorem unit_neg (s : Sign) : unit (-s) = -unit s := by
  cases s
  · exact (neg_neg 1).symm
  · rfl

theorem abs_unit (s : Sign) : |unit s| = 1 := by
  cases s <;> simp [unit]

theorem unit_div (s t : Sign) : unit (s / t) = unit s / unit t := by
  cases s <;> cases t
  · exact (div_self (neg_ne_zero.2 one_ne_zero)).symm
  · exact (div_one (-1 : ℚ)).symm
  · exact (one_div_neg_one_eq_neg_one).symm
  · exact (div_one (1 : ℚ)).symm

theorem reads_zero (s : Sign) : Reads (.zero s) 0 :=
  ⟨0, -149, rfl, ⟨by norm_num, le_rfl, Or.inr rfl⟩, by simp⟩

/-- Only zeros and numbers with a mantissa are read. -/
theorem Reads.cases (h : Reads f v) :
    (∃ s, f = .zero s ∧ v = 0) ∨ ∃ s m e hm, f = .finite s m e hm ∧ Fits m e ∧
      v = unit s * (m * 2 ^ e) := by
  obtain ⟨k, t, hparts, hfits, rfl⟩ := h
  cases f with
  | infinity s => cases hparts
  | notANumber => cases hparts
  | zero s =>
    cases hparts
    exact Or.inl ⟨s, rfl, by simp⟩
  | finite s m e hm =>
    cases hparts
    rw [natAbs_apply] at hfits
    exact Or.inr ⟨s, m, t, hm, rfl, hfits, by rw [cast_apply, mul_assoc]⟩

theorem Reads.rounds (h : Reads f v) : Rounds f v := by
  obtain ⟨k, e, hparts, hfits, rfl⟩ := h
  exact ⟨k, e, hparts, hfits, Nearest.self hfits, hfits.abs_mul_lt⟩

theorem rounds_roundWithAccuracy (s : Sign) {accuracy : Accuracy}
    (hx : Describes (ExtendedMantissa.ofMantissaAndAccuracy m accuracy) w)
    (h : 2 ^ 23 ≤ m ∨ e ≤ -149) (hw : 0 ≤ w) :
    Rounds (roundWithAccuracy .binary32 s m e accuracy) (unit s * (w * 2 ^ e)) := by
  obtain ⟨n, t, hparts, hfits, hnear, hlt⟩ := roundWithAccuracy_fits s hx h
  refine ⟨s.apply n, t, hparts, by rwa [natAbs_apply], ?_, ?_⟩
  · rw [cast_apply]
    cases s
    · simpa [unit] using hnear.neg
    · simpa [unit] using hnear
  · have hpos : 0 ≤ w * 2 ^ e := mul_nonneg hw (two_zpow_pos e).le
    cases s <;> simpa [unit, abs_of_nonneg hpos, abs_of_nonneg hw] using hlt

theorem Fits.mul_full {n : ℕ} {d : ℤ} (h : Fits m e) (h' : Fits n d) (hm : 0 < m) (hn : 0 < n) :
    2 ^ 23 ≤ m * n ∨ e + d ≤ -149 := by
  obtain hlong | rfl := h.full
  · exact Or.inl (hlong.trans (Nat.le_mul_of_pos_right m hn))
  · obtain hlong | rfl := h'.full
    · exact Or.inl (hlong.trans (Nat.le_mul_of_pos_left n hm))
    · exact Or.inr (by norm_num)

theorem Reads.mul (hf : Reads f v) (hg : Reads g w) : Rounds (f.mul .binary32 g) (v * w) := by
  obtain ⟨s, rfl, rfl⟩ | ⟨s, m, e, hm, rfl, hfits, rfl⟩ := hf.cases
  · rw [zero_mul]
    obtain ⟨t, rfl, -⟩ | ⟨t, n, d, hn, rfl, -, -⟩ := hg.cases
    · exact (reads_zero _).rounds
    · exact (reads_zero _).rounds
  · obtain ⟨t, rfl, rfl⟩ | ⟨t, n, d, hn, rfl, hfits', rfl⟩ := hg.cases
    · rw [mul_zero]
      exact (reads_zero _).rounds
    · have hround := rounds_roundWithAccuracy (s * t) (describes_exact (m * n))
        (hfits.mul_full hfits' hm hn) (Nat.cast_nonneg _)
      have hvalue : (unit s * (m * 2 ^ e) * (unit t * (n * 2 ^ d)) : ℚ) =
          unit (s * t) * ((m * n : ℕ) * 2 ^ (e + d)) := by
        rw [unit_mul, zpow_add₀ two_ne_zero]
        push_cast
        ring
      rw [hvalue]
      exact hround

/-- The exponent at which the mantissas are divided. -/
def quotientPlace (m : ℕ) (e : ℤ) (n : ℕ) (d : ℤ) : ℤ :=
  min (e - d) (max ((m.log2 : ℤ) + 1 + e - (n.log2 + 1 + d) - 24) (-149))

theorem quotientPlace_le (m : ℕ) (e : ℤ) (n : ℕ) (d : ℤ) : quotientPlace m e n d ≤ e - d :=
  min_le_left _ _

theorem divCore_eq (m : ℕ) (e : ℤ) (n : ℕ) (d : ℤ) :
    divCore .binary32 m e n d =
      let shifted := m <<< (e - d - quotientPlace m e n d).toNat
      (shifted / n, quotientPlace m e n d, accuracyOfFraction (shifted % n) n) := rfl

/-- The quotient is taken at a low enough exponent to have all the bits there is room for. -/
theorem quotient_full {n : ℕ} {d : ℤ} (hm : 0 < m) (hn : 0 < n) :
    2 ^ 23 ≤ m <<< (e - d - quotientPlace m e n d).toNat / n ∨ quotientPlace m e n d ≤ -149 := by
  rw [or_iff_not_imp_right, not_le]
  intro hplace
  set shift := (e - d - quotientPlace m e n d).toNat with hshift
  have hbits : n.log2 + 1 + 23 ≤ m.log2 + shift := by
    unfold quotientPlace at hplace hshift
    omega
  rw [Nat.le_div_iff_mul_le hn, Nat.shiftLeft_eq]
  calc 2 ^ 23 * n ≤ 2 ^ 23 * 2 ^ (n.log2 + 1) := Nat.mul_le_mul_left _ Nat.lt_log2_self.le
    _ = 2 ^ (n.log2 + 1 + 23) := by rw [← pow_add, add_comm]
    _ ≤ 2 ^ (m.log2 + shift) := Nat.pow_le_pow_right two_pos hbits
    _ = 2 ^ m.log2 * 2 ^ shift := pow_add _ _ _
    _ ≤ m * 2 ^ shift := Nat.mul_le_mul_right _ (Nat.log2_self_le hm.ne')

/-- A mantissa moved to a lower exponent. -/
theorem cast_shiftLeft {t : ℤ} (h : t ≤ e) :
    ((m <<< (e - t).toNat : ℕ) : ℚ) * 2 ^ t = m * 2 ^ e := by
  obtain ⟨d, rfl⟩ := Int.le.dest h
  rw [add_sub_cancel_left, Int.toNat_natCast, Nat.shiftLeft_eq, zpow_add₀ two_ne_zero, zpow_natCast]
  push_cast
  ring

theorem Reads.div (hf : Reads f v) (hg : Reads g w) (hw : w ≠ 0) :
    Rounds (f.div .binary32 g) (v / w) := by
  obtain ⟨t, rfl, rfl⟩ | ⟨t, n, d, hn, rfl, hfits', rfl⟩ := hg.cases
  · exact (hw rfl).elim
  · obtain ⟨s, rfl, rfl⟩ | ⟨s, m, e, hm, rfl, hfits, rfl⟩ := hf.cases
    · rw [zero_div]
      exact (reads_zero _).rounds
    · have hround := rounds_roundWithAccuracy (s / t)
        (describes_quotient (m <<< (e - d - quotientPlace m e n d).toNat) hn)
        (quotient_full hm hn) (by positivity)
      have hshift := cast_shiftLeft (m := m) (quotientPlace_le m e n d)
      have hvalue : (unit s * (m * 2 ^ e) / (unit t * (n * 2 ^ d)) : ℚ) = unit (s / t) *
          ((m <<< (e - d - quotientPlace m e n d).toNat : ℕ) / n * 2 ^ quotientPlace m e n d) := by
        rw [div_mul_eq_mul_div, hshift, unit_div, zpow_sub₀ two_ne_zero, mul_div_mul_comm,
          mul_div_mul_comm (m : ℚ), mul_div_right_comm (m : ℚ)]
      rw [hvalue, UnpackedFloat.div, divCore_eq]
      exact hround

theorem Reads.neg (h : Reads f v) : Reads f.neg (-v) := by
  obtain ⟨s, rfl, rfl⟩ | ⟨s, m, e, hm, rfl, hfits, rfl⟩ := h.cases
  · rw [neg_zero]
    exact reads_zero _
  · refine ⟨(-s).apply m, e, rfl, by rwa [natAbs_apply], ?_⟩
    rw [cast_apply, unit_neg, mul_assoc, neg_mul]

theorem Reads.abs (h : Reads f v) : Reads f.abs |v| := by
  obtain ⟨s, rfl, rfl⟩ | ⟨s, m, e, hm, rfl, hfits, rfl⟩ := h.cases
  · rw [abs_zero]
    exact reads_zero _
  · refine ⟨m, e, rfl, hfits, ?_⟩
    rw [abs_mul, abs_unit, one_mul, abs_of_nonneg (by positivity)]
    rfl

theorem round_rounds (s : Sign) (hm : 0 < m) :
    Rounds (UnpackedFloat.round .binary32 s m e) (unit s * (m * 2 ^ e)) := by
  have hround : UnpackedFloat.round .binary32 s m e = roundWithAccuracy .binary32 s
      (m <<< (e - lastPlace m e).toNat) (e - (e - lastPlace m e).toNat) .exact := rfl
  rw [hround]
  obtain hle | hlt := le_or_gt e (lastPlace m e)
  · have hstay : (e - lastPlace m e).toNat = 0 := by omega
    rw [hstay, Nat.shiftLeft_zero, Nat.cast_zero, sub_zero]
    refine rounds_roundWithAccuracy s (describes_exact m) ?_ (Nat.cast_nonneg _)
    rw [or_iff_not_imp_right, not_le]
    intro he
    refine (Nat.le_log2 hm.ne').1 ?_
    unfold lastPlace at hle
    omega
  · rw [← cast_shiftLeft hlt.le, show e - ((e - lastPlace m e).toNat : ℤ) = lastPlace m e by omega]
    refine rounds_roundWithAccuracy s (describes_exact _) ?_ (Nat.cast_nonneg _)
    refine (lastPlace_eq_or (m := m) (e := e)).symm.imp (fun hplace => ?_) fun hplace => hplace.le
    have hbits : 23 = m.log2 + (e - lastPlace m e).toNat := by omega
    rw [Nat.shiftLeft_eq]
    calc 2 ^ 23 = 2 ^ m.log2 * 2 ^ (e - lastPlace m e).toNat := by rw [← pow_add, ← hbits]
      _ ≤ m * 2 ^ (e - lastPlace m e).toNat := Nat.mul_le_mul_right _ (Nat.log2_self_le hm.ne')

theorem normalize_rounds (k : ℤ) (s : Sign) :
    Rounds (UnpackedFloat.normalize .binary32 k e s) (k * 2 ^ e) := by
  unfold UnpackedFloat.normalize
  cases hk : compare k 0 with
  | lt =>
    have hneg := compare_lt_iff_lt.1 hk
    have hround := round_rounds (e := e) .negative (m := (-k).toNat) (by omega)
    have hcast : (((-k).toNat : ℕ) : ℚ) = -k := by
      exact_mod_cast Int.toNat_of_nonneg (by omega : 0 ≤ -k)
    rw [hcast] at hround
    simpa [unit] using hround
  | eq =>
    rw [compare_eq_iff_eq.1 hk, Int.cast_zero, zero_mul]
    exact (reads_zero _).rounds
  | gt =>
    have hpos := compare_gt_iff_gt.1 hk
    have hround := round_rounds (e := e) .positive (m := k.toNat) (by omega)
    have hcast : ((k.toNat : ℕ) : ℚ) = k := by
      exact_mod_cast Int.toNat_of_nonneg (by omega : 0 ≤ k)
    rw [hcast] at hround
    simpa [unit] using hround

theorem Reads.add (hf : Reads f v) (hg : Reads g w) : Rounds (f.add .binary32 g) (v + w) := by
  obtain ⟨s, rfl, rfl⟩ | ⟨s, m, e, hm, rfl, hfits, rfl⟩ := hf.cases
  · rw [zero_add]
    obtain ⟨t, rfl, rfl⟩ | ⟨t, n, d, hn, rfl, -, -⟩ := hg.cases
    · have hzero : ∃ z, UnpackedFloat.add .binary32 (.zero s) (.zero t) = .zero z := by
        cases s <;> cases t <;> exact ⟨_, rfl⟩
      obtain ⟨z, hz⟩ := hzero
      rw [hz]
      exact (reads_zero z).rounds
    · exact hg.rounds
  · obtain ⟨t, rfl, rfl⟩ | ⟨t, n, d, hn, rfl, hfits', rfl⟩ := hg.cases
    · rw [add_zero]
      exact hf.rounds
    · have hvalue : (unit s * (m * 2 ^ e) + unit t * (n * 2 ^ d) : ℚ) =
          (s.apply (m <<< (e - min e d).toNat : ℕ) + t.apply (n <<< (d - min e d).toNat : ℕ) : ℤ) *
            2 ^ min e d := by
        rw [Int.cast_add, cast_apply, cast_apply, add_mul, mul_assoc, mul_assoc,
          cast_shiftLeft (min_le_left e d), cast_shiftLeft (min_le_right e d)]
      rw [hvalue]
      exact normalize_rounds _ _

/-- A difference is a sum with the number of the other sign. -/
theorem sub_eq_add_opposite (f g : UnpackedFloat) :
    f.sub .binary32 g = f.add .binary32 g.neg := by
  cases f <;> cases g <;> try rfl
  case finite.finite s m e hm t n d hn =>
    have hneg : ∀ k : ℤ, (-t).apply k = -t.apply k := by
      cases t
      · exact fun k => (neg_neg k).symm
      · exact fun k => rfl
    simp only [UnpackedFloat.sub, UnpackedFloat.add, UnpackedFloat.neg, hneg]
    rfl

theorem Reads.sub (hf : Reads f v) (hg : Reads g w) : Rounds (f.sub .binary32 g) (v - w) := by
  rw [sub_eq_add_opposite, sub_eq_add_neg]
  exact hf.add hg.neg

/-- Numbers with different exponents are ordered as these are. -/
theorem Fits.lt_of_lt {n : ℕ} {d : ℤ} (h : Fits m e) (h' : Fits n d) (hlt : e < d) :
    (m * 2 ^ e : ℚ) < n * 2 ^ d := by
  have hfull : 2 ^ 23 ≤ n := h'.full.resolve_right (by have := h.least; omega)
  calc (m * 2 ^ e : ℚ) < 2 ^ 24 * 2 ^ e :=
        mul_lt_mul_of_pos_right (by exact_mod_cast h.room) (two_zpow_pos e)
    _ = 2 ^ 23 * 2 ^ (e + 1) := by
        rw [zpow_add_one₀ two_ne_zero]
        ring
    _ ≤ 2 ^ 23 * 2 ^ d :=
        mul_le_mul_of_nonneg_left (zpow_le_zpow_right₀ one_le_two (by omega)) (by norm_num)
    _ ≤ n * 2 ^ d := mul_le_mul_of_nonneg_right (by exact_mod_cast hfull) (two_zpow_pos d).le

theorem Fits.compare_eq {n : ℕ} {d : ℤ} (h : Fits m e) (h' : Fits n d) :
    (compare e d).then (compare m n) = compare (m * 2 ^ e : ℚ) (n * 2 ^ d) := by
  obtain hlt | rfl | hgt := lt_trichotomy e d
  · rw [compare_lt_iff_lt.2 hlt, compare_lt_iff_lt.2 (h.lt_of_lt h' hlt)]
    rfl
  · have hpos := two_zpow_pos e
    rw [compare_eq_iff_eq.2 rfl, Ordering.eq_then]
    obtain hlt | rfl | hgt := lt_trichotomy m n
    · rw [compare_lt_iff_lt.2 hlt, compare_lt_iff_lt.2]
      exact mul_lt_mul_of_pos_right (by exact_mod_cast hlt) hpos
    · rw [compare_eq_iff_eq.2 rfl, compare_eq_iff_eq.2 rfl]
    · rw [compare_gt_iff_gt.2 hgt, compare_gt_iff_gt.2]
      exact mul_lt_mul_of_pos_right (by exact_mod_cast hgt) hpos
  · rw [compare_gt_iff_gt.2 hgt, compare_gt_iff_gt.2 (h'.lt_of_lt h hgt)]
    rfl

theorem compare_neg_neg (a b : ℚ) : compare (-a) (-b) = (compare a b).swap := by
  obtain hlt | rfl | hgt := lt_trichotomy a b
  · rw [compare_lt_iff_lt.2 hlt, compare_gt_iff_gt.2 (neg_lt_neg hlt)]
    rfl
  · rw [compare_eq_iff_eq.2 rfl, compare_eq_iff_eq.2 rfl]
    rfl
  · rw [compare_gt_iff_gt.2 hgt, compare_lt_iff_lt.2 (neg_lt_neg hgt)]
    rfl

/-- Numbers that are kept are ordered as the fractions they stand for. -/
theorem Reads.compare_eq (hf : Reads f v) (hg : Reads g w) : f.compare g = some (compare v w) := by
  obtain ⟨s, rfl, rfl⟩ | ⟨s, m, e, hm, rfl, hfits, rfl⟩ := hf.cases
  · obtain ⟨t, rfl, rfl⟩ | ⟨t, n, d, hn, rfl, hfits', rfl⟩ := hg.cases
    · rw [compare_eq_iff_eq.2 rfl]
      rfl
    · have hpos : (0 : ℚ) < n * 2 ^ d := by positivity
      cases t
      · rw [unit, neg_one_mul, compare_gt_iff_gt.2 (neg_lt_zero.2 hpos)]
        rfl
      · rw [unit, one_mul, compare_lt_iff_lt.2 hpos]
        rfl
  · have hpos : (0 : ℚ) < m * 2 ^ e := by positivity
    obtain ⟨t, rfl, rfl⟩ | ⟨t, n, d, hn, rfl, hfits', rfl⟩ := hg.cases
    · cases s
      · rw [unit, neg_one_mul, compare_lt_iff_lt.2 (neg_lt_zero.2 hpos)]
        rfl
      · rw [unit, one_mul, compare_gt_iff_gt.2 hpos]
        rfl
    · have hpos' : (0 : ℚ) < n * 2 ^ d := by positivity
      cases s <;> cases t
      · rw [unit, neg_one_mul, neg_one_mul, compare_neg_neg, ← hfits.compare_eq hfits']
        rfl
      · rw [unit, unit, neg_one_mul, one_mul, compare_lt_iff_lt.2 (by linarith)]
        rfl
      · rw [unit, unit, neg_one_mul, one_mul, compare_gt_iff_gt.2 (by linarith)]
        rfl
      · rw [unit, one_mul, one_mul, ← hfits.compare_eq hfits']
        rfl

/-- As an integer, a number loses its fraction. -/
theorem Reads.toInt_eq_floor (hf : Reads f v) (hv : 0 ≤ v) (low high : ℤ) :
    f.toInt low high = ⌊v⌋ := by
  obtain ⟨s, rfl, rfl⟩ | ⟨s, m, e, hm, rfl, hfits, rfl⟩ := hf.cases
  · rw [Int.floor_zero]
    rfl
  · have hpos : (0 : ℚ) < m * 2 ^ e := by positivity
    cases s
    · rw [unit, neg_one_mul] at hv
      linarith
    · set place := e - (e - 0).toNat with hplace
      have hround : roundToInt .positive m e = ((ExtendedMantissa.ofMantissaAndAccuracy
          (m <<< (e - 0).toNat) .exact >>> (0 - place).toNat).mantissa : ℤ) := rfl
      have hcut := (describes_exact (m <<< (e - 0).toNat)).shiftRight (0 - place).toNat
      have hvalue := div_two_pow_mul_zpow (by omega : place ≤ 0) (m <<< (e - 0).toNat : ℕ)
      rw [show (e - 0).toNat = (e - place).toNat by omega, cast_shiftLeft (by omega), zpow_zero,
        mul_one, show (e - place).toNat = (e - 0).toNat by omega] at hvalue
      rw [hvalue] at hcut
      rw [unit, one_mul, eq_comm, Int.floor_eq_iff, UnpackedFloat.toInt, hround, Int.cast_natCast]
      exact ⟨hcut.le, hcut.lt⟩

end

end Single

end HexSkirmish
