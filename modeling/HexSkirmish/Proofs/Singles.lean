import HexSkirmish.Proofs.Arithmetic
import HexSkirmish.Single

/-! Single-precision numbers and the fractions they stand for. A number is packed into 32 bits, and what
is unpacked again is the number that was packed, as long as its exponent is not too great. With that the
operations, the comparisons and the roundings to an integer are read as what they do to fractions. -/

namespace HexSkirmish

namespace Single

open Float.Model Float.Model.UnpackedFloat

section

variable {f : UnpackedFloat} {s : Sign} {m : ℕ} {e : ℤ} {v w z : ℚ} {x y : Float32}

/-- A normal number keeps its first bit in its exponent. -/
theorem toNat_append_one (mantissa : BitVec 23) :
    (1#1 ++ mantissa).toNat = 2 ^ 23 + mantissa.toNat := by
  rw [BitVec.toNat_append, ← Nat.shiftLeft_add_eq_or_of_lt mantissa.isLt]
  rfl

theorem parts_unpack (b : BitVec Format.binary32.numBits) :
    parts (UnpackedFloat.unpack .binary32 b) =
      if unpackExponent b = 255#8 then none
      else if unpackExponent b = 0#8 then
        some ((Sign.ofBitVec (unpackSign b)).apply (unpackMantissa b).toNat, (-149 : ℤ))
      else
        some ((Sign.ofBitVec (unpackSign b)).apply (2 ^ 23 + (unpackMantissa b).toNat : ℕ),
          ((unpackExponent b).toNat : ℤ) - 150) := by
  have hall : (-1#8 : BitVec 8) = 255#8 := by decide
  unfold UnpackedFloat.unpack
  simp only [hall]
  split
  case isTrue => split <;> rfl
  case isFalse =>
    split
    case isTrue hzero =>
      split
      case isTrue hm =>
        rw [hm]
        cases Sign.ofBitVec (unpackSign b) <;> rfl
      case isFalse hm =>
        rw [hzero]
        rfl
    case isFalse =>
      rw [parts, toNat_append_one]
      rfl

theorem pack_normal {hm : 0 < m} (h : Fits m e) (he : e ≤ 104) (hfull : 2 ^ 23 ≤ m) :
    UnpackedFloat.pack .binary32 (.finite s m e hm) =
      packComponents .binary32 s (BitVec.ofNat 8 (e + 150).toNat) (BitVec.ofNat 23 m) := by
  have hlow : 23 ≤ m.log2 := (Nat.le_log2 hm.ne').2 hfull
  have hhigh : m.log2 < 24 := (Nat.log2_lt hm.ne').2 h.room
  have hbits : m.log2 + 1 = Format.binary32.mantissaBits := by
    change m.log2 + 1 = 24
    omega
  have hplace : e + (127 : ℕ) + (23 : ℕ) = e + 150 := by omega
  have hsmall : ¬2 ^ Format.binary32.exponentBits ≤ (e + (127 : ℕ) + (23 : ℕ)).toNat + 1 := by
    change ¬256 ≤ _
    omega
  rw [← hplace]
  exact (if_neg hsmall).trans (if_pos hbits)

theorem pack_subnormal {hm : 0 < m} (hshort : m < 2 ^ 23) :
    UnpackedFloat.pack .binary32 (.finite s m (-149) hm) =
      packComponents .binary32 s 0 (BitVec.ofNat 23 m) := by
  have hbits : ¬m.log2 + 1 = Format.binary32.mantissaBits := by
    have hhigh : m.log2 < 23 := (Nat.log2_lt hm.ne').2 hshort
    change ¬m.log2 + 1 = 24
    omega
  have hsmall : ¬2 ^ Format.binary32.exponentBits ≤ ((-149 : ℤ) + Format.binary32.exponentBias +
      Format.binary32.mantissaBitsWithoutImplicit).toNat + 1 := by decide
  rw [UnpackedFloat.pack, if_neg hsmall, if_neg hbits]
  rfl

/-- What is packed is unpacked again. -/
theorem parts_unpack_pack {k : ℤ} (hparts : parts f = some (k, e)) (h : Fits k.natAbs e)
    (he : e ≤ 104) :
    parts (UnpackedFloat.unpack .binary32 (UnpackedFloat.pack .binary32 f)) = some (k, e) := by
  cases f with
  | infinity s => cases hparts
  | notANumber => cases hparts
  | zero s =>
    cases hparts
    cases s <;> decide
  | finite s m e hm =>
    cases hparts
    rw [natAbs_apply] at h
    have hleast := h.least
    have hroom := h.room
    by_cases hfull : 2 ^ 23 ≤ m
    · have hexponent : (BitVec.ofNat 8 (e + 150).toNat).toNat = (e + 150).toNat := by
        rw [BitVec.toNat_ofNat, Nat.mod_eq_of_lt (by omega)]
      have hmantissa : 2 ^ 23 + (BitVec.ofNat 23 m).toNat = m := by
        rw [BitVec.toNat_ofNat]
        omega
      rw [pack_normal h he hfull, parts_unpack, unpackExponent_packComponents,
        unpackMantissa_packComponents, unpackSign_packComponents, Sign.ofBitVec_toBitVec, hmantissa,
        if_neg, if_neg, hexponent]
      · rw [Int.toNat_of_nonneg (by omega), add_sub_cancel_right]
      · intro hzero
        have := congrArg BitVec.toNat hzero
        rw [hexponent, BitVec.toNat_ofNat] at this
        omega
      · intro hall
        have := congrArg BitVec.toNat hall
        rw [hexponent, BitVec.toNat_ofNat] at this
        omega
    · obtain rfl := h.full.resolve_left hfull
      have hmantissa : (BitVec.ofNat 23 m).toNat = m := by
        rw [BitVec.toNat_ofNat]
        omega
      rw [pack_subnormal (by omega), parts_unpack, unpackExponent_packComponents,
        unpackMantissa_packComponents, unpackSign_packComponents, Sign.ofBitVec_toBitVec, hmantissa]
      rfl

/-- What is unpacked is in the form in which numbers are kept. -/
theorem fits_of_unpack {b : BitVec Format.binary32.numBits} {k : ℤ}
    (h : parts (UnpackedFloat.unpack .binary32 b) = some (k, e)) : Fits k.natAbs e ∧ e ≤ 104 := by
  have hbiased := (unpackExponent b).isLt
  change _ < 256 at hbiased
  have hlt := (unpackMantissa b).isLt
  change _ < 2 ^ 23 at hlt
  rw [parts_unpack] at h
  split at h
  case isTrue => cases h
  case isFalse hall =>
    split at h
    case isTrue =>
      cases h
      rw [natAbs_apply]
      exact ⟨⟨by omega, le_rfl, Or.inr rfl⟩, by norm_num⟩
    case isFalse hzero =>
      cases h
      rw [natAbs_apply]
      have hpos : (unpackExponent b).toNat ≠ 0 := fun h => hzero (BitVec.eq_of_toNat_eq h)
      have hfinite : (unpackExponent b).toNat ≠ 255 := fun h => hall (BitVec.eq_of_toNat_eq h)
      exact ⟨⟨by omega, by omega, Or.inl (Nat.le_add_right _ _)⟩, by omega⟩

theorem isFinite_iff : f.isFinite = true ↔ ∃ p, parts f = some p := by
  cases f <;> simp [UnpackedFloat.isFinite, parts]

/-- A number whose exponent is too great is packed as an infinite one. -/
theorem not_isFinite_of_lt {k : ℤ} (hparts : parts f = some (k, e)) (he : 104 < e) :
    (UnpackedFloat.unpack .binary32 (UnpackedFloat.pack .binary32 f)).isFinite = false := by
  cases f with
  | infinity s => cases hparts
  | notANumber => cases hparts
  | zero s =>
    cases hparts
    omega
  | finite s m e hm =>
    cases hparts
    have hgreat : 2 ^ Format.binary32.exponentBits ≤ (e + (127 : ℕ) + (23 : ℕ)).toNat + 1 := by
      change 256 ≤ _
      omega
    have hpack : UnpackedFloat.pack .binary32 (.finite s m e hm) = packedInfinity .binary32 s :=
      if_pos hgreat
    rw [hpack]
    cases s <;> decide

theorem not_isFinite_pack (h : f.isFinite = false) :
    (UnpackedFloat.unpack .binary32 (UnpackedFloat.pack .binary32 f)).isFinite = false := by
  cases f with
  | infinity s => cases s <;> decide
  | notANumber => decide
  | zero s => cases h
  | finite s m e hm => cases h

/-- What is not finite does not become finite in a product or by a division. -/
theorem not_isFinite_mul (h : (x.isFinite && y.isFinite) = false) : (x * y).isFinite = false := by
  refine not_isFinite_pack ?_
  change (x.toModel.unpack.isFinite && y.toModel.unpack.isFinite) = false at h
  cases hx : x.toModel.unpack <;> cases hy : y.toModel.unpack <;> rw [hx, hy] at h <;>
    first | (cases h; done) | rfl

theorem not_isFinite_div (h : x.isFinite = false) (y : Float32) : (x / y).isFinite = false := by
  refine not_isFinite_pack ?_
  change x.toModel.unpack.isFinite = false at h
  cases hx : x.toModel.unpack <;> cases y.toModel.unpack <;> rw [hx] at h <;>
    first | (cases h; done) | rfl

/-- A finite number and the fraction it stands for. -/
def Shows (x : Float32) (v : ℚ) : Prop := Reads x.toModel.unpack v

theorem shows_of_parts {k : ℤ} (h : parts x.toModel.unpack = some (k, e)) (hv : v = k * 2 ^ e) :
    Shows x v :=
  ⟨k, e, h, (fits_of_unpack h).1, hv⟩

theorem exists_shows (h : x.isFinite = true) : ∃ v, Shows x v := by
  obtain ⟨⟨k, e⟩, hparts⟩ := isFinite_iff.1 h
  exact ⟨_, shows_of_parts hparts rfl⟩

theorem Shows.isFinite (h : Shows x v) : x.isFinite = true := by
  obtain ⟨k, e, hparts, -⟩ := h
  exact isFinite_iff.2 ⟨_, hparts⟩

theorem Shows.abs_lt_two_pow (h : Shows x v) : |v| < 2 ^ 128 := by
  obtain ⟨k, e, hparts, hfits, rfl⟩ := h
  have he := (fits_of_unpack hparts).2
  have hle : (2 : ℚ) ^ (e + 24) ≤ 2 ^ (128 : ℤ) := zpow_le_zpow_right₀ one_le_two (by omega)
  exact_mod_cast hfits.abs_mul_lt.trans_le hle

theorem Reads.shows (h : Reads f v) (hv : |v| < 2 ^ 128) : Shows (.ofModel (.pack f)) v := by
  obtain ⟨k, e, hparts, hfits, rfl⟩ := h
  have he : e ≤ 104 := by
    obtain rfl | ⟨-, hle⟩ := hfits.le_abs_mul
    · norm_num
    · have hlt : (2 : ℚ) ^ (e + 23) < 2 ^ (128 : ℤ) := by exact_mod_cast hle.trans_lt hv
      have := (zpow_lt_zpow_iff_right₀ one_lt_two).1 hlt
      omega
  exact ⟨k, e, parts_unpack_pack hparts hfits he, hfits, rfl⟩

/-- An exact result that is not too great is packed as what is nearest to it. -/
theorem Rounds.shows (h : Rounds f v) (hv : |v| < 2 ^ 127) :
    ∃ z, Shows (.ofModel (.pack f)) z ∧ Nearest v z := by
  obtain ⟨k, e, hparts, hfits, hnear, -⟩ := h
  have hz : |(k : ℚ) * 2 ^ e| < 2 ^ 128 := by
    have herror := hnear.abs_sub_le
    have hadd := abs_sub_abs_le_abs_sub ((k : ℚ) * 2 ^ e) v
    have hle : |(k : ℚ) * 2 ^ e| ≤ |v| + (|v| / 2 ^ 24 + 1 / 2 ^ 150) := by linarith
    refine hle.trans_lt ?_
    norm_num at hv ⊢
    linarith
  exact ⟨_, Reads.shows ⟨k, e, hparts, hfits, rfl⟩ hz, hnear⟩

theorem Rounds.not_isFinite (h : Rounds f v) (hv : 2 ^ 128 ≤ |v|) :
    (Float32.ofModel (.pack f)).isFinite = false := by
  obtain ⟨k, e, hparts, hfits, -, hlt⟩ := h
  have hgreat : (2 : ℚ) ^ (128 : ℤ) < 2 ^ (e + 24) := by
    refine lt_of_le_of_lt ?_ hlt
    exact_mod_cast hv
  have := (zpow_lt_zpow_iff_right₀ one_lt_two).1 hgreat
  exact not_isFinite_of_lt hparts (by omega)

/-- An integer with room is packed as it is. -/
theorem Rounds.shows_int {k : ℤ} (h : Rounds f k) (hk : |k| < 2 ^ 24) :
    Shows (.ofModel (.pack f)) k := by
  have hsmall : |(k : ℚ)| < 2 ^ 127 := by
    have : |(k : ℚ)| < 2 ^ 24 := by exact_mod_cast hk
    refine this.trans (by norm_num)
  obtain ⟨z, hz, hnear⟩ := h.shows hsmall
  rwa [hnear.eq_int hk] at hz

theorem Shows.add (hx : Shows x v) (hy : Shows y w) (h : |v + w| < 2 ^ 127) :
    ∃ z, Shows (x + y) z ∧ Nearest (v + w) z :=
  (Reads.add hx hy).shows h

theorem Shows.sub (hx : Shows x v) (hy : Shows y w) (h : |v - w| < 2 ^ 127) :
    ∃ z, Shows (x - y) z ∧ Nearest (v - w) z :=
  (Reads.sub hx hy).shows h

theorem Shows.mul (hx : Shows x v) (hy : Shows y w) (h : |v * w| < 2 ^ 127) :
    ∃ z, Shows (x * y) z ∧ Nearest (v * w) z :=
  (Reads.mul hx hy).shows h

theorem Shows.div (hx : Shows x v) (hy : Shows y w) (hw : w ≠ 0) (h : |v / w| < 2 ^ 127) :
    ∃ z, Shows (x / y) z ∧ Nearest (v / w) z :=
  (Reads.div hx hy hw).shows h

theorem Shows.neg (hx : Shows x v) : Shows (-x) (-v) :=
  (Reads.neg hx).shows (by rw [abs_neg]; exact hx.abs_lt_two_pow)

theorem Shows.abs (hx : Shows x v) : Shows x.abs |v| :=
  (Reads.abs hx).shows (by rw [abs_abs]; exact hx.abs_lt_two_pow)

theorem Shows.lt_iff (hx : Shows x v) (hy : Shows y w) : x < y ↔ v < w := by
  change decide (x.toModel < y.toModel) = true ↔ _
  rw [decide_eq_true_iff]
  change (x.toModel.unpack.compare y.toModel.unpack == some .lt) = true ↔ _
  rw [Reads.compare_eq hx hy, beq_iff_eq, Option.some_inj, compare_lt_iff_lt]

theorem Shows.le_iff (hx : Shows x v) (hy : Shows y w) : x ≤ y ↔ v ≤ w := by
  change decide (x.toModel ≤ y.toModel) = true ↔ _
  rw [decide_eq_true_iff]
  change (x.toModel.unpack.compare y.toModel.unpack).any (·.isLE) = true ↔ _
  rw [Reads.compare_eq hx hy, Option.any_some, Ordering.isLE_iff_ne_gt, ← compare_le_iff_le]

theorem Shows.toUInt64 (hx : Shows x v) (hv : 0 ≤ v) (hlt : v < 2 ^ 64) :
    (x.toUInt64.toNat : ℤ) = ⌊v⌋ := by
  have hfloor := Reads.toInt_eq_floor hx hv 0 (UInt64.size - 1)
  have hnonneg : 0 ≤ ⌊v⌋ := Int.floor_nonneg.2 hv
  have hfits : ⌊v⌋ < 2 ^ 64 := Int.floor_lt.2 (by exact_mod_cast hlt)
  change ((UInt64.ofNatClamp (x.toModel.unpack.toInt 0 (UInt64.size - 1)).toNat).toNat : ℤ) = _
  rw [hfloor, UInt64.toNat_ofNatClamp_of_lt, Int.toNat_of_nonneg hnonneg]
  change _ < 2 ^ 64
  omega

theorem shows_toFloat32 {n : ℕ} (h : n < 2 ^ 24) : Shows n.toUInt64.toFloat32 (n : ℤ) := by
  have hword : n.toUInt64.toNat = n := UInt64.toNat_ofNat_of_lt (by change n < 2 ^ 64; omega)
  have hround := normalize_rounds (e := 0) (n.toUInt64.toNat : ℤ) .positive
  rw [zpow_zero, mul_one] at hround
  have hshows : Shows n.toUInt64.toFloat32 (n.toUInt64.toNat : ℤ) :=
    hround.shows_int (by rw [hword, Nat.abs_cast]; exact_mod_cast h)
  rwa [hword] at hshows

/-- A natural number becomes a product with a power of ten, which is one. -/
theorem shows_ofNat {n : ℕ} (h : n < 2 ^ 24) : Shows (Float32.ofNat n) n := by
  have hint : |(n : ℤ)| < 2 ^ 24 := by
    rw [Nat.abs_cast]
    exact_mod_cast h
  have hsmall : |((n : ℤ) : ℚ)| < 2 ^ 127 := by
    have : |((n : ℤ) : ℚ)| < 2 ^ 24 := by exact_mod_cast hint
    exact this.trans (by norm_num)
  rw [← Int.cast_natCast]
  change Shows (Float32.ofScientific n false 0) _
  rw [Float32.ofScientific]
  split
  case isTrue =>
    have hone : Shows (Float32.ofBits 0x3F800000) 1 :=
      shows_of_parts (k := 8388608) (e := -23) (by decide) (by norm_num)
    obtain ⟨z, hz, hnear⟩ := (shows_toFloat32 h).mul hone (by rwa [mul_one])
    rw [mul_one] at hnear
    rw [hnear.eq_int hint] at hz
    exact hz
  case isFalse hlarge =>
    have hpos : n ≠ 0 := by
      rintro rfl
      exact hlarge ⟨by norm_num, by norm_num⟩
    have hround := rounds_roundWithAccuracy .positive (describes_exact (n <<< 24 * 1))
      (e := -24 + 0) (Or.inl ?_) (Nat.cast_nonneg _)
    · have hvalue :
          unit .positive * ((n <<< 24 * 1 : ℕ) * 2 ^ (-24 + 0 : ℤ)) = ((n : ℤ) : ℚ) := by
        rw [unit, one_mul, mul_one, Nat.shiftLeft_eq, Nat.cast_mul, mul_assoc]
        norm_num
      rw [hvalue] at hround
      have hunpacked : UnpackedFloat.ofScientific .binary32 n 0 =
          roundWithAccuracy .binary32 .positive (n <<< 24 * 1) (-24 + 0) .exact := by
        rw [UnpackedFloat.ofScientific, dif_neg hpos, if_neg (by decide), if_neg, if_pos le_rfl]
        · rfl
        · have : (0 : ℤ) ≤ 2 ^ Format.binary32.exponentBits := by decide
          omega
      rw [← hunpacked] at hround
      exact hround.shows_int hint
    · rw [Nat.shiftLeft_eq]
      omega

theorem shows_ofInt {n : ℤ} (h : |n| < 2 ^ 24) : Shows (Float32.ofInt n) n := by
  rw [Int.abs_eq_natAbs] at h
  cases n with
  | ofNat n => exact shows_ofNat (by exact_mod_cast h)
  | negSucc n =>
    have hneg := (shows_ofNat (n := n + 1) (by exact_mod_cast h)).neg
    rw [Int.cast_negSucc]
    exact hneg

theorem shows_zero : Shows 0 0 := by
  exact_mod_cast shows_ofNat (n := 0) (by norm_num)

theorem shows_half : Shows 0.5 (1 / 2) :=
  shows_of_parts (k := 8388608) (e := -24) (by decide) (by norm_num)

theorem Shows.clamp {low high : Float32} {a b : ℚ} (hx : Shows x v) (hlow : Shows low a)
    (hhigh : Shows high b) (ha : a ≤ v) (hb : v ≤ b) : Single.clamp x low high = x := by
  rw [Single.clamp, if_neg (by rw [hx.lt_iff hlow]; exact not_lt.2 ha),
    if_neg (by rw [hhigh.lt_iff hx]; exact not_lt.2 hb)]

theorem Shows.truncate {n : ℤ} (hx : Shows x n) (hn : |n| < 2 ^ 64) : Single.truncate x = n := by
  have hlt := abs_lt.1 hn
  rw [Single.truncate]
  split
  case isTrue hneg =>
    have hneg : n < 0 := by exact_mod_cast (hx.lt_iff shows_zero).1 hneg
    have hfloor := hx.neg.toUInt64 (by exact_mod_cast (by omega : 0 ≤ -n))
      (by exact_mod_cast (by omega : -n < 2 ^ 64))
    rw [hfloor, ← Int.cast_neg, Int.floor_intCast, neg_neg]
  case isFalse hpos =>
    have hpos : 0 ≤ n := by exact_mod_cast not_lt.1 (mt (hx.lt_iff shows_zero).2 hpos)
    have hfloor := hx.toUInt64 (by exact_mod_cast hpos) (by exact_mod_cast hlt.2)
    rw [hfloor, Int.floor_intCast]

/-- The fraction of a number has room wherever the number has. -/
theorem Shows.fract_room (hx : Shows x v) (hv : 0 ≤ v) :
    ∃ k e : ℤ, v - ⌊v⌋ = k * 2 ^ e ∧ |k| < 2 ^ 24 ∧ -149 ≤ e := by
  obtain ⟨k, e, -, hfits, hvalue⟩ := hx
  have hpos := two_zpow_pos e
  have hk : 0 ≤ k := by
    rw [hvalue] at hv
    exact_mod_cast nonneg_of_mul_nonneg_left hv hpos
  have hfract : 0 ≤ v - ⌊v⌋ := sub_nonneg.2 (Int.floor_le v)
  obtain he | he := le_or_gt 0 e
  · obtain ⟨d, rfl⟩ := Int.eq_ofNat_of_zero_le he
    refine ⟨0, 0, ?_, by norm_num, by norm_num⟩
    have hint : v = (k * 2 ^ d : ℤ) := by
      rw [hvalue, zpow_natCast]
      push_cast
      rfl
    rw [hint, Int.floor_intCast, sub_self, Int.cast_zero, zero_mul]
  · obtain ⟨d, hd⟩ := Int.eq_ofNat_of_zero_le (by omega : 0 ≤ -e)
    have hone : (2 : ℚ) ^ d * 2 ^ e = 1 := by
      rw [← zpow_natCast, ← hd, ← zpow_add₀ two_ne_zero, neg_add_cancel, zpow_zero]
    have hscaled : v - ⌊v⌋ = (k - ⌊v⌋ * 2 ^ d : ℤ) * 2 ^ e := by
      push_cast
      rw [sub_mul, mul_assoc, hone, mul_one, ← hvalue]
    refine ⟨_, e, hscaled, ?_, hfits.least⟩
    have hlow : 0 ≤ k - ⌊v⌋ * 2 ^ d := by
      rw [hscaled] at hfract
      exact_mod_cast nonneg_of_mul_nonneg_left hfract hpos
    have hcut : 0 ≤ ⌊v⌋ * 2 ^ d := mul_nonneg (Int.floor_nonneg.2 hv) (by positivity)
    have hroom := hfits.room
    rw [abs_of_nonneg hlow]
    omega

/-- Rounding works on the magnitude: it takes the whole part, or one more if the fraction reaches one
half. -/
theorem Shows.roundSize (hx : Shows x v) (hv : 0 ≤ v) (hlt : v < 2 ^ 23) :
    let whole := Float32.ofNat x.toUInt64.toNat
    Shows (if 0.5 ≤ x - whole then whole + 1 else whole) ⌊v + 1 / 2⌋ := by
  intro whole
  have hfloor := hx.toUInt64 hv (hlt.trans (by norm_num))
  have hnat : x.toUInt64.toNat < 2 ^ 23 := by
    have : ⌊v⌋ < 2 ^ 23 := Int.floor_lt.2 (by exact_mod_cast hlt)
    omega
  have hwhole : Shows whole ⌊v⌋ := by
    rw [← hfloor]
    exact_mod_cast shows_ofNat (by omega : x.toUInt64.toNat < 2 ^ 24)
  have hlow := Int.floor_le v
  have hhigh := Int.lt_floor_add_one v
  have hfract : Shows (x - whole) (v - ⌊v⌋) := by
    obtain ⟨k, e, hvalue, hk, he⟩ := hx.fract_room hv
    have hsmall : |v - ⌊v⌋| < 2 ^ 127 := by
      rw [abs_of_nonneg (by linarith)]
      exact (by linarith : v - ⌊v⌋ < 1).trans (by norm_num)
    obtain ⟨z, hz, hnear⟩ := hx.sub hwhole hsmall
    rw [hvalue] at hnear ⊢
    rwa [hnear.eq_of_room hk he] at hz
  split
  case isTrue hhalf =>
    rw [shows_half.le_iff hfract] at hhalf
    have hone : Shows 1 1 := by exact_mod_cast shows_ofNat (n := 1) (by norm_num)
    have hroom : |⌊v⌋ + 1| < 2 ^ 24 := by
      rw [abs_of_nonneg (by omega)]
      omega
    have hsmall : |(⌊v⌋ : ℚ) + 1| < 2 ^ 127 := by
      have : |(⌊v⌋ : ℚ) + 1| < 2 ^ 24 := by exact_mod_cast hroom
      exact this.trans (by norm_num)
    obtain ⟨z, hz, hnear⟩ := hwhole.add hone hsmall
    have hup : ⌊v + 1 / 2⌋ = ⌊v⌋ + 1 := by
      rw [Int.floor_eq_iff]
      push_cast
      constructor <;> linarith
    rw [show (⌊v⌋ : ℚ) + 1 = (⌊v⌋ + 1 : ℤ) by push_cast; rfl] at hnear
    rwa [hnear.eq_int hroom, ← hup] at hz
  case isFalse hhalf =>
    rw [shows_half.le_iff hfract] at hhalf
    have hdown : ⌊v + 1 / 2⌋ = ⌊v⌋ := by
      rw [Int.floor_eq_iff]
      constructor <;> linarith
    rwa [hdown]

theorem shows_wholeLimit : Shows 8388608 (2 ^ 23) := by
  have hlimit := shows_ofNat (n := 8388608) (by norm_num)
  norm_num at hlimit ⊢
  exact hlimit

/-- A number that may have a fraction is rounded to an integer that is no farther away than one half. -/
theorem Shows.exists_round (hx : Shows x v) (hv : |v| < 2 ^ 23) :
    ∃ n : ℤ, Shows (Single.round x) n ∧ |n - v| ≤ 1 / 2 := by
  have hbelow : x.abs < 8388608 := (hx.abs.lt_iff shows_wholeLimit).2 hv
  have hsize := hx.abs.roundSize (abs_nonneg v) hv
  have hlow := Int.floor_le (|v| + 1 / 2)
  have hhigh := Int.lt_floor_add_one (|v| + 1 / 2)
  rw [Single.round]
  simp only [if_pos hbelow]
  split
  case isTrue hneg =>
    rw [hx.lt_iff shows_zero] at hneg
    rw [abs_of_neg hneg] at hlow hhigh hsize
    refine ⟨-⌊-v + 1 / 2⌋, by rw [Int.cast_neg]; exact hsize.neg, ?_⟩
    rw [Int.cast_neg, abs_le]
    constructor <;> linarith
  case isFalse hpos =>
    rw [hx.lt_iff shows_zero, not_lt] at hpos
    rw [abs_of_nonneg hpos] at hlow hhigh hsize
    refine ⟨_, hsize, ?_⟩
    rw [abs_le]
    constructor <;> linarith

/-- A number that is nearer than one half to an integer is rounded to it. -/
theorem Shows.round {n : ℤ} (hx : Shows x v) (hv : |v| < 2 ^ 23) (hn : |v - n| < 1 / 2) :
    Shows (Single.round x) n := by
  obtain ⟨m, hm, hnear⟩ := hx.exists_round hv
  have hclose : |((m - n : ℤ) : ℚ)| < 1 := by
    have htriangle := abs_sub_le (m : ℚ) v n
    push_cast
    linarith
  have hsame : m - n = 0 := Int.abs_lt_one_iff.1 (by exact_mod_cast hclose)
  rwa [← sub_eq_zero.1 hsame]

end

end Single

end HexSkirmish
