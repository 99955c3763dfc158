import Mathlib.Data.Nat.Basic

/-! Arithmetic on words that fails where the exact result has no place. Where it succeeds it gives what
the wrapping operation gives, and that is exact. Signed words have 32 bits and unsigned ones 64. -/

namespace HexSkirmish

/-- Whether a number is one of the signed words. -/
def IsWord (n : Int) : Prop := -2147483648 ≤ n ∧ n ≤ 2147483647

instance (n : Int) : Decidable (IsWord n) := inferInstanceAs (Decidable (_ ∧ _))

namespace Words

/-! ### Signed words -/

section

variable {a b : Int32}

def sub? (a b : Int32) : Option Int32 :=
  if IsWord (a.toInt - b.toInt) then some (a - b) else none

/-- The quotient without its fraction. -/
def div? (a b : Int32) : Option Int32 :=
  if b ≠ 0 ∧ IsWord (a.toInt.tdiv b.toInt) then some (a / b) else none

theorem bmod_of_isWord {n : Int} (h : IsWord n) : n.bmod 4294967296 = n := by
  obtain ⟨hlow, hhigh⟩ := h
  exact Int.bmod_eq_of_le (by omega) (by omega)

theorem exists_sub? (h : IsWord (a.toInt - b.toInt)) :
    ∃ c, sub? a b = some c ∧ c.toInt = a.toInt - b.toInt :=
  ⟨a - b, if_pos h, (Int32.toInt_sub a b).trans (bmod_of_isWord h)⟩

theorem exists_div? (hb : b ≠ 0) (h : IsWord (a.toInt.tdiv b.toInt)) :
    ∃ c, div? a b = some c ∧ c.toInt = a.toInt.tdiv b.toInt :=
  ⟨a / b, if_pos ⟨hb, h⟩, (Int32.toInt_div a b).trans (bmod_of_isWord h)⟩

theorem isWord_toInt (a : Int32) : IsWord a.toInt := by
  have := a.le_toInt
  have := a.toInt_lt
  constructor <;> omega

theorem toInt_and_one (a : Int32) : (a &&& 1).toInt = a.toInt % 2 := by
  have hbits : (a &&& 1).toBitVec = a.toBitVec &&& 1#32 := rfl
  rw [← Int32.toInt_toBitVec, ← Int32.toInt_toBitVec, hbits, BitVec.toInt_and, BitVec.toNat_ofNat]
  simp only [Nat.reducePow, Nat.reduceMod, Nat.and_one_is_mod]
  rw [BitVec.toInt_eq_toNat_cond]
  split <;> simp [Int.bmod] <;> omega

/-- The sum, held at the ends of the range. -/
def addHeld (a b : Int32) : Int32 := Int32.ofIntClamp (a.toInt + b.toInt)

/-- The difference, held at the ends of the range. -/
def subHeld (a b : Int32) : Int32 := Int32.ofIntClamp (a.toInt - b.toInt)

theorem toInt_ofIntClamp_eq (n : Int) :
    (Int32.ofIntClamp n).toInt = max (-2147483648) (min 2147483647 n) := by
  by_cases hlow : -2147483648 ≤ n
  · by_cases hhigh : n ≤ 2147483647
    · rw [Int32.toInt_ofIntClamp hlow hhigh]
      omega
    · have heq : Int32.ofIntClamp n = Int32.maxValue := (dif_pos hlow).trans (dif_neg hhigh)
      rw [heq, Int32.toInt_maxValue]
      omega
  · have heq : Int32.ofIntClamp n = Int32.minValue := dif_neg hlow
    rw [heq, Int32.toInt_minValue]
    omega

end

/-! ### Unsigned words -/

section

variable {a b : UInt64} {n : Int32}

def add? (a b : UInt64) : Option UInt64 :=
  if a.toNat + b.toNat < 18446744073709551616 then some (a + b) else none

def mul? (a b : UInt64) : Option UInt64 :=
  if a.toNat * b.toNat < 18446744073709551616 then some (a * b) else none

/-- The quotient and the remainder. -/
def split? (a b : UInt64) : Option (UInt64 × UInt64) :=
  if b = 0 then none else some (a / b, a % b)

/-- The signed word for a number, if there is one. -/
def narrow? (a : UInt64) : Option Int32 :=
  if a.toNat ≤ 2147483647 then some (Int32.ofNat a.toNat) else none

/-- The bits of a signed word with its sign repeated in front. -/
def widen (n : Int32) : UInt64 := n.toInt64.toUInt64

theorem exists_add? (h : a.toNat + b.toNat < 18446744073709551616) :
    ∃ c, add? a b = some c ∧ c.toNat = a.toNat + b.toNat :=
  ⟨a + b, if_pos h, by rw [UInt64.toNat_add, Nat.mod_eq_of_lt h]⟩

theorem exists_mul? (h : a.toNat * b.toNat < 18446744073709551616) :
    ∃ c, mul? a b = some c ∧ c.toNat = a.toNat * b.toNat :=
  ⟨a * b, if_pos h, by rw [UInt64.toNat_mul, Nat.mod_eq_of_lt h]⟩

theorem toNat_widen (h : 0 ≤ n.toInt) : (widen n).toNat = n.toInt.toNat := by
  have hle : (0 : Int64) ≤ n.toInt64 := Int64.le_iff_toInt_le.mpr (by simpa using h)
  rw [widen, Int64.toNat_toUInt64_of_le hle, ← Int64.toNat_toInt, Int32.toInt_toInt64]

theorem toNat_toUInt32 (h : 0 ≤ n.toInt) : n.toUInt32.toNat = n.toInt.toNat := by
  rw [Int32.toNat_toInt]
  exact Int32.toNat_toUInt32_of_le (Int32.le_iff_toInt_le.mpr h)

end

end Words

end HexSkirmish
