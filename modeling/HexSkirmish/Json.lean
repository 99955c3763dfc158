/-! JSON values. A number without fraction and exponent that fits 64 bits is an integer, and every
other number is a double. Members of an object keep their order, and one name may occur twice. -/

namespace HexSkirmish

inductive Json where
  | null
  | bool (b : Bool)
  | int (n : Int)
  | real (x : Float)
  | string (s : String)
  | array (elements : List Json)
  | object (members : List (String × Json))
deriving Inhabited

namespace Json

/-- The value of the only member with a name. A name that is missing or repeated has none. -/
def only? (members : List (String × Json)) (name : String) : Option Json :=
  match members.filter (·.1 == name) with
  | [(_, v)] => some v
  | _ => none

/-- The value of the last member with a name, or null. -/
def get (j : Json) (name : String) : Json :=
  match j with
  | object members => ((members.reverse.find? (·.1 == name)).map Prod.snd).getD null
  | _ => null

/-- A natural number up to a limit. -/
def natUpTo? (limit : Nat) : Json → Option Nat
  | int n => if 0 ≤ n ∧ n ≤ limit then some n.toNat else none
  | _ => none

theorem natUpTo?_eq_some_iff {limit n : Nat} {j : Json} :
    j.natUpTo? limit = some n ↔ j = .int n ∧ n ≤ limit := by
  cases j with
  | int m =>
    simp only [natUpTo?, Option.ite_none_right_eq_some, Option.some.injEq, int.injEq]
    omega
  | _ => simp [natUpTo?]

/-- A 32-bit word. -/
def word? : Json → Option Int32
  | int n => if -2147483648 ≤ n ∧ n ≤ 2147483647 then some (Int32.ofInt n) else none
  | _ => none

theorem word?_eq_some_iff {w : Int32} {j : Json} : j.word? = some w ↔ j = .int w.toInt := by
  cases j with
  | int m =>
    simp only [word?, Option.ite_none_right_eq_some, Option.some.injEq, int.injEq]
    constructor
    · rintro ⟨h, rfl⟩
      rw [Int32.toInt_ofInt_of_le] <;> omega
    · rintro rfl
      exact ⟨⟨w.le_toInt, w.toInt_le⟩, Int32.ofInt_toInt w⟩
  | _ => simp [word?]

end Json

end HexSkirmish
