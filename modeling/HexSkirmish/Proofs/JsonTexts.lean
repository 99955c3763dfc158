import HexSkirmish.Json.Reader
import HexSkirmish.Json.Writer
import Mathlib.Data.List.Basic
import Mathlib.Tactic.IntervalCases

/-! JSON texts and the values that they write. A value without doubles is read again from its text,
whatever its strings hold, if its integers have no more than 64 bits and it is not nested too deep. -/

namespace HexSkirmish.Json

open Decimal

variable {c : Char} {rest : List Char} {n d fuel : Nat}

/-- What can follow a value inside a text. -/
def Stops (rest : List Char) : Prop := ∀ c ∈ rest.head?, c = ',' ∨ c = ']' ∨ c = '}'

/-! ### Numbers -/

theorem isDigit_iff : isDigit c = true ↔ c.isDigit = true := by
  simp only [isDigit, Char.isDigit, Bool.and_eq_true, decide_eq_true_eq]
  exact Iff.rfl

theorem digitValue_of_isDigit (h : isDigit c = true) : digitValue c = c.toNat - '0'.toNat := if_pos h

theorem valueIn_of_digits {cs : List Char} (h : ∀ c ∈ cs, isDigit c = true) (n : Nat) :
    cs.foldl (fun n c => n * 10 + digitValue c) n = Nat.ofDigitChars 10 cs n := by
  induction cs generalizing n with
  | nil => rfl
  | cons c cs ih =>
    obtain ⟨hc, hcs⟩ := List.forall_mem_cons.mp h
    rw [List.foldl_cons, ih hcs, digitValue_of_isDigit hc, Nat.ofDigitChars_cons, Nat.mul_comm]

theorem isDigit_of_mem_toDigits (h : c ∈ Nat.toDigits 10 n) : isDigit c = true :=
  isDigit_iff.mpr (Nat.isDigit_of_mem_toDigits (by decide) (by decide) h)

theorem valueIn_toDigits (n : Nat) : valueIn 10 (Nat.toDigits 10 n) = n :=
  (valueIn_of_digits (fun _ => isDigit_of_mem_toDigits) 0).trans Nat.ofDigitChars_ten_toDigits

/-- Numerals have no leading zeros. -/
theorem head?_toDigits (n : Nat) (h : n ≠ 0) : (Nat.toDigits 10 n).head? ≠ some '0' := by
  induction n using Nat.strongRecOn with
  | ind n ih =>
    by_cases hn : n < 10
    · rw [Nat.toDigits_of_lt_base hn]
      interval_cases n <;> first | exact absurd rfl h | decide
    · have hless := ih (n / 10) (by omega) (by omega)
      rw [Nat.toDigits_of_base_le (by decide) (by omega)]
      rwa [List.head?_append_of_ne_nil _ Nat.toDigits_ne_nil]

theorem Stops.not_isDigit (h : Stops rest) : ∀ c ∈ rest.head?, isDigit c = false := by
  intro c hc
  rcases h c hc with rfl | rfl | rfl <;> decide

theorem takeWhile_digits {cs : List Char} (hcs : ∀ c ∈ cs, isDigit c = true) (h : Stops rest) :
    (cs ++ rest).takeWhile isDigit = cs ∧ (cs ++ rest).dropWhile isDigit = rest := by
  have hnone : rest.takeWhile isDigit = [] ∧ rest.dropWhile isDigit = rest := by
    cases rest with
    | nil => exact ⟨rfl, rfl⟩
    | cons c rest => simp [h.not_isDigit c rfl]
  rw [List.takeWhile_append_of_pos hcs, List.dropWhile_append_of_pos hcs, hnone.1, hnone.2,
    List.append_nil]
  exact ⟨rfl, rfl⟩

theorem Stops.cases (h : Stops rest) : rest = [] ∨ (∃ more, rest = ',' :: more) ∨
    (∃ more, rest = ']' :: more) ∨ ∃ more, rest = '}' :: more := by
  cases rest with
  | nil => exact .inl rfl
  | cons c more => rcases h c rfl with rfl | rfl | rfl <;> simp

theorem toDigits_whole (n : Nat) : ((Nat.toDigits 10 n).isEmpty ||
    ((Nat.toDigits 10 n).head? == some '0' && (Nat.toDigits 10 n).length != 1)) = false := by
  have hsome : (Nat.toDigits 10 n).isEmpty = false := by simp
  by_cases hn : n = 0
  · subst hn
    decide
  · have hhead : ((Nat.toDigits 10 n).head? == some '0') = false := by
      simpa using head?_toDigits n hn
    rw [hhead, hsome]
    rfl

theorem magnitude?_toDigits (negative : Bool) (h : Stops rest) (hn : if negative then
    0 < n ∧ n ≤ 9223372036854775808 else n < 18446744073709551616) :
    magnitude? negative (Nat.toDigits 10 n ++ rest) =
      some (.int (if negative then -(n : Int) else n), rest) := by
  obtain ⟨htake, hdrop⟩ := takeWhile_digits (fun c => isDigit_of_mem_toDigits (c := c) (n := n)) h
  simp only [magnitude?, htake, hdrop, toDigits_whole, Bool.false_eq_true, if_false]
  rcases h.cases with rfl | ⟨more, rfl⟩ | ⟨more, rfl⟩ | ⟨more, rfl⟩ <;> cases negative <;>
    simp_all [exponent?, valueIn_toDigits]

theorem exists_toDigits (n : Nat) :
    ∃ c cs, Nat.toDigits 10 n = c :: cs ∧ isDigit c = true := by
  cases hdigits : Nat.toDigits 10 n with
  | nil => exact absurd hdigits Nat.toDigits_ne_nil
  | cons c cs => exact ⟨c, cs, rfl, isDigit_of_mem_toDigits (n := n) (by simp [hdigits])⟩

theorem toString_eq_ite (k : Int) :
    toString k = if 0 ≤ k then k.toNat.repr else "-" ++ (-k).toNat.repr := Int.repr_eq_if

/-- An integer of 64 bits, with or without a sign, is read from its numeral. -/
theorem number?_toString {k : Int} (hlow : -9223372036854775808 ≤ k) (hhigh : k < 18446744073709551616)
    (h : Stops rest) : number? ((toString k).toList ++ rest) = some (.int k, rest) := by
  rw [toString_eq_ite]
  split
  · rename_i hk
    obtain ⟨c, cs, hdigits, hc⟩ := exists_toDigits k.toNat
    have hmagnitude := magnitude?_toDigits (n := k.toNat) false h (by simp; omega)
    have hunsigned : ∀ more, c :: (cs ++ rest) ≠ '-' :: more := by
      rintro more heq
      cases heq
      exact absurd hc (by decide)
    rw [hdigits, List.cons_append] at hmagnitude
    rw [Nat.repr_eq_ofList_toDigits, String.toList_ofList, hdigits, List.cons_append,
      number?.eq_2 _ hunsigned, hmagnitude, if_neg (by decide), Int.toNat_of_nonneg hk]
  · have hmagnitude := magnitude?_toDigits (n := (-k).toNat) true h (by simp; omega)
    rw [String.toList_append, Nat.repr_eq_ofList_toDigits]
    simp only [String.toList_ofList]
    refine hmagnitude.trans ?_
    rw [if_pos rfl, Int.toNat_of_nonneg (by omega), Int.neg_neg]

/-! ### Strings -/

theorem escaped?_control (h : c.toNat < 32) : escaped?
    ('u' :: '0' :: '0' :: hexDigit (c.toNat / 16) :: hexDigit (c.toNat % 16) :: rest) =
      some (c, rest) := by
  have hc : c = Char.ofNat c.toNat := (Char.ofNat_toNat c).symm
  generalize c.toNat = k at h hc
  subst hc
  interval_cases k <;> rfl

/-- The characters of a string are read one by one, whatever way each of them is written. -/
theorem stringTail?_escape (cs read : List Char) (rest : List Char) (h : cs.length < fuel) :
    stringTail? fuel read (cs.flatMap escape ++ '"' :: rest) =
      some (String.ofList (read.reverse ++ cs), rest) := by
  induction cs generalizing fuel read with
  | nil =>
    obtain ⟨fuel, rfl⟩ := Nat.exists_eq_succ_of_ne_zero (by omega : fuel ≠ 0)
    simp [stringTail?]
  | cons c cs ih =>
    obtain ⟨fuel, rfl⟩ := Nat.exists_eq_succ_of_ne_zero (by omega : fuel ≠ 0)
    have hrest := @ih fuel (c :: read) (by simpa using h)
    rw [List.reverse_cons, List.append_assoc, List.singleton_append] at hrest
    rw [List.flatMap_cons, List.append_assoc, escape]
    -- a quote, a backslash, a control character, and any other one
    split
    · subst c
      exact hrest
    · split
      · subst c
        exact hrest
      · split
        · rename_i hcontrol
          simp only [List.cons_append, List.nil_append, stringTail?, escaped?_control hcontrol]
          exact hrest
        · rename_i hquote hslash hcontrol
          simp only [List.singleton_append, stringTail?, if_neg hcontrol]
          exact hrest

theorem length_le_escape (cs : List Char) : cs.length ≤ (cs.flatMap escape).length := by
  induction cs with
  | nil => exact Nat.le_refl 0
  | cons c cs ih =>
    have hpos : 1 ≤ (escape c).length := by
      unfold escape
      repeat' split
      all_goals simp
    rw [List.flatMap_cons, List.length_append, List.length_cons]
    omega

/-- Every string is read again from its quotation. -/
theorem string?_quote (s : String) (rest : List Char) :
    string? ((quote s).toList ++ rest) = some (s, rest) := by
  rw [quote, String.toList_ofList]
  simp only [List.cons_append, List.append_assoc, List.nil_append, string?]
  refine (stringTail?_escape s.toList [] rest ?_).trans ?_
  · have := length_le_escape s.toList
    simp only [List.length_cons, List.length_append]
    omega
  · simp

/-! ### Values -/

/-- A value without doubles whose integers have no more than 64 bits and in which arrays and objects stand
no deeper than a bound. -/
inductive Storable : Nat → Json → Prop where
  | null (d : Nat) : Storable d .null
  | bool (d : Nat) (b : Bool) : Storable d (.bool b)
  | int (d : Nat) {n : Int} (low : -9223372036854775808 ≤ n) (high : n < 18446744073709551616) :
    Storable d (.int n)
  | string (d : Nat) (s : String) : Storable d (.string s)
  | array {d : Nat} {xs : List Json} (h : ∀ x ∈ xs, Storable d x) : Storable (d + 1) (.array xs)
  | object {d : Nat} {ms : List (String × Json)} (h : ∀ m ∈ ms, Storable d m.2) :
    Storable (d + 1) (.object ms)

variable {j : Json} {xs : List Json} {ms : List (String × Json)}

theorem skipBlanks_cons (h : isBlank c = false) (rest : List Char) :
    skipBlanks (c :: rest) = c :: rest := by
  simp [skipBlanks, h]

/-- A text begins with neither a blank nor the end of an array. -/
def Opens (cs : List Char) : Prop := ∃ c more, cs = c :: more ∧ isBlank c = false ∧ c ≠ ']'

theorem Opens.append {cs : List Char} (h : Opens cs) (rest : List Char) : Opens (cs ++ rest) := by
  obtain ⟨c, more, rfl, hc⟩ := h
  exact ⟨c, more ++ rest, rfl, hc⟩

theorem Opens.skipBlanks {cs : List Char} (h : Opens cs) : skipBlanks cs = cs := by
  obtain ⟨c, more, rfl, hblank, -⟩ := h
  exact skipBlanks_cons hblank more

theorem opens_of_isDigit (h : isDigit c = true) (more : List Char) : Opens (c :: more) := by
  refine ⟨c, more, rfl, ?_, ?_⟩
  · simp only [isBlank, Bool.or_eq_false_iff, beq_eq_false_iff_ne, ne_eq]
    refine ⟨⟨⟨?_, ?_⟩, ?_⟩, ?_⟩ <;>
      · rintro rfl
        exact absurd h (by decide)
  · rintro rfl
    exact absurd h (by decide)

/-- A numeral begins with a sign or a digit. -/
theorem exists_toString (k : Int) :
    ∃ c more, (toString k).toList = c :: more ∧ (c = '-' ∨ isDigit c = true) := by
  rw [toString_eq_ite]
  split
  · obtain ⟨c, cs, hdigits, hc⟩ := exists_toDigits k.toNat
    exact ⟨c, cs, by rw [Nat.repr_eq_ofList_toDigits, String.toList_ofList, hdigits], .inr hc⟩
  · exact ⟨'-', _, String.toList_append, .inl rfl⟩

theorem toList_quote (s : String) :
    (quote s).toList = '"' :: (s.toList.flatMap escape ++ ['"']) := String.toList_ofList

theorem toList_array (xs : List Json) :
    (array xs).text.toList = '[' :: ((text.elements xs).toList ++ [']']) := by
  rw [text, String.toList_append, String.toList_append]
  rfl

theorem toList_object (ms : List (String × Json)) :
    (object ms).text.toList = '\x7b' :: ((text.members ms).toList ++ ['\x7d']) := by
  rw [text, String.toList_append, String.toList_append]
  rfl

theorem Storable.opens (h : Storable d j) : Opens j.text.toList := by
  cases h with
  | null => exact ⟨'n', _, rfl, rfl, by decide⟩
  | bool _ b => cases b <;> exact ⟨_, _, rfl, rfl, by decide⟩
  | @int _ k _ _ =>
    obtain ⟨c, more, htext, rfl | hc⟩ := exists_toString k
    · exact ⟨'-', more, htext, rfl, by decide⟩
    · rw [text, htext]
      exact opens_of_isDigit hc more
  | string _ s => exact ⟨'"', _, toList_quote s, rfl, by decide⟩
  | array => exact ⟨'[', _, toList_array _, rfl, by decide⟩
  | object => exact ⟨'\x7b', _, toList_object _, rfl, by decide⟩

/-- A value is read from its text, whatever of the allowed ends follows, with twice as much fuel as the
text has characters. -/
def Reads (d : Nat) (j : Json) : Prop :=
  ∀ ⦃fuel : Nat⦄ ⦃rest : List Char⦄, 2 * j.text.toList.length ≤ fuel → Stops rest →
    value? fuel d (j.text.toList ++ rest) = some (j, rest)

theorem stops_cons_of (h : c = ',' ∨ c = ']' ∨ c = '\x7d') (rest : List Char) : Stops (c :: rest) := by
  rintro _ ⟨⟩
  exact h

theorem toList_elements_cons {x y : Json} :
    (text.elements (x :: y :: xs)).toList = x.text.toList ++ ',' :: (text.elements (y :: xs)).toList := by
  rw [text.elements, String.toList_append, String.toList_append, List.append_assoc]
  · rfl
  · exact List.cons_ne_nil y xs

theorem toList_member (k : String) (x : Json) :
    (quote k ++ ":" ++ x.text).toList = (quote k).toList ++ ':' :: x.text.toList := by
  rw [String.toList_append, String.toList_append, List.append_assoc]
  rfl

theorem toList_members_cons {k : String} {x : Json} {m : String × Json} :
    (text.members ((k, x) :: m :: ms)).toList =
      (quote k).toList ++ ':' :: (x.text.toList ++ ',' :: (text.members (m :: ms)).toList) := by
  rw [text.members, String.toList_append, String.toList_append, toList_member, List.append_assoc,
    List.append_assoc]
  · rfl
  · exact List.cons_ne_nil m ms

theorem elements?_text (hne : xs ≠ []) (h : ∀ x ∈ xs, Reads d x)
    (hfuel : 2 * (text.elements xs).toList.length + 1 ≤ fuel) :
    elements? fuel d ((text.elements xs).toList ++ ']' :: rest) = some (xs, rest) := by
  induction xs generalizing fuel with
  | nil => exact absurd rfl hne
  | cons x xs ih =>
    obtain ⟨hx, hxs⟩ := List.forall_mem_cons.mp h
    obtain ⟨fuel, rfl⟩ := Nat.exists_eq_succ_of_ne_zero (by omega : fuel ≠ 0)
    cases xs with
    | nil =>
      rw [text.elements] at hfuel ⊢
      rw [elements?, hx (by omega) (stops_cons_of (.inr (.inl rfl)) rest)]
      rfl
    | cons y ys =>
      -- the comma pays for the unit of fuel
      rw [toList_elements_cons, List.length_append, List.length_cons] at hfuel
      have hrest := @ih fuel (List.cons_ne_nil y ys) hxs (by omega)
      rw [toList_elements_cons, List.append_assoc, List.cons_append, elements?,
        hx (by omega) (stops_cons_of (.inl rfl) _)]
      simp only [skipBlanks_cons (c := ',') rfl, hrest, Option.map_some]

theorem skipBlanks_quote (s : String) (rest : List Char) :
    skipBlanks ((quote s).toList ++ rest) = (quote s).toList ++ rest := by
  rw [toList_quote]
  exact skipBlanks_cons rfl _

theorem members?_text (hne : ms ≠ []) (h : ∀ m ∈ ms, Reads d m.2)
    (hfuel : 2 * (text.members ms).toList.length + 1 ≤ fuel) :
    members? fuel d ((text.members ms).toList ++ '\x7d' :: rest) = some (ms, rest) := by
  induction ms generalizing fuel with
  | nil => exact absurd rfl hne
  | cons m ms ih =>
    obtain ⟨k, x⟩ := m
    obtain ⟨hx, hms⟩ := List.forall_mem_cons.mp h
    obtain ⟨fuel, rfl⟩ := Nat.exists_eq_succ_of_ne_zero (by omega : fuel ≠ 0)
    cases ms with
    | nil =>
      rw [text.members, toList_member] at hfuel ⊢
      rw [List.length_append, List.length_cons] at hfuel
      have hvalue := @hx fuel _ (by simp only; omega) (stops_cons_of (.inr (.inr rfl)) rest)
      rw [List.append_assoc, List.cons_append, members?, skipBlanks_quote, string?_quote]
      simp only [skipBlanks_cons (c := ':') rfl]
      rw [hvalue]
      rfl
    | cons m ms =>
      rw [toList_members_cons, List.length_append, List.length_cons, List.length_append,
        List.length_cons] at hfuel
      have hrest := @ih fuel (List.cons_ne_nil m ms) hms (by omega)
      rw [toList_members_cons, List.append_assoc, List.cons_append, List.append_assoc,
        List.cons_append, members?, skipBlanks_quote, string?_quote]
      simp only [skipBlanks_cons (c := ':') rfl]
      rw [hx (by simp only; omega) (stops_cons_of (.inl rfl) _)]
      simp only [skipBlanks_cons (c := ',') rfl, hrest, Option.map_some]

theorem Opens.elements (hne : xs ≠ []) (h : ∀ x ∈ xs, Opens x.text.toList) :
    Opens (text.elements xs).toList := by
  cases xs with
  | nil => exact absurd rfl hne
  | cons x xs =>
    have hx := h x List.mem_cons_self
    cases xs with
    | nil => rwa [text.elements]
    | cons y ys =>
      rw [toList_elements_cons]
      exact hx.append _

theorem exists_members (hne : ms ≠ []) : ∃ more, (text.members ms).toList = '"' :: more := by
  cases ms with
  | nil => exact absurd rfl hne
  | cons m ms =>
    obtain ⟨k, x⟩ := m
    cases ms with
    | nil =>
      rw [text.members, toList_member, toList_quote]
      exact ⟨_, rfl⟩
    | cons m ms =>
      rw [toList_members_cons, toList_quote]
      exact ⟨_, rfl⟩

theorem value?_of_sign_or_digit (h : c = '-' ∨ isDigit c = true) (rest : List Char) :
    value? (fuel + 1) d (c :: rest) = number? (c :: rest) := by
  have hne : ∀ c' : Char, isDigit c' = false → c' ≠ '-' → c ≠ c' := by
    rintro c' hc' hminus rfl
    exact h.elim hminus (by simp [hc'])
  have hblanks : skipBlanks (c :: rest) = c :: rest := by
    refine skipBlanks_cons ?_ rest
    simp only [isBlank, Bool.or_eq_false_iff, beq_eq_false_iff_ne]
    exact ⟨⟨⟨hne _ rfl (by decide), hne _ rfl (by decide)⟩, hne _ rfl (by decide)⟩,
      hne _ rfl (by decide)⟩
  have hother : ∀ c' : Char, isDigit c' = false → c' ≠ '-' →
      ∀ more, skipBlanks (c :: rest) = c' :: more → False := by
    intro c' hc' hminus more heq
    rw [hblanks] at heq
    exact hne c' hc' hminus (List.cons.inj heq).1
  rw [value?.eq_8 _ _ _ (hother _ rfl (by decide)) (hother _ rfl (by decide))
    (hother _ rfl (by decide)) (hother _ rfl (by decide))
    (fun more _ h _ => hother _ rfl (by decide) more h)
    (fun more _ h _ => hother _ rfl (by decide) more h), hblanks]

theorem reads_of_opens (hopens : Opens j.text.toList)
    (h : ∀ ⦃fuel : Nat⦄ ⦃rest : List Char⦄, 2 * j.text.toList.length ≤ fuel + 1 → Stops rest →
      value? (fuel + 1) d (j.text.toList ++ rest) = some (j, rest)) : Reads d j := by
  intro fuel rest hfuel hrest
  obtain ⟨c, more, htext, -⟩ := hopens
  cases fuel with
  | zero => simp [htext] at hfuel
  | succ fuel => exact h hfuel hrest

theorem reads_array (h : ∀ x ∈ xs, Storable d x) (hxs : ∀ x ∈ xs, Reads d x) :
    Reads (d + 1) (array xs) := by
  refine reads_of_opens (Storable.array h).opens fun fuel rest hfuel _ => ?_
  rw [toList_array] at hfuel ⊢
  rw [List.cons_append, List.append_assoc,
    value?.eq_6 _ _ _ _ (skipBlanks_cons (c := '[') rfl _)]
  by_cases hne : xs = []
  · subst hne
    rfl
  · obtain ⟨c, more, htext, hblank, hc⟩ := Opens.elements hne fun x hx => (h x hx).opens
    have hread : elements? fuel d ((text.elements xs).toList ++ ']' :: rest) = some (xs, rest) :=
      elements?_text hne hxs (by simp at hfuel; omega)
    rw [htext, List.cons_append] at hread ⊢
    rw [skipBlanks_cons hblank]
    split
    · rename_i heq
      exact absurd (List.cons.inj heq).1 hc
    · exact congrArg (Option.map _) hread

theorem reads_object (h : ∀ m ∈ ms, Storable d m.2) (hms : ∀ m ∈ ms, Reads d m.2) :
    Reads (d + 1) (object ms) := by
  refine reads_of_opens (Storable.object h).opens fun fuel rest hfuel _ => ?_
  rw [toList_object] at hfuel ⊢
  rw [List.cons_append, List.append_assoc,
    value?.eq_7 _ _ _ _ (skipBlanks_cons (c := '\x7b') rfl _)]
  by_cases hne : ms = []
  · subst hne
    rfl
  · obtain ⟨more, htext⟩ := exists_members hne
    have hread : members? fuel d ((text.members ms).toList ++ '\x7d' :: rest) = some (ms, rest) :=
      members?_text hne hms (by simp at hfuel; omega)
    rw [htext, List.cons_append] at hread ⊢
    rw [skipBlanks_cons (c := '"') rfl]
    exact congrArg (Option.map _) hread

/-- Storable values are read from their texts. -/
theorem Storable.reads (h : Storable d j) : Reads d j := by
  induction h with
  | null d => exact reads_of_opens (Storable.null d).opens fun fuel rest _ _ => rfl
  | bool d b => cases b <;> exact reads_of_opens (Storable.bool d _).opens fun fuel rest _ _ => rfl
  | @int d k low high =>
    refine reads_of_opens (Storable.int d low high).opens fun fuel rest _ hrest => ?_
    have hread := number?_toString low high hrest
    obtain ⟨c, more, htext, hc⟩ := exists_toString k
    rw [htext] at hread
    rw [text, htext, List.cons_append, value?_of_sign_or_digit hc]
    exact hread
  | string d s =>
    refine reads_of_opens (Storable.string d s).opens fun fuel rest _ _ => ?_
    have hread := string?_quote s rest
    rw [toList_quote] at hread
    rw [text, toList_quote, List.cons_append, value?.eq_5 _ _ _ _ (skipBlanks_cons (c := '"') rfl _)]
    exact congrArg (Option.map _) hread
  | array h ih => exact reads_array h ih
  | object h ih => exact reads_object h ih

/-- A storable value is the value of its text. -/
theorem parse?_text (h : Storable maxDepth j) : parse? j.text = some j := by
  have hread : value? (2 * j.text.toList.length + 2) maxDepth (j.text.toList ++ []) = some (j, []) :=
    h.reads (by omega) nofun
  rw [List.append_nil] at hread
  simp only [parse?, hread]
  rfl

end HexSkirmish.Json
