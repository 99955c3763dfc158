import HexSkirmish.Bytes
import HexSkirmish.Json.Form
import HexSkirmish.Proofs.JsonTexts
import HexSkirmish.Proofs.Traversals
import Mathlib.Data.List.Nodup

/-! Saved values. Every value of the types that make up cells, tiles, routes and refusals is read again
from its JSON text and from its bytes, and the bytes it is read from are no others than those written. -/

namespace HexSkirmish

/-! ### Vocabularies -/

/-- A vocabulary that lists all members, tells them apart by their names and has codes of four bytes. -/
class Vocabulary.Lawful (α : Type) [Vocabulary α] : Prop where
  complete : ∀ a : α, a ∈ (Vocabulary.members : List α)
  names : ((Vocabulary.members : List α).map Vocabulary.name).Nodup := by decide
  few : (Vocabulary.members : List α).length ≤ 4294967296 := by decide

namespace Vocabulary

variable {α : Type} [Vocabulary α] {a b : α} {n : Nat}

section

variable [Lawful α]

theorem name_inj (h : name a = name b) : a = b :=
  List.inj_on_of_nodup_map Lawful.names (Lawful.complete a) (Lawful.complete b) h

theorem ofName?_name (a : α) : ofName? (name a) = some a := by
  cases hfind : (ofName? (name a) : Option α) with
  | none =>
    have hnone := List.find?_eq_none.mp hfind a (Lawful.complete a)
    exact absurd BEq.rfl hnone
  | some b =>
    have hname := List.find?_some hfind
    rw [name_inj (a := b) (b := a) (by simpa using hname)]

variable [DecidableEq α]

theorem code_lt (a : α) : code a < 4294967296 :=
  Nat.lt_of_lt_of_le (List.idxOf_lt_length_of_mem (Lawful.complete a)) Lawful.few

theorem ofCode?_eq_some_iff : ofCode? n = some a ↔ n = code a := by
  have hnodup : (members : List α).Nodup := List.Nodup.of_map name Lawful.names
  constructor
  · intro h
    obtain ⟨hn, rfl⟩ := List.getElem?_eq_some_iff.mp h
    exact (hnodup.idxOf_getElem n hn).symm
  · rintro rfl
    exact List.getElem?_idxOf (Lawful.complete a)

end

instance : Lawful Direction where
  complete := by rintro (_ | _) <;> decide

instance : Lawful TileEffect where
  complete := by rintro (_ | _) <;> decide

instance : Lawful ActorKind where
  complete := by rintro (_ | _) <;> decide

instance : Lawful Card where
  complete := by rintro (_ | _) <;> decide

instance : Lawful Phase where
  complete := by rintro (_ | _) <;> decide

instance : Lawful RouteResult where
  complete := by rintro (_ | _) <;> decide

instance : Lawful MoveError where
  complete := by rintro (_ | _) <;> decide

instance : Lawful PlacementError where
  complete := by rintro (_ | _) <;> decide

end Vocabulary

/-- A route whose tiles have indices of 64 bits and can be counted with 64 bits. -/
def Route.Addressable (r : Route) : Prop :=
  r.tiles.length < 18446744073709551616 ∧ ∀ t ∈ r.tiles, t < 18446744073709551616

instance (r : Route) : Decidable r.Addressable := inferInstanceAs (Decidable (_ ∧ _))

/-! ### Bytes -/

namespace ByteForm

variable {α : Type} {n width : Nat} {bytes rest : List UInt8}

theorem readNat?_eq_some_iff :
    readNat? width bytes = some (n, rest) ↔ n < 256 ^ width ∧ bytes = writeNat width n ++ rest := by
  induction width generalizing bytes rest n with
  | zero =>
    simp only [readNat?, writeNat, Option.some.injEq, Prod.mk.injEq, Nat.pow_zero, Nat.lt_one_iff,
      List.nil_append]
    exact and_congr_left' eq_comm
  | succ width ih =>
    cases bytes with
    | nil => simp [readNat?, writeNat]
    | cons b bytes =>
      simp only [readNat?, Option.bind_eq_bind, Option.bind_eq_some_iff, Prod.exists, ih, Option.pure_def,
        Option.some.injEq, Prod.mk.injEq, writeNat, List.cons_append, List.cons.injEq, Nat.pow_succ]
      have hb := b.toNat_lt
      constructor
      · rintro ⟨high, rest, ⟨hhigh, rfl⟩, rfl, rfl⟩
        have hhead : UInt8.ofNat (b.toNat + 256 * high) = b := by
          apply UInt8.toNat_inj.mp
          rw [UInt8.toNat_ofNat']
          omega
        have htail : (b.toNat + 256 * high) / 256 = high := by omega
        exact ⟨by omega, hhead.symm, by rw [htail]⟩
      · rintro ⟨hn, rfl, rfl⟩
        refine ⟨n / 256, rest, ⟨by omega, rfl⟩, ?_, rfl⟩
        rw [UInt8.toNat_ofNat']
        omega

/-- Reading gives those values that may be written, each from the bytes that are written for it. -/
structure Exact (α : Type) [ByteForm α] (valid : α → Prop) : Prop where
  read?_eq_some_iff : ∀ {bytes : List UInt8} {a : α} {rest : List UInt8},
    read? bytes = some (a, rest) ↔ valid a ∧ bytes = write a ++ rest

/-- A type of which each value has a number of its own, written in so many bytes. -/
theorem Exact.of_code [ByteForm α] {valid : α → Prop} (width : Nat) (decode : Nat → Option α)
    (code : α → Nat)
    (hread : ∀ bytes, read? bytes =
      (readNat? width bytes).bind fun p => (decode p.1).bind fun a => some (a, p.2))
    (hwrite : ∀ a : α, write a = writeNat width (code a))
    (hcode : ∀ n a, n < 256 ^ width ∧ decode n = some a ↔ valid a ∧ n = code a) :
    Exact α valid where
  read?_eq_some_iff := by
    intro bytes a rest
    simp only [hread, Option.bind_eq_some_iff, Prod.exists, readNat?_eq_some_iff,
      Option.some.injEq, Prod.mk.injEq, hwrite]
    constructor
    · rintro ⟨n, _, ⟨hn, rfl⟩, _, hdecode, rfl, rfl⟩
      obtain ⟨hvalid, rfl⟩ := (hcode n _).mp ⟨hn, hdecode⟩
      exact ⟨hvalid, rfl⟩
    · rintro ⟨hvalid, rfl⟩
      obtain ⟨hlt, hdecode⟩ := (hcode _ a).mpr ⟨hvalid, rfl⟩
      exact ⟨_, _, ⟨hlt, rfl⟩, a, hdecode, rfl, rfl⟩

theorem exact_nat : Exact Nat fun n => n < 18446744073709551616 := ⟨readNat?_eq_some_iff⟩

theorem exact_vocabulary [Vocabulary α] [Vocabulary.Lawful α] [DecidableEq α] :
    Exact α fun _ => True := by
  refine .of_code 4 Vocabulary.ofCode? Vocabulary.code (fun _ => rfl) (fun _ => rfl) fun n a => ?_
  rw [Vocabulary.ofCode?_eq_some_iff, true_and, and_iff_right_iff_imp]
  rintro rfl
  exact Vocabulary.code_lt a

/-- A type of which the values are all the numbers with so many bytes. -/
theorem Exact.of_word [ByteForm α] (width : Nat) (ofNat : Nat → α) (toNat : α → Nat)
    (hread : ∀ bytes, read? bytes = (readNat? width bytes).bind fun p => some (ofNat p.1, p.2))
    (hwrite : ∀ a : α, write a = writeNat width (toNat a))
    (hto : ∀ n, n < 256 ^ width → toNat (ofNat n) = n) (hof : ∀ a, ofNat (toNat a) = a)
    (hlt : ∀ a, toNat a < 256 ^ width) : Exact α fun _ => True := by
  refine .of_code width (fun n => some (ofNat n)) toNat hread hwrite fun n a => ?_
  rw [Option.some.injEq, true_and]
  constructor
  · rintro ⟨hn, rfl⟩
    exact (hto n hn).symm
  · rintro rfl
    exact ⟨hlt a, hof a⟩

theorem exact_uInt32 : Exact UInt32 fun _ => True :=
  .of_word 4 UInt32.ofNat UInt32.toNat (fun _ => rfl) (fun _ => rfl)
    (fun _ => UInt32.toNat_ofNat_of_lt') (fun _ => UInt32.ofNat_toNat) UInt32.toNat_lt

theorem exact_uInt16 : Exact UInt16 fun _ => True :=
  .of_word 2 UInt16.ofNat UInt16.toNat (fun _ => rfl) (fun _ => rfl)
    (fun _ => UInt16.toNat_ofNat_of_lt') (fun _ => UInt16.ofNat_toNat) UInt16.toNat_lt

section

variable {β : Type} [ByteForm α] {valid : α → Prop} {a : α}

/-- What is read of a value and then goes on with it and with what is left. -/
theorem Exact.bind_eq_some_iff (h : Exact α valid)
    {next : α × List UInt8 → Option (β × List UInt8)} {result : β × List UInt8} :
    (read? bytes).bind next = some result ↔
      ∃ a left, (valid a ∧ bytes = write a ++ left) ∧ next (a, left) = some result := by
  simp only [Option.bind_eq_some_iff, Prod.exists, h.read?_eq_some_iff]

/-- A type whose values are those of another one. -/
theorem Exact.of_equiv [ByteForm β] (h : Exact α fun _ => True) (f : α → β) (g : β → α)
    (hfg : ∀ b, f (g b) = b) (hgf : ∀ a, g (f a) = a)
    (hread : ∀ bytes, read? bytes = (read? bytes).bind fun p => some (f p.1, p.2))
    (hwrite : ∀ b : β, write b = write (g b)) : Exact β fun _ => True where
  read?_eq_some_iff := by
    intro bytes b rest
    rw [hread, h.bind_eq_some_iff, hwrite]
    constructor
    · rintro ⟨a, left, ⟨-, rfl⟩, heq⟩
      cases heq
      exact ⟨trivial, by rw [hgf]⟩
    · rintro ⟨-, rfl⟩
      exact ⟨g b, rest, ⟨trivial, rfl⟩, by rw [hfg]⟩

theorem Exact.readMany?_eq_some_iff (h : Exact α valid) {xs : List α} :
    readMany? n bytes = some (xs, rest) ↔
      (∀ x ∈ xs, valid x) ∧ n = xs.length ∧ bytes = xs.flatMap write ++ rest := by
  induction n generalizing bytes xs with
  | zero =>
    rw [readMany?, Option.some.injEq, Prod.mk.injEq]
    constructor
    · rintro ⟨rfl, rfl⟩
      simp
    · rintro ⟨-, hlength, rfl⟩
      obtain rfl := List.eq_nil_of_length_eq_zero hlength.symm
      exact ⟨rfl, rfl⟩
  | succ n ih =>
    change (read? bytes).bind _ = _ ↔ _
    constructor
    · intro hread
      obtain ⟨x, left, ⟨hx, rfl⟩, hothers⟩ := h.bind_eq_some_iff.mp hread
      obtain ⟨⟨xs, left⟩, hmany, heq⟩ := Option.bind_eq_some_iff.mp hothers
      cases heq
      obtain ⟨hxs, rfl, rfl⟩ := ih.mp hmany
      exact ⟨List.forall_mem_cons.mpr ⟨hx, hxs⟩, rfl, by rw [List.flatMap_cons, List.append_assoc]⟩
    · rintro ⟨hvalid, hlength, rfl⟩
      cases xs with
      | nil => cases hlength
      | cons x xs =>
        obtain ⟨hx, hxs⟩ := List.forall_mem_cons.mp hvalid
        have hmany := ih.mpr ⟨hxs, Nat.succ.inj hlength, rfl⟩
        rw [List.flatMap_cons, List.append_assoc]
        exact h.bind_eq_some_iff.mpr
          ⟨x, _, ⟨hx, rfl⟩, Option.bind_eq_some_iff.mpr ⟨_, hmany, rfl⟩⟩

theorem Exact.list (h : Exact α valid) :
    Exact (List α) fun xs => xs.length < 18446744073709551616 ∧ ∀ x ∈ xs, valid x where
  read?_eq_some_iff := by
    intro bytes xs rest
    change (readNat? 8 bytes).bind _ = _ ↔ _ ∧ bytes = writeNat 8 xs.length ++ xs.flatMap write ++ rest
    simp only [Option.bind_eq_some_iff, Prod.exists, readNat?_eq_some_iff, h.readMany?_eq_some_iff]
    constructor
    · rintro ⟨n, left, ⟨hn, rfl⟩, hxs, rfl, rfl⟩
      exact ⟨⟨hn, hxs⟩, by rw [List.append_assoc]⟩
    · rintro ⟨⟨hn, hxs⟩, rfl⟩
      exact ⟨_, _, ⟨hn, List.append_assoc _ _ _⟩, hxs, rfl, rfl⟩

end

theorem exact_int32 : Exact Int32 fun _ => True :=
  exact_uInt32.of_equiv UInt32.toInt32 Int32.toUInt32 (fun _ => rfl) (fun _ => rfl) (fun _ => rfl)
    fun _ => rfl

theorem exact_actorId : Exact ActorId fun _ => True :=
  exact_uInt32.of_equiv ActorId.mk ActorId.number (fun _ => rfl) (fun _ => rfl) (fun _ => rfl)
    fun _ => rfl

theorem exact_coord : Exact Coord fun _ => True where
  read?_eq_some_iff := by
    intro bytes c rest
    change (read? bytes).bind _ = _ ↔ _ ∧ bytes = write c.x ++ write c.y ++ rest
    constructor
    · intro hread
      obtain ⟨x, left, ⟨-, rfl⟩, hy⟩ := exact_int32.bind_eq_some_iff.mp hread
      obtain ⟨y, left, ⟨-, rfl⟩, heq⟩ := exact_int32.bind_eq_some_iff.mp hy
      cases heq
      exact ⟨trivial, by rw [List.append_assoc]⟩
    · rintro ⟨-, rfl⟩
      rw [List.append_assoc]
      refine exact_int32.bind_eq_some_iff.mpr ⟨c.x, _, ⟨trivial, rfl⟩, ?_⟩
      exact exact_int32.bind_eq_some_iff.mpr ⟨c.y, _, ⟨trivial, rfl⟩, rfl⟩

theorem exact_tile : Exact Tile fun _ => True where
  read?_eq_some_iff := by
    intro bytes t rest
    change (read? bytes).bind _ = _ ↔ _ ∧ bytes = write t.cost ++ write t.effect ++ rest
    constructor
    · intro hread
      obtain ⟨cost, left, ⟨-, rfl⟩, heffect⟩ := exact_uInt16.bind_eq_some_iff.mp hread
      obtain ⟨effect, left, ⟨-, rfl⟩, heq⟩ := exact_vocabulary.bind_eq_some_iff.mp heffect
      cases heq
      exact ⟨trivial, by rw [List.append_assoc]⟩
    · rintro ⟨-, rfl⟩
      rw [List.append_assoc]
      refine exact_uInt16.bind_eq_some_iff.mpr ⟨t.cost, _, ⟨trivial, rfl⟩, ?_⟩
      exact exact_vocabulary.bind_eq_some_iff.mpr ⟨t.effect, _, ⟨trivial, rfl⟩, rfl⟩

theorem exact_route : Exact Route Route.Addressable where
  read?_eq_some_iff := by
    intro bytes r rest
    change (read? bytes).bind _ = _ ↔
      _ ∧ bytes = write r.start ++ write r.goal ++ write r.tiles ++ write r.result ++ rest
    constructor
    · intro hread
      obtain ⟨start, left, ⟨-, rfl⟩, hgoal⟩ := exact_coord.bind_eq_some_iff.mp hread
      obtain ⟨goal, left, ⟨-, rfl⟩, htiles⟩ := exact_coord.bind_eq_some_iff.mp hgoal
      obtain ⟨tiles, left, ⟨hvalid, rfl⟩, hresult⟩ := exact_nat.list.bind_eq_some_iff.mp htiles
      obtain ⟨result, left, ⟨-, rfl⟩, heq⟩ := exact_vocabulary.bind_eq_some_iff.mp hresult
      cases heq
      exact ⟨hvalid, by simp only [List.append_assoc]⟩
    · rintro ⟨hvalid, rfl⟩
      simp only [List.append_assoc]
      refine exact_coord.bind_eq_some_iff.mpr ⟨r.start, _, ⟨trivial, rfl⟩, ?_⟩
      refine exact_coord.bind_eq_some_iff.mpr ⟨r.goal, _, ⟨trivial, rfl⟩, ?_⟩
      refine exact_nat.list.bind_eq_some_iff.mpr ⟨r.tiles, _, ⟨hvalid, rfl⟩, ?_⟩
      exact exact_vocabulary.bind_eq_some_iff.mpr ⟨r.result, _, ⟨trivial, rfl⟩, rfl⟩

end ByteForm

/-! ### JSON -/

namespace JsonForm

variable {α : Type}

/-- The values that may be written are read again, and what is written for them has a text. -/
structure Faithful (α : Type) [JsonForm α] (depth : Nat) (valid : α → Prop) : Prop where
  ofJson?_toJson : ∀ {a : α}, valid a → ofJson? (toJson a) = some a
  storable : ∀ {a : α}, valid a → ∀ d, Json.Storable (d + depth) (toJson a)

theorem faithful_vocabulary [Vocabulary α] [Vocabulary.Lawful α] : Faithful α 0 fun _ => True where
  ofJson?_toJson _ := Vocabulary.ofName?_name _
  storable _ d := .string d _

theorem faithful_nat : Faithful Nat 0 fun n => n < 18446744073709551616 where
  ofJson?_toJson h := Json.natUpTo?_eq_some_iff.mpr ⟨rfl, Nat.le_of_lt_succ h⟩
  storable h d := .int d (by omega) (by omega)

/-- A type of which the values are numbers up to a limit. -/
theorem faithful_of_word [JsonForm α] {limit : Nat} (hlimit : limit < 18446744073709551616)
    (ofNat : Nat → α) (toNat : α → Nat)
    (hread : ∀ j, ofJson? j = (j.natUpTo? limit).map ofNat)
    (hwrite : ∀ a : α, toJson a = .int (toNat a)) (hof : ∀ a, ofNat (toNat a) = a)
    (hle : ∀ a, toNat a ≤ limit) : Faithful α 0 fun _ => True where
  ofJson?_toJson := by
    intro a _
    have hnumber : (Json.int (toNat a)).natUpTo? limit = some (toNat a) :=
      Json.natUpTo?_eq_some_iff.mpr ⟨rfl, hle a⟩
    rw [hwrite, hread, hnumber, Option.map_some, hof]
  storable := by
    intro a _ d
    have := hle a
    rw [hwrite]
    exact .int d (by omega) (by omega)

theorem faithful_uInt32 : Faithful UInt32 0 fun _ => True :=
  faithful_of_word (by decide) UInt32.ofNat UInt32.toNat (fun _ => rfl) (fun _ => rfl)
    (fun _ => UInt32.ofNat_toNat) fun n => Nat.le_of_lt_succ n.toNat_lt

theorem faithful_uInt16 : Faithful UInt16 0 fun _ => True :=
  faithful_of_word (by decide) UInt16.ofNat UInt16.toNat (fun _ => rfl) (fun _ => rfl)
    (fun _ => UInt16.ofNat_toNat) fun n => Nat.le_of_lt_succ n.toNat_lt

theorem faithful_int32 : Faithful Int32 0 fun _ => True where
  ofJson?_toJson _ := Json.word?_eq_some_iff.mpr rfl
  storable := by
    intro n _ d
    have hlow := n.le_toInt
    have hhigh := n.toInt_lt
    exact .int d (by omega) (by omega)

theorem faithful_actorId : Faithful ActorId 0 fun _ => True where
  ofJson?_toJson := by
    intro i _
    change (ofJson? (toJson i.number)).map ActorId.mk = some i
    rw [faithful_uInt32.ofJson?_toJson trivial]
    rfl
  storable _ d := faithful_uInt32.storable trivial d

theorem Faithful.list [JsonForm α] {depth : Nat} {valid : α → Prop} (h : Faithful α depth valid) :
    Faithful (List α) (depth + 1) fun xs => ∀ x ∈ xs, valid x where
  ofJson?_toJson := by
    intro xs hxs
    change (xs.map toJson).mapM ofJson? = some xs
    rw [mapM_eq_some_iff_forall₂, List.forall₂_map_left_iff, List.forall₂_same]
    exact fun x hx => h.ofJson?_toJson (hxs x hx)
  storable := by
    intro xs hxs d
    refine .array fun j hj => ?_
    obtain ⟨x, hx, rfl⟩ := List.mem_map.mp hj
    exact h.storable (hxs x hx) d

theorem faithful_coord : Faithful Coord 1 fun _ => True where
  ofJson?_toJson := by
    intro c _
    have hfields : fields? ["x", "y"] (toJson c) = some [toJson c.x, toJson c.y] := rfl
    have hx := faithful_int32.ofJson?_toJson (a := c.x) trivial
    have hy := faithful_int32.ofJson?_toJson (a := c.y) trivial
    simp only [ofJson?] at hx hy ⊢
    simp only [hfields, hx, hy]
    rfl
  storable := by
    intro c _ d
    exact .object (List.forall_mem_cons.mpr ⟨faithful_int32.storable trivial d,
      List.forall_mem_singleton.mpr (faithful_int32.storable trivial d)⟩)

theorem faithful_tile : Faithful Tile 1 fun _ => True where
  ofJson?_toJson := by
    intro t _
    have hfields : fields? ["movement_cost", "effect"] (toJson t) =
      some [toJson t.cost, toJson t.effect] := rfl
    have hcost := faithful_uInt16.ofJson?_toJson (a := t.cost) trivial
    have heffect := faithful_vocabulary.ofJson?_toJson (a := t.effect) trivial
    simp only [ofJson?] at hcost heffect ⊢
    simp only [hfields, hcost, heffect]
    rfl
  storable := by
    intro t _ d
    exact .object (List.forall_mem_cons.mpr ⟨faithful_uInt16.storable trivial d,
      List.forall_mem_singleton.mpr (faithful_vocabulary.storable trivial d)⟩)

theorem faithful_route : Faithful Route 2 Route.Addressable where
  ofJson?_toJson := by
    intro r hr
    have hfields : fields? ["start", "goal", "tiles", "result"] (toJson r) =
      some [toJson r.start, toJson r.goal, toJson r.tiles, toJson r.result] := rfl
    have hstart := faithful_coord.ofJson?_toJson (a := r.start) trivial
    have hgoal := faithful_coord.ofJson?_toJson (a := r.goal) trivial
    have htiles := faithful_nat.list.ofJson?_toJson hr.2
    have hresult := faithful_vocabulary.ofJson?_toJson (a := r.result) trivial
    simp only [ofJson?] at hstart hgoal htiles hresult ⊢
    simp only [hfields, hstart, hgoal, htiles, hresult]
    rfl
  storable := by
    intro r hr d
    refine .object (List.forall_mem_cons.mpr ⟨faithful_coord.storable trivial d,
      List.forall_mem_cons.mpr ⟨faithful_coord.storable trivial d,
        List.forall_mem_cons.mpr ⟨faithful_nat.list.storable hr.2 d,
          List.forall_mem_singleton.mpr (faithful_vocabulary.storable trivial (d + 1))⟩⟩⟩)

end JsonForm

/-! ### All saved types -/

/-- The values of a type are read again from their JSON values, from the texts of these, and from their
bytes, and they are read from no other bytes. -/
structure Survives (α : Type) [JsonForm α] [ByteForm α] (valid : α → Prop) : Prop where
  json : ∀ a, valid a → JsonForm.ofJson? (toJson a) = some a
  text : ∀ a, valid a → (Json.parse? (toJson a).text).bind JsonForm.ofJson? = some a
  bytes : ∀ a rest, valid a → ByteForm.read? (ByteForm.write a ++ rest) = some (a, rest)
  canonical : ∀ bytes (a : α) rest, ByteForm.read? bytes = some (a, rest) →
    valid a ∧ bytes = ByteForm.write a ++ rest

theorem survives_of_faithful_exact {α : Type} [JsonForm α] [ByteForm α] {valid : α → Prop} {depth : Nat}
    (hdepth : depth ≤ Json.maxDepth) (hjson : JsonForm.Faithful α depth valid)
    (hbytes : ByteForm.Exact α valid) : Survives α valid where
  json _ := hjson.ofJson?_toJson
  text := by
    intro a ha
    have hstorable := hjson.storable ha (Json.maxDepth - depth)
    rw [Nat.sub_add_cancel hdepth] at hstorable
    rw [Json.parse?_text hstorable]
    exact hjson.ofJson?_toJson ha
  bytes _ _ ha := hbytes.read?_eq_some_iff.mpr ⟨ha, rfl⟩
  canonical _ _ _ := hbytes.read?_eq_some_iff.mp

theorem survives_vocabulary {α : Type} [Vocabulary α] [Vocabulary.Lawful α] [DecidableEq α] :
    Survives α fun _ => True :=
  survives_of_faithful_exact (by decide) JsonForm.faithful_vocabulary ByteForm.exact_vocabulary

/-- Cells, directions, tiles and their effects, the numbers and the sides of actors, cards, phases, the
results of searches, routes with any tiles, and refusals of moves and of places survive. -/
theorem saved_values_survive :
    (Survives Coord fun _ => True) ∧ (Survives Direction fun _ => True) ∧
    (Survives TileEffect fun _ => True) ∧ (Survives Tile fun _ => True) ∧
    (Survives ActorId fun _ => True) ∧ (Survives ActorKind fun _ => True) ∧
    (Survives Card fun _ => True) ∧ (Survives Phase fun _ => True) ∧
    (Survives RouteResult fun _ => True) ∧ Survives Route Route.Addressable ∧
    (Survives MoveError fun _ => True) ∧ (Survives PlacementError fun _ => True) :=
  ⟨survives_of_faithful_exact (by decide) JsonForm.faithful_coord ByteForm.exact_coord,
    survives_vocabulary, survives_vocabulary,
    survives_of_faithful_exact (by decide) JsonForm.faithful_tile ByteForm.exact_tile,
    survives_of_faithful_exact (by decide) JsonForm.faithful_actorId ByteForm.exact_actorId,
    survives_vocabulary, survives_vocabulary, survives_vocabulary, survives_vocabulary,
    survives_of_faithful_exact (by decide) JsonForm.faithful_route ByteForm.exact_route,
    survives_vocabulary, survives_vocabulary⟩

example : (toJson (⟨-3, 7⟩ : Coord)).text = "\x7b\"x\":-3,\"y\":7\x7d" ∧
    ByteForm.write (⟨-3, 7⟩ : Coord) = [253, 255, 255, 255, 7, 0, 0, 0] := ⟨rfl, rfl⟩

/-- A route that was not found and yet has tiles, with words and an index at the ends of their ranges. -/
def farRoute : Route :=
  ⟨⟨-3, 7⟩, ⟨2147483647, -2147483648⟩, [0, 18446744073709551615], .missing⟩

theorem saved_values_survive_far_route :
    farRoute.Addressable ∧
      (Json.parse? (toJson farRoute).text).bind JsonForm.ofJson? = some farRoute ∧
      ByteForm.read? (ByteForm.write farRoute ++ [7]) = some (farRoute, [7]) := by
  have haddressable : farRoute.Addressable := by decide
  have hroute := saved_values_survive.2.2.2.2.2.2.2.2.2.1
  exact ⟨haddressable, hroute.text farRoute haddressable, hroute.bytes farRoute [7] haddressable⟩

end HexSkirmish
