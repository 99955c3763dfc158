import HexSkirmish.Battle.ConfigJson
import HexSkirmish.Proofs.Traversals
import Mathlib.Data.List.Nodup

/-! Setups that name only what differs from the standard one. Which value a field takes is said for each
field and each JSON value once; with that, an object of named values reads as the one setup that has the
values named and the standard ones otherwise, in whatever order they come, and an array reads as the
object that names the first fields. -/

namespace HexSkirmish

/-! ### What JSON values stand for -/

/-- An array of a column and a row, or an object that has each of them once and anything else beside. -/
inductive Json.Places : Json → Coord → Prop where
  | array (c : Coord) : Places (.array [.int c.x.toInt, .int c.y.toInt]) c
  | object {members : List (String × Json)} {c : Coord}
      (x : members.filter (·.1 == "x") = [("x", .int c.x.toInt)])
      (y : members.filter (·.1 == "y") = [("y", .int c.y.toInt)]) : Places (.object members) c

/-- A number stands for the nearest single-precision one. -/
inductive Json.Measures : Json → Single → Prop where
  | int (n : Int) : Measures (.int n) (.ofValue (Float32.ofInt n))
  | real (x : Float) : Measures (.real x) (.ofValue x.toFloat32)

namespace JsonForm

variable {c : Coord} {j : Json} {members : List (String × Json)} {name : String} {v : Json}

theorem only?_eq_some_iff : Json.only? members name = some v ↔
    members.filter (·.1 == name) = [(name, v)] := by
  unfold Json.only?
  split
  · rename_i k v' hone
    have hname : k = name := by
      have hmem : (k, v') ∈ members.filter (·.1 == name) := by simp [hone]
      simpa using (List.mem_filter.mp hmem).2
    simp [hone, hname]
  · rename_i hmany
    simpa using hmany name v

theorem mapM_pair (f : String → Option Json) (a b : String) {x y : Json} :
    [a, b].mapM f = some [x, y] ↔ f a = some x ∧ f b = some y := by
  cases ha : f a <;> cases hb : f b <;> simp [ha, hb]

theorem fields?_pair {a b : String} {x y : Json} : fields? [a, b] j = some [x, y] ↔
    j = .array [x, y] ∨ ∃ members, j = .object members ∧
      members.filter (·.1 == a) = [(a, x)] ∧ members.filter (·.1 == b) = [(b, y)] := by
  cases j with
  | object members =>
    rw [fields?, mapM_pair, only?_eq_some_iff, only?_eq_some_iff]
    simp
  | array elements =>
    simp only [fields?, Option.ite_none_right_eq_some, Option.some.injEq, List.length_cons,
      List.length_nil, Json.array.injEq, reduceCtorEq, false_and, exists_false, or_false,
      and_iff_right_iff_imp]
    rintro rfl
    rfl
  | _ => simp [fields?]

theorem coord_eq_some_iff : (ofJson? j : Option Coord) = some c ↔ j.Places c := by
  have hwords : (ofJson? j : Option Coord) = some c ↔
      fields? ["x", "y"] j = some [.int c.x.toInt, .int c.y.toInt] := by
    obtain ⟨cx, cy⟩ := c
    simp only [ofJson?]
    split
    · rename_i x y hfields
      rw [hfields]
      cases hx : x.word? <;> cases hy : y.word? <;>
        simp [hx, hy, ← Json.word?_eq_some_iff]
    · rename_i hother
      simp only [reduceCtorEq, false_iff]
      exact hother _ _
  rw [hwords, fields?_pair]
  constructor
  · rintro (rfl | ⟨members, rfl, hx, hy⟩)
    · exact .array c
    · exact .object hx hy
  · rintro (_ | ⟨hx, hy⟩)
    · exact .inl rfl
    · exact .inr ⟨_, rfl, hx, hy⟩

theorem list_eq_some_iff {α : Type} [JsonForm α] {xs : List α} :
    ofJson? j = some xs ↔
      ∃ elements, j = .array elements ∧ List.Forall₂ (fun e x => ofJson? e = some x) elements xs := by
  cases j with
  | array elements =>
    change elements.mapM ofJson? = some xs ↔ _
    simp [mapM_eq_some_iff_forall₂]
  | _ => simp [ofJson?]

end JsonForm

/-- The numbers that stand for sizes are those that are read as one. -/
theorem Single.ofJson?_eq_some_iff {s : Single} {j : Json} :
    Single.ofJson? j = some s ↔ j.Measures s := by
  constructor
  · intro h
    cases j with
    | int n => exact Option.some.inj h ▸ .int n
    | real x => exact Option.some.inj h ▸ .real x
    | _ => cases h
  · rintro (n | x) <;> rfl

/-! ### The fields of a setup -/

inductive ConfigField where
  | width | height | size | movementPerTurn | handSize | seed | player | npcs | obstacles
deriving DecidableEq

namespace ConfigField

/-- The order in which an array gives the fields. -/
def all : List ConfigField :=
  [.width, .height, .size, .movementPerTurn, .handSize, .seed, .player, .npcs, .obstacles]

def name : ConfigField → String
  | .width => "width"
  | .height => "height"
  | .size => "tile_size"
  | .movementPerTurn => "movement_per_turn"
  | .handSize => "hand_size"
  | .seed => "seed"
  | .player => "player"
  | .npcs => "npcs"
  | .obstacles => "obstacles"

def Value : ConfigField → Type
  | .width | .height | .movementPerTurn | .handSize => Nat
  | .size => Single
  | .seed => Option UInt64
  | .player => Coord
  | .npcs | .obstacles => List Coord

def get : (f : ConfigField) → BattleConfig → f.Value
  | .width => BattleConfig.width
  | .height => BattleConfig.height
  | .size => BattleConfig.size
  | .movementPerTurn => BattleConfig.movementPerTurn
  | .handSize => BattleConfig.handSize
  | .seed => BattleConfig.seed
  | .player => BattleConfig.player
  | .npcs => BattleConfig.npcs
  | .obstacles => BattleConfig.obstacles

def set (b : BattleConfig) : (f : ConfigField) → f.Value → BattleConfig
  | .width, n => { b with width := n }
  | .height, n => { b with height := n }
  | .size, s => { b with size := s }
  | .movementPerTurn, n => { b with movementPerTurn := n }
  | .handSize, n => { b with handSize := n }
  | .seed, s => { b with seed := s }
  | .player, c => { b with player := c }
  | .npcs, cs => { b with npcs := cs }
  | .obstacles, cs => { b with obstacles := cs }

/-- Which JSON values are of the type of a field, and what each of them stands for. -/
def Denotes : (f : ConfigField) → Json → f.Value → Prop
  | .width, j, (n : Nat) | .height, j, (n : Nat) | .movementPerTurn, j, (n : Nat) =>
    j = .int n ∧ n ≤ 4294967295
  | .handSize, j, (n : Nat) => j = .int n ∧ n ≤ 18446744073709551615
  | .size, j, s => j.Measures s
  | .seed, j, none => j = .null
  | .seed, j, some n => j = .int n.toNat
  | .player, j, c => j.Places c
  | .npcs, j, cs | .obstacles, j, cs =>
    ∃ elements, j = .array elements ∧ List.Forall₂ Json.Places elements cs

section

variable {b c : BattleConfig} {f g : ConfigField} {j : Json}

theorem get_set_self (b : BattleConfig) (f : ConfigField) (v : f.Value) : f.get (f.set b v) = v := by
  cases f <;> rfl

theorem get_set_of_ne (h : g ≠ f) (b : BattleConfig) (v : f.Value) : g.get (f.set b v) = g.get b := by
  cases f <;> cases g <;> first | rfl | exact absurd rfl h

/-- The fields are all that there is to a setup. -/
theorem ext_get (h : ∀ f : ConfigField, f.get b = f.get c) : b = c := by
  cases b
  cases c
  rw [BattleConfig.mk.injEq]
  exact ⟨h .width, h .height, h .size, h .movementPerTurn, h .handSize, h .seed, h .player, h .npcs,
    h .obstacles⟩

theorem name_inj (h : f.name = g.name) : f = g := by
  cases f <;> cases g <;> first | rfl | exact absurd h (by decide)

theorem mem_fieldNames_iff {name : String} :
    name ∈ BattleConfig.fieldNames ↔ ∃ f : ConfigField, name = f.name := by
  constructor
  · intro h
    simp only [BattleConfig.fieldNames, List.mem_cons, List.not_mem_nil, or_false] at h
    rcases h with h | h | h | h | h | h | h | h | h
    exacts [⟨.width, h⟩, ⟨.height, h⟩, ⟨.size, h⟩, ⟨.movementPerTurn, h⟩, ⟨.handSize, h⟩, ⟨.seed, h⟩,
      ⟨.player, h⟩, ⟨.npcs, h⟩, ⟨.obstacles, h⟩]
  · rintro ⟨f, rfl⟩
    cases f <;> decide

theorem setField?_of_notMem {name : String} (h : name ∉ BattleConfig.fieldNames) :
    b.setField? name j = none := by
  unfold BattleConfig.setField?
  split <;> first | rfl | exact absurd (by decide) h

/-- Null, or a number of 64 bits. -/
def seed? : Json → Option (Option UInt64)
  | .null => some none
  | j => (j.natUpTo? 18446744073709551615).map fun n => some (UInt64.ofNat n)

theorem seed?_eq_none_iff : seed? j = some none ↔ j = .null := by
  cases j <;> simp [seed?]

theorem seed?_eq_some_iff {n : UInt64} : seed? j = some (some n) ↔ j = .int n.toNat := by
  have hword : seed? j = some (some n) ↔
      ∃ k, j.natUpTo? 18446744073709551615 = some k ∧ UInt64.ofNat k = n := by
    cases j <;> simp [seed?, Json.natUpTo?]
  rw [hword]
  constructor
  · rintro ⟨k, hk, rfl⟩
    obtain ⟨rfl, hle⟩ := Json.natUpTo?_eq_some_iff.mp hk
    rw [UInt64.toNat_ofNat_of_lt' (by change k < 18446744073709551616; omega)]
  · rintro rfl
    have hlt := n.toNat_lt
    exact ⟨n.toNat, Json.natUpTo?_eq_some_iff.mpr ⟨rfl, by omega⟩, UInt64.ofNat_toNat⟩

/-- The value that is read for a field, if there is one. -/
def read? : (f : ConfigField) → Json → Option f.Value
  | .width, j | .height, j | .movementPerTurn, j => j.natUpTo? 4294967295
  | .handSize, j => j.natUpTo? 18446744073709551615
  | .size, j => Single.ofJson? j
  | .seed, j => seed? j
  | .player, j => JsonForm.ofJson? (α := Coord) j
  | .npcs, j | .obstacles, j => JsonForm.ofJson? (α := List Coord) j

theorem setField?_name (b : BattleConfig) (f : ConfigField) (j : Json) :
    b.setField? f.name j = (f.read? j).map (f.set b) := by
  cases f with
  | seed => cases j <;> rfl
  | _ => rfl

theorem read?_eq_some_iff {v : f.Value} : f.read? j = some v ↔ f.Denotes j v := by
  cases f with
  | width | height | movementPerTurn | handSize => exact Json.natUpTo?_eq_some_iff
  | size => exact Single.ofJson?_eq_some_iff
  | seed =>
    cases v with
    | none => exact seed?_eq_none_iff
    | some n => exact seed?_eq_some_iff
  | player => exact JsonForm.coord_eq_some_iff
  | npcs | obstacles =>
    refine JsonForm.list_eq_some_iff.trans ?_
    simp only [JsonForm.coord_eq_some_iff]
    exact Iff.rfl

/-- A value is taken for a field if it is of its type, and then it is all that changes. -/
theorem setField?_eq_some_iff :
    b.setField? f.name j = some c ↔ ∃ v, f.Denotes j v ∧ c = f.set b v := by
  rw [setField?_name, Option.map_eq_some_iff]
  simp only [read?_eq_some_iff, eq_comm (b := c)]

end

end ConfigField

/-! ### Setups from named values -/

namespace BattleConfig

variable {b c : BattleConfig} {named : List (ConfigField × Json)} {members : List (String × Json)}
  {seen : List String}

/-- The members of an object that names fields. -/
def written (named : List (ConfigField × Json)) : List (String × Json) :=
  named.map fun m => (m.1.name, m.2)

/-- A setup with the values that are named, and with those of another one for all other fields. -/
structure Overrides (b : BattleConfig) (named : List (ConfigField × Json)) (c : BattleConfig) :
    Prop where
  taken : ∀ m ∈ named, m.1.Denotes m.2 (m.1.get c)
  kept : ∀ f : ConfigField, (∀ m ∈ named, m.1 ≠ f) → f.get c = f.get b

theorem overrides_nil_iff : b.Overrides [] c ↔ c = b := by
  constructor
  · exact fun h => ConfigField.ext_get fun f => h.kept f (by simp)
  · rintro rfl
    exact ⟨by simp, fun _ _ => rfl⟩

/-- One value more, for a field that the others do not name. -/
theorem overrides_cons_iff {f : ConfigField} {j : Json} (hnew : ∀ m ∈ named, m.1 ≠ f) :
    b.Overrides ((f, j) :: named) c ↔
      ∃ v, f.Denotes j v ∧ (f.set b v).Overrides named c := by
  constructor
  · intro h
    refine ⟨f.get c, h.taken (f, j) (by simp), fun m hm => h.taken m (by simp [hm]), fun g hg => ?_⟩
    by_cases hgf : g = f
    · rw [hgf, ConfigField.get_set_self]
    · rw [ConfigField.get_set_of_ne hgf]
      exact h.kept g (List.forall_mem_cons.mpr ⟨Ne.symm hgf, hg⟩)
  · rintro ⟨v, hv, h⟩
    have hvalue : f.get c = v := (h.kept f hnew).trans (ConfigField.get_set_self b f v)
    refine ⟨List.forall_mem_cons.mpr ⟨by rwa [hvalue], h.taken⟩, fun g hg => ?_⟩
    obtain ⟨hgf, hg⟩ := List.forall_mem_cons.mp hg
    rw [h.kept g hg, ConfigField.get_set_of_ne (Ne.symm hgf)]

/-- Named values are read if each is of the type of a field, and no field is named twice. -/
theorem setFields?_eq_some_iff : b.setFields? seen members = some c ↔
    ∃ named, members = written named ∧ (named.map Prod.fst).Nodup ∧
      (∀ m ∈ named, m.1.name ∉ seen) ∧ b.Overrides named c := by
  induction members generalizing b seen with
  | nil =>
    simp only [setFields?, Option.some.injEq, written, List.nil_eq, List.map_eq_nil_iff,
      exists_eq_left, overrides_nil_iff]
    simp [eq_comm]
  | cons member rest ih =>
    obtain ⟨name, j⟩ := member
    rw [setFields?]
    constructor
    · intro h
      split at h
      · cases h
      · rename_i hunseen
        cases hnext : b.setField? name j with
        | none => simp [hnext] at h
        | some next =>
          obtain ⟨f, rfl⟩ : ∃ f : ConfigField, name = f.name := by
            rw [← ConfigField.mem_fieldNames_iff]
            by_contra hunknown
            simp [ConfigField.setField?_of_notMem hunknown] at hnext
          obtain ⟨v, hv, rfl⟩ := ConfigField.setField?_eq_some_iff.mp hnext
          rw [hnext] at h
          obtain ⟨named, rfl, hnodup, hothers, hoverrides⟩ := ih.mp h
          have hnew : ∀ m ∈ named, m.1 ≠ f := by
            rintro m hm rfl
            exact hothers m hm List.mem_cons_self
          refine ⟨(f, j) :: named, rfl, ?_, ?_, (overrides_cons_iff hnew).mpr ⟨v, hv, hoverrides⟩⟩
          · rw [List.map_cons, List.nodup_cons, List.mem_map]
            exact ⟨fun ⟨m, hm, hf⟩ => hnew m hm hf, hnodup⟩
          · exact List.forall_mem_cons.mpr
              ⟨hunseen, fun m hm hmem => hothers m hm (List.mem_cons_of_mem _ hmem)⟩
    · rintro ⟨named, hwritten, hnodup, hunseen, hoverrides⟩
      cases named with
      | nil => cases hwritten
      | cons m named =>
        obtain ⟨f, j'⟩ := m
        obtain ⟨hmember, rfl⟩ := List.cons_eq_cons.mp hwritten
        obtain ⟨rfl, rfl⟩ := Prod.mk.inj hmember
        obtain ⟨hfresh, hothers⟩ := List.forall_mem_cons.mp hunseen
        rw [List.map_cons, List.nodup_cons, List.mem_map] at hnodup
        have hnew : ∀ m ∈ named, m.1 ≠ f := fun m hm hf => hnodup.1 ⟨m, hm, hf⟩
        obtain ⟨v, hv, hrest⟩ := (overrides_cons_iff hnew).mp hoverrides
        have hset : b.setField? f.name j = some (f.set b v) :=
          ConfigField.setField?_eq_some_iff.mpr ⟨v, hv, rfl⟩
        rw [if_neg hfresh, hset]
        refine ih.mpr ⟨named, rfl, hnodup.2, fun m hm hmem => ?_, hrest⟩
        obtain hsame | hmem := List.mem_cons.mp hmem
        · exact hnew m hm (ConfigField.name_inj hsame)
        · exact hothers m hm hmem

theorem ofJson?_object_iff : ofJson? (.object members) = some c ↔
    ∃ named, members = written named ∧ (named.map Prod.fst).Nodup ∧ standard.Overrides named c := by
  rw [ofJson?, setFields?_eq_some_iff]
  simp

/-- Values of the types of their fields can all be had at once. -/
theorem exists_overrides (b : BattleConfig) (hnodup : (named.map Prod.fst).Nodup)
    (htyped : ∀ m ∈ named, ∃ v, m.1.Denotes m.2 v) : ∃ c, b.Overrides named c := by
  induction named generalizing b with
  | nil => exact ⟨b, overrides_nil_iff.mpr rfl⟩
  | cons m named ih =>
    obtain ⟨f, j⟩ := m
    obtain ⟨⟨v, hv⟩, hothers⟩ := List.forall_mem_cons.mp htyped
    rw [List.map_cons, List.nodup_cons, List.mem_map] at hnodup
    obtain ⟨c, hc⟩ := ih (f.set b v) hnodup.2 hothers
    exact ⟨c, (overrides_cons_iff fun m hm hf => hnodup.1 ⟨m, hm, hf⟩).mpr ⟨v, hv, hc⟩⟩

/-- Names are of fields and are told apart as the fields are. -/
theorem map_fst_written (named : List (ConfigField × Json)) :
    (written named).map Prod.fst = (named.map Prod.fst).map ConfigField.name := by
  simp [written]

theorem nodup_names (hnodup : (named.map Prod.fst).Nodup) :
    ((written named).map Prod.fst).Nodup := by
  rw [map_fst_written]
  exact hnodup.map fun _ _ => ConfigField.name_inj

/-- An array is an object that names the first fields. -/
theorem ofJson?_array {values : List Json} (h : values.length ≤ 9) :
    ofJson? (.array values) = ofJson? (.object (written (ConfigField.all.zip values))) := by
  have hnames : fieldNames = ConfigField.all.map ConfigField.name := rfl
  have hlength : values.length ≤ fieldNames.length := h
  have hwritten : fieldNames.zip values = written (ConfigField.all.zip values) := by
    rw [hnames, List.zip_map_left]
    rfl
  simp only [ofJson?, if_pos hlength, hwritten]

theorem nodup_first (values : List Json) :
    ((ConfigField.all.zip values).map Prod.fst).Nodup := by
  have hall : ConfigField.all.Nodup := by decide
  rw [List.zip_eq_zip_take_min, List.map_fst_zip (by simp)]
  exact hall.sublist (List.take_sublist _ _)

/-- A setup names what differs from the standard one. An object that names fields, each once and with a
value of its type, in any order, reads as the one setup that has the values named and is the standard
one otherwise. An object with another name in it or a name twice is not read. An array reads as the
object that names the first fields in order, and is not read if it is longer than there are fields. -/
theorem partial_setups :
    (∀ named : List (ConfigField × Json), (named.map Prod.fst).Nodup →
      (∀ m ∈ named, ∃ v, m.1.Denotes m.2 v) →
        ∃ c, ofJson? (.object (written named)) = some c ∧ standard.Overrides named c ∧
          ∀ c', standard.Overrides named c' → c' = c) ∧
    (∀ members : List (String × Json),
      (∃ m ∈ members, ∀ f : ConfigField, m.1 ≠ f.name) ∨ ¬ (members.map Prod.fst).Nodup →
        ofJson? (.object members) = none) ∧
    (∀ values : List Json, values.length ≤ 9 →
      (∀ m ∈ ConfigField.all.zip values, ∃ v, m.1.Denotes m.2 v) →
        ∃ c, ofJson? (.array values) = some c ∧
          ofJson? (.object (written (ConfigField.all.zip values))) = some c ∧
          standard.Overrides (ConfigField.all.zip values) c) ∧
    ∀ values : List Json, 9 < values.length → ofJson? (.array values) = none := by
  refine ⟨fun named hnodup htyped => ?_, fun members hbad => ?_, fun values hshort htyped => ?_,
    fun values hlong => ?_⟩
  · obtain ⟨c, hc⟩ := exists_overrides standard hnodup htyped
    have hread : ∀ c', standard.Overrides named c' → ofJson? (.object (written named)) = some c' :=
      fun c' hc' => ofJson?_object_iff.mpr ⟨named, rfl, hnodup, hc'⟩
    exact ⟨c, hread c hc, hc, fun c' hc' => Option.some.inj ((hread c' hc').symm.trans (hread c hc))⟩
  · by_contra hread
    obtain ⟨c, hc⟩ := Option.ne_none_iff_exists'.mp hread
    obtain ⟨named, rfl, hnodup, -⟩ := ofJson?_object_iff.mp hc
    rcases hbad with ⟨m, hm, hunknown⟩ | hrepeated
    · obtain ⟨n, -, rfl⟩ := List.mem_map.mp hm
      exact hunknown n.1 rfl
    · exact hrepeated (nodup_names hnodup)
  · obtain ⟨c, hc⟩ := exists_overrides standard (nodup_first values) htyped
    have hread := ofJson?_object_iff.mpr ⟨_, rfl, nodup_first values, hc⟩
    exact ⟨c, (ofJson?_array hshort).trans hread, hread, hc⟩
  · have hlength : ¬ values.length ≤ fieldNames.length := by
      change ¬ values.length ≤ 9
      omega
    rw [ofJson?, if_neg hlength]

/-- Two places in their two forms, a seed that is null, and a width, in no order. -/
def threeNamed : List (ConfigField × Json) :=
  [(.npcs, .array [.array [.int 1, .int 2],
      .object [("y", .int 4), ("note", .null), ("x", .int 3)]]),
    (.seed, .null), (.width, .int 12)]

def threeNamedSetup : BattleConfig :=
  { standard with npcs := [⟨1, 2⟩, ⟨3, 4⟩], seed := none, width := 12 }

theorem threeNamed_overrides : standard.Overrides threeNamed threeNamedSetup where
  taken := by
    refine List.forall_mem_cons.mpr ⟨⟨_, rfl, .cons (.array ⟨1, 2⟩) (.cons (.object rfl rfl) .nil)⟩,
      List.forall_mem_cons.mpr ⟨rfl, List.forall_mem_singleton.mpr ⟨rfl, ?_⟩⟩⟩
    exact (by decide : 12 ≤ 4294967295)
  kept := by
    intro f hf
    cases f with
    | npcs => exact absurd rfl (hf _ List.mem_cons_self)
    | seed => exact absurd rfl (hf _ (List.mem_cons_of_mem _ List.mem_cons_self))
    | width => exact absurd rfl (hf (.width, .int 12) (by simp [threeNamed]))
    | _ => rfl

theorem partial_setups_three_named :
    ofJson? (.object (written threeNamed)) = some threeNamedSetup ∧
      ofJson? (.object [("width", .int 12), ("colour", .null)]) = none ∧
      ofJson? (.object [("width", .int 12), ("seed", .null), ("width", .int 12)]) = none ∧
      (∃ c, ofJson? (.array [.int 12, .int 5]) = some c ∧ c.width = 12 ∧ c.height = 5) ∧
      ofJson? (.array (List.replicate 10 .null)) = none := by
  obtain ⟨hobject, hbad, harray, hlong⟩ := partial_setups
  obtain ⟨c, hread, -, hunique⟩ := hobject threeNamed (by decide) fun m hm =>
    ⟨_, threeNamed_overrides.taken m hm⟩
  obtain ⟨c', hread', -, hc'⟩ := harray [.int 12, .int 5] (by decide)
    (List.forall_mem_cons.mpr ⟨⟨(12 : Nat), rfl, by decide⟩,
      List.forall_mem_singleton.mpr ⟨(5 : Nat), rfl, by decide⟩⟩)
  have hwidth := hc'.taken (.width, .int 12) (by simp [ConfigField.all])
  have hheight := hc'.taken (.height, .int 5) (by simp [ConfigField.all])
  have hunknown : ∀ f : ConfigField, "colour" ≠ f.name := fun f => by cases f <;> decide
  refine ⟨?_, hbad _ (.inl ⟨("colour", .null), by simp, hunknown⟩), hbad _ (.inr (by decide)),
    ⟨c', hread', ?_, ?_⟩, hlong _ (by decide)⟩
  · rw [hread, hunique _ threeNamed_overrides]
  · exact Int.ofNat.inj (Json.int.inj hwidth.1).symm
  · exact Int.ofNat.inj (Json.int.inj hheight.1).symm

end BattleConfig

end HexSkirmish
