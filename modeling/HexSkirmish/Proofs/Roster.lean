import HexSkirmish.World
import Mathlib.Data.List.Nodup

/-! The list of actors. An actor's number is its place in the order of placement, as long as numbers
last, so the roster is the list itself; and to relocate an actor is to change one entry, the one
that is found by its number. -/

namespace HexSkirmish

namespace ActorId

theorem next_toNat (i : ActorId) : i.next.number.toNat = min (i.number.toNat + 1) countMax := by
  have hlt : min (i.number.toNat + 1) countMax < 2 ^ 32 := by
    simp only [countMax]
    omega
  simp [next, UInt32.toNat_ofNat_of_lt' hlt]

end ActorId

namespace World

variable {w : World} {a b : Actor} {id : ActorId} {goal : Coord}

/-! ### Numbers -/

/-- Actors are numbered as they are placed. From the greatest number on they all have it. -/
structure Numbered (w : World) : Prop where
  numbers : w.actors.map (·.id.number.toNat) =
    (List.range w.actors.length).map fun k => min k countMax
  next : w.nextId.number.toNat = min w.actors.length countMax

theorem Numbered.vacant (l : Layout) : (vacant l).Numbered := ⟨rfl, rfl⟩

theorem Numbered.ascending (h : w.Numbered) :
    w.actors.Pairwise fun a b => a.id.number.toNat ≤ b.id.number.toNat := by
  rw [← List.pairwise_map (R := (· ≤ ·)) (f := fun a : Actor => a.id.number.toNat), h.numbers,
    List.pairwise_map]
  exact List.pairwise_lt_range.imp fun hlt => by omega

/-- As long as numbers last, they are the places in the list. -/
theorem Numbered.numbers_eq (h : w.Numbered) (hlen : w.actors.length ≤ countMax + 1) :
    w.actors.map (·.id.number.toNat) = List.range w.actors.length := by
  rw [h.numbers]
  conv_rhs => rw [← List.map_id (List.range w.actors.length)]
  refine List.map_congr_left fun k hk => ?_
  have := List.mem_range.mp hk
  simp only [id]
  omega

theorem Numbered.ids_nodup (h : w.Numbered) (hlen : w.actors.length ≤ countMax + 1) :
    (w.actors.map (·.id)).Nodup := by
  apply List.Nodup.of_map fun i : ActorId => i.number.toNat
  rw [List.map_map]
  change (w.actors.map (·.id.number.toNat)).Nodup
  rw [h.numbers_eq hlen]
  exact List.nodup_range

theorem Numbered.place (h : w.Numbered) {v : World} {kind : ActorKind} {c : Coord}
    (hactors : v.actors = w.actors ++ [⟨w.nextId, kind, c⟩]) (hnext : v.nextId = w.nextId.next) :
    v.Numbered where
  numbers := by
    rw [hactors, List.map_append, h.numbers, List.length_append, List.length_singleton,
      List.range_succ, List.map_append]
    simp [h.next]
  next := by
    rw [hnext, ActorId.next_toNat, h.next, hactors, List.length_append, List.length_singleton]
    omega

theorem Numbered.of_ids (h : w.Numbered) {v : World}
    (hids : v.actors.map (·.id) = w.actors.map (·.id)) (hnext : v.nextId = w.nextId) :
    v.Numbered := by
  have hlen : v.actors.length = w.actors.length := by simpa using congrArg List.length hids
  have hnum := congrArg (List.map fun i : ActorId => i.number.toNat) hids
  rw [List.map_map, List.map_map] at hnum
  exact ⟨by rw [hlen, ← h.numbers]; exact hnum, by rw [hnext, hlen, h.next]⟩

/-! ### The roster -/

theorem foldr_insertByNumber {actors : List Actor}
    (h : actors.Pairwise fun a b => a.id.number.toNat ≤ b.id.number.toNat) :
    actors.foldr insertByNumber [] = actors := by
  induction h with
  | nil => rfl
  | @cons a rest hle _ ih =>
    rw [List.foldr_cons, ih]
    cases rest with
    | nil => rfl
    | cons b rest =>
      have : a.id.number ≤ b.id.number := UInt32.le_iff_toNat_le.mpr (hle b (by simp))
      simp [insertByNumber, this]

theorem Numbered.roster (h : w.Numbered) : w.roster = w.actors := foldr_insertByNumber h.ascending

theorem Numbered.ofKind_sublist (h : w.Numbered) (kind : ActorKind) :
    (w.ofKind kind).Sublist w.actors := by
  rw [ofKind, h.roster]
  exact List.filter_sublist

theorem Numbered.mem_of_player? (h : w.Numbered) (ha : w.player? = some a) : a ∈ w.actors := by
  rw [player?, h.roster] at ha
  exact List.mem_of_find?_eq_some ha

/-! ### One actor among the others -/

theorem relocate_append {before after : List Actor} (hbefore : ∀ b ∈ before, b.id ≠ id)
    (hid : a.id = id) :
    relocate id goal (before ++ a :: after) = before ++ { a with coord := goal } :: after := by
  induction before with
  | nil => simp [relocate, hid]
  | cons b before ih =>
    have hb := hbefore b (by simp)
    have hrest := ih fun b' hb' => hbefore b' (List.mem_cons_of_mem _ hb')
    simp [relocate, hb, hrest]

/-- What tells all actors apart tells one of them from the others. -/
theorem nodup_map_middle {α : Type} {f : Actor → α} {before after : List Actor} :
    ((before ++ a :: after).map f).Nodup ↔
      (∀ b ∈ before ++ after, f b ≠ f a) ∧ ((before ++ after).map f).Nodup := by
  rw [List.map_append, List.map_cons, List.nodup_middle, ← List.map_append, List.nodup_cons,
    List.mem_map, not_exists]
  simp only [not_and, ne_eq]

/-- The actor that a number finds, with those before it, which have other numbers, and after it. -/
theorem actor?_split (h : w.actor? id = some a) :
    ∃ before after, w.actors = before ++ a :: after ∧ a.id = id ∧ ∀ b ∈ before, b.id ≠ id := by
  simp only [actor?] at h
  obtain ⟨hid, before, after, hsplit, hbefore⟩ := List.find?_eq_some_iff_append.mp h
  exact ⟨before, after, hsplit, by simpa using hid, fun b hb => by simpa using hbefore b hb⟩

theorem id_of_actor? (h : w.actor? id = some a) : a.id = id := by
  obtain ⟨_, _, _, hid, _⟩ := actor?_split h
  exact hid

/-- With distinct numbers every actor is found by its own. -/
theorem actor?_of_mem (hids : (w.actors.map (·.id)).Nodup) (ha : a ∈ w.actors) :
    w.actor? a.id = some a := by
  obtain ⟨before, after, hsplit⟩ := List.append_of_mem ha
  rw [hsplit, List.map_append, List.map_cons, List.nodup_append] at hids
  rw [actor?, List.find?_eq_some_iff_append]
  refine ⟨by simp, before, after, hsplit, fun b hb => ?_⟩
  have := hids.2.2 b.id (List.mem_map_of_mem hb) a.id (by simp)
  simpa using this

theorem mem_relocate {actors : List Actor} (h : b ∈ relocate id goal actors) :
    b ∈ actors ∨ b.coord = goal := by
  induction actors with
  | nil => cases h
  | cons a rest ih =>
    simp only [relocate] at h
    split at h
    · rcases List.mem_cons.mp h with rfl | h
      · exact .inr rfl
      · exact .inl (List.mem_cons_of_mem _ h)
    · rcases List.mem_cons.mp h with rfl | h
      · exact .inl (by simp)
      · exact (ih h).imp_left (List.mem_cons_of_mem _)

/-- Nobody else is affected. -/
theorem mem_relocate_of_ne {actors : List Actor} (hb : b ∈ actors) (hne : b.id ≠ id) :
    b ∈ relocate id goal actors := by
  induction actors with
  | nil => cases hb
  | cons a rest ih =>
    unfold relocate
    split
    · rcases List.mem_cons.mp hb with rfl | hb
      · contradiction
      · exact List.mem_cons_of_mem _ hb
    · rcases List.mem_cons.mp hb with rfl | hb
      · simp
      · exact List.mem_cons_of_mem _ (ih hb)

theorem find?_relocate_of_ne {other : ActorId} (h : other ≠ id) (actors : List Actor) :
    (relocate id goal actors).find? (·.id = other) = actors.find? (·.id = other) := by
  induction actors with
  | nil => rfl
  | cons a rest ih =>
    unfold relocate
    split
    · rename_i hid
      simp [hid, h.symm]
    · simp only [List.find?_cons, ih]

@[simp] theorem relocate_ids (actors : List Actor) :
    (relocate id goal actors).map (·.id) = actors.map (·.id) := by
  induction actors with
  | nil => rfl
  | cons a rest ih =>
    unfold relocate
    split <;> simp [ih]

@[simp] theorem relocate_kinds (actors : List Actor) :
    (relocate id goal actors).map (fun a => (a.id, a.kind)) =
      actors.map fun a => (a.id, a.kind) := by
  induction actors with
  | nil => rfl
  | cons a rest ih =>
    unfold relocate
    split <;> simp [ih]

end World

end HexSkirmish
