import HexSkirmish.Proofs.Commands
import HexSkirmish.Wander

/-! Planning against one state of the world is as good as moving one after the other. The tiles that
a plan withholds and releases follow the obstacles of the world through every prefix of its moves,
and so every actor finds the choices that it would find if it looked when its turn comes. Even where
actors share tiles, which arbitrary writes of costs allow, no planned move is ever rejected. -/

namespace HexSkirmish

namespace Generator

theorem below_lt {n : Nat} (hn : 0 < n) (attempts : Nat) (g : Generator) :
    (below n attempts g).1 < n := by
  have hword : ∀ w : UInt32, w.toNat * n / 4294967296 < n := fun w =>
    Nat.div_lt_of_lt_mul (Nat.mul_lt_mul_of_pos_right w.toNat_lt hn)
  induction attempts generalizing g with
  | zero => exact hword _
  | succ attempts ih =>
    simp only [below]
    split
    · exact hword _
    · exact ih _

theorem choose_eq_none_iff {α : Type} {xs : List α} {g : Generator} :
    (g.choose xs).1 = none ↔ xs = [] := by
  cases xs with
  | nil => simp [choose]
  | cons x rest =>
    have hlt := below_lt (n := (x :: rest).length) (by simp) attemptLimit g
    simp only [choose, List.isEmpty_cons, Bool.false_eq_true, if_false, reduceCtorEq, iff_false]
    rw [List.getElem?_eq_getElem hlt]
    exact Option.some_ne_none _

theorem mem_of_choose {α : Type} {xs : List α} {x : α} {g g' : Generator}
    (h : g.choose xs = (some x, g')) : x ∈ xs := by
  simp only [choose] at h
  split at h
  · cases h
  · exact List.mem_of_getElem? (Prod.mk.inj h).1

end Generator

namespace Wander

variable {w v : World} {r : Reservations} {g : Generator} {npc : Actor} {later : List Actor}
  {goal c : Coord}

theorem mem_candidates {l : Layout} {blocked : Coord → Bool} :
    goal ∈ candidates l c blocked ↔ (∃ d, l.neighbor? c d = some goal) ∧ blocked goal = false := by
  simp [candidates, Layout.mem_neighbors]

theorem blocks_cons : Reservations.blocks ⟨goal :: r.claimed, npc.coord :: r.vacated⟩ w c =
    (decide (c = goal) || (decide (c ∈ r.claimed) ||
      (w.grid.isObstacle c && !decide (c = npc.coord) && !decide (c ∈ r.vacated)))) := by
  simp [Reservations.blocks, Bool.or_assoc, Bool.and_assoc, not_or, Bool.decide_or]

theorem planFor_nil : planFor w r g [] = ([], g) := rfl

theorem planFor_cons : planFor w r g (npc :: later) =
    match chooseStep (candidates w.grid.layout npc.coord (r.blocks w)) g with
    | (some goal, g) =>
      (.move npc.id goal (some .attackable) ::
          (planFor w ⟨goal :: r.claimed, npc.coord :: r.vacated⟩ g later).1,
        (planFor w ⟨goal :: r.claimed, npc.coord :: r.vacated⟩ g later).2)
    | (none, g) => planFor w r g later := by
  rfl

theorem mem_planFor {command : Command} (h : command ∈ (planFor w r g later).1) :
    ∃ npc ∈ later, ∃ goal, command = .move npc.id goal (some .attackable) := by
  induction later generalizing r g with
  | nil => cases h
  | cons npc later ih =>
    have hlater : ∀ r g, command ∈ (planFor w r g later).1 →
        ∃ b ∈ npc :: later, ∃ goal, command = .move b.id goal (some .attackable) := by
      intro r g h
      obtain ⟨b, hb, hgoal⟩ := ih h
      exact ⟨b, List.mem_cons_of_mem _ hb, hgoal⟩
    rw [planFor_cons] at h
    split at h
    · rcases List.mem_cons.mp h with rfl | h
      · exact ⟨npc, by simp, _, rfl⟩
      · exact hlater _ _ h
    · exact hlater _ _ h

/-! ### Plans are honoured -/

/-- While a plan made on `w` is carried out and the world is `v`, what the plan does not withhold
is free. -/
structure Follows (w : World) (r : Reservations) (later : List Actor) (v : World) : Prop where
  sound : v.Sound
  layout : v.grid.layout = w.grid.layout
  ids : (v.actors.map (·.id)).Nodup
  pending : ∀ npc ∈ later, npc ∈ v.actors
  distinct : (later.map (·.id)).Nodup
  free : ∀ c, w.grid.contains c = true → r.blocks w c = false → v.grid.isObstacle c = false

theorem Follows.first (h : w.Sound) (hids : (w.actors.map (·.id)).Nodup) :
    Follows w ⟨[], []⟩ (w.ofKind .npc) w where
  sound := h
  layout := rfl
  ids := hids
  pending := fun _ hnpc => (h.numbered.ofKind_sublist .npc).subset hnpc
  distinct := hids.sublist ((h.numbered.ofKind_sublist .npc).map _)
  free := fun _ _ hc => by simpa [Reservations.blocks] using hc

theorem Follows.skip (h : Follows w r (npc :: later) v) : Follows w r later v where
  sound := h.sound
  layout := h.layout
  ids := h.ids
  pending := fun b hb => h.pending b (List.mem_cons_of_mem _ hb)
  distinct := (List.nodup_cons.mp h.distinct).2
  free := h.free

/-- A neighbour that is not withheld can be entered, and is one step away. -/
theorem Follows.admits (h : Follows w r (npc :: later) v)
    (hgoal : goal ∈ candidates w.grid.layout npc.coord (r.blocks w)) :
    v.Admits npc goal ∧ (v.grid.route npc.coord goal).length = 1 := by
  obtain ⟨⟨d, hd⟩, hfree⟩ := mem_candidates.mp hgoal
  have hmem := h.pending npc (by simp)
  have hopen := h.free goal (Layout.neighbor?_contains hd) hfree
  obtain ⟨t, ht⟩ := Grid.route_neighbor h.sound.current (h.sound.inside npc hmem)
    (h.layout ▸ hd) hopen
  exact ⟨⟨World.actor?_of_mem h.ids hmem, Layout.neighbor?_ne hd, hopen, by rw [ht]; rfl⟩,
    by rw [ht]; rfl⟩

/-- After the move the tiles that the plan takes and leaves account for what has changed. -/
theorem Follows.step (h : Follows w r (npc :: later) v) {v' : World}
    (hv : World.Moved v npc goal v') (hgoal : v.grid.contains goal = true) :
    Follows w ⟨goal :: r.claimed, npc.coord :: r.vacated⟩ later v' where
  sound := h.sound.moved hgoal hv
  layout := hv.layout.trans h.layout
  ids := by rw [hv.actors, World.relocate_ids]; exact h.ids
  pending := by
    intro b hb
    rw [hv.actors]
    apply World.mem_relocate_of_ne (h.pending b (List.mem_cons_of_mem _ hb))
    rintro he
    exact (List.nodup_cons.mp h.distinct).1 (List.mem_map.mpr ⟨b, hb, he⟩)
  distinct := (List.nodup_cons.mp h.distinct).2
  free := by
    intro c hin hblocks
    rw [blocks_cons] at hblocks
    simp only [Bool.or_eq_false_iff, decide_eq_false_iff_not] at hblocks
    obtain ⟨hc, hclaimed, hrest⟩ := hblocks
    by_cases horigin : c = npc.coord
    · rw [horigin]
      exact hv.isObstacle_origin (h.sound.inside npc (h.pending npc (by simp)))
    · rw [hv.isObstacle_other horigin hc]
      apply h.free c hin
      simp only [Reservations.blocks, hclaimed, decide_false, Bool.false_or]
      simpa [horigin] using hrest

/-- Events of a plan are changes of highlights and single steps of those it is made for. -/
def Accountable (npcs : List Actor) (event : Event) : Prop :=
  (∃ c e, event = .effectChanged c e) ∨
    ∃ npc ∈ npcs, ∃ goal route, event = .moved npc.id npc.coord goal route ∧ route.length = 1

theorem Accountable.mono {npcs more : List Actor} {event : Event} (h : Accountable npcs event)
    (hsub : npcs ⊆ more) : Accountable more event := by
  rcases h with hchange | ⟨npc, hnpc, hstep⟩
  · exact .inl hchange
  · exact .inr ⟨npc, hsub hnpc, hstep⟩

/-- Every command of a plan is carried out when its turn comes. -/
theorem planFor_honoured (h : Follows w r later v) (g : Generator) :
    (v.applyAll (planFor w r g later).1).2.filterMap Event.arrival? =
        (planFor w r g later).1.filterMap Command.order? ∧
      ∀ event ∈ (v.applyAll (planFor w r g later).1).2, Accountable later event := by
  induction later generalizing r g v with
  | nil => simp [planFor_nil]
  | cons npc later ih =>
    have hmore : ∀ event, Accountable later event → Accountable (npc :: later) event :=
      fun _ h => h.mono (List.subset_cons_self _ _)
    rw [planFor_cons]
    split
    · rename_i goal g' hchoose
      obtain ⟨hadmits, hlength⟩ := h.admits (Generator.mem_of_choose hchoose)
      have hmoved := hadmits.moved (some .attackable)
      obtain ⟨hlater, hkinds⟩ :=
        ih (h.step hmoved (Grid.contains_of_free hadmits.free)) g'
      obtain ⟨changes, hevents, hchanges⟩ := hadmits.move_events (some .attackable)
      have hnone := World.arrivals_eq_nil fun event hevent => by
        obtain ⟨_, _, rfl⟩ := hchanges.1 event hevent
        rfl
      rw [World.applyAll_cons, World.apply, hevents]
      constructor
      · simp [List.filterMap_append, hnone, hlater, Event.arrival?, Command.order?]
      · intro event hevent
        simp only [List.mem_append, List.mem_singleton] at hevent
        rcases hevent with (hevent | rfl) | hevent
        · exact .inl (hchanges.1 event hevent)
        · exact .inr ⟨npc, by simp, goal, _, rfl, hlength⟩
        · exact hmore event (hkinds event hevent)
    · rename_i g' _
      obtain ⟨hlater, hkinds⟩ := ih h.skip g'
      exact ⟨hlater, fun event hevent => hmore event (hkinds event hevent)⟩

/-- No actor is moved twice, and they move in order. -/
theorem planFor_movers (w : World) (r : Reservations) (g : Generator) (later : List Actor) :
    (((planFor w r g later).1.filterMap Command.order?).map Prod.fst).Sublist
      (later.map (·.id)) := by
  induction later generalizing r g with
  | nil => simp [planFor_nil]
  | cons npc later ih =>
    rw [planFor_cons]
    split
    · simpa [Command.order?] using ih _ _
    · exact (ih _ _).trans (List.sublist_cons_self _ _)

end Wander

end HexSkirmish
