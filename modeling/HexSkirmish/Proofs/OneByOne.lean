import HexSkirmish.Proofs.Campaign

/-! Planning against one state of the world does what moving one by one does. In a world whose
actors have numbers and blocked tiles of their own, the tiles that a plan withholds are, after every
prefix of its moves, the blocked ones of the world as it is then. So each actor is offered the
choices that it would find if it looked when its turn comes, and draws the same words. -/

namespace HexSkirmish

theorem World.actor?_move_of_ne {w : World} {id other : ActorId} (h : other ≠ id) (goal : Coord)
    (tag : Option TileEffect) : (w.move id goal tag).1.actor? other = w.actor? other := by
  rcases move_cases w id goal tag with ⟨a, rfl, hadmits⟩ | ⟨_, _, halike⟩
  · rw [actor?, (hadmits.moved tag).actors, find?_relocate_of_ne h, actor?]
  · rw [actor?, halike.actors, actor?]

namespace Wander

variable {w v v' : World} {r : Reservations} {g : Generator} {npc : Actor} {later : List Actor}
  {id : ActorId} {ids : List ActorId} {goal c : Coord}

/-! ### Moving one by one -/

/-- What actors that move lead to: their commands, and the world, the events and the generator in
the end. -/
structure Outcome where
  commands : List Command
  world : World
  events : List Event
  generator : Generator

def Outcome.cons (command : Command) (events : List Event) (o : Outcome) : Outcome :=
  ⟨command :: o.commands, o.world, events ++ o.events, o.generator⟩

/-- Where an actor chooses to step in the world as it is. -/
def choice (w : World) (g : Generator) (id : ActorId) : Option Coord × Generator :=
  match w.actor? id with
  | some npc => chooseStep (candidates w.grid.layout npc.coord w.grid.isObstacle) g
  | none => (none, g)

/-- Each actor in turn chooses a step in the world as it is then, and takes it before the next one
chooses. -/
def oneByOne (w : World) (g : Generator) : List ActorId → Outcome
  | [] => ⟨[], w, [], g⟩
  | id :: later =>
    match choice w g id with
    | (some goal, g) =>
      (oneByOne (w.apply (.move id goal (some .attackable))).1 g later).cons
        (.move id goal (some .attackable)) (w.apply (.move id goal (some .attackable))).2
    | (none, g) => oneByOne w g later

theorem oneByOne_applyAll (w : World) (g : Generator) (ids : List ActorId) :
    w.applyAll (oneByOne w g ids).commands =
      ((oneByOne w g ids).world, (oneByOne w g ids).events) := by
  induction ids generalizing w g with
  | nil => rfl
  | cons id later ih =>
    rw [oneByOne]
    split
    · simp only [Outcome.cons, World.applyAll_cons, ih]
    · exact ih _ _

theorem mem_oneByOne {command : Command} (h : command ∈ (oneByOne w g ids).commands) :
    ∃ id ∈ ids, ∃ goal, command = .move id goal (some .attackable) := by
  induction ids generalizing w g with
  | nil => cases h
  | cons id later ih =>
    have hlater : ∀ w g, command ∈ (oneByOne w g later).commands →
        ∃ i ∈ id :: later, ∃ goal, command = .move i goal (some .attackable) := by
      intro w g hmem
      obtain ⟨i, hi, hcommand⟩ := ih hmem
      exact ⟨i, List.mem_cons_of_mem _ hi, hcommand⟩
    rw [oneByOne] at h
    split at h
    · rcases List.mem_cons.mp h with rfl | h
      · exact ⟨id, by simp, _, rfl⟩
      · exact hlater _ _ h
    · exact hlater _ _ h

/-- Those who wait stay where they are. -/
theorem oneByOne_actor? (h : id ∉ ids) : (oneByOne w g ids).world.actor? id = w.actor? id := by
  have hworld := congrArg Prod.fst (oneByOne_applyAll w g ids)
  rw [← show _ = (oneByOne w g ids).world from hworld]
  refine World.applyAll_invariant (P := fun v => v.actor? id = w.actor? id) rfl ?_
  intro v command hcommand hv
  obtain ⟨other, hother, goal, rfl⟩ := mem_oneByOne hcommand
  have hne : id ≠ other := fun e => h (e ▸ hother)
  rw [World.apply, World.actor?_move_of_ne hne, hv]

theorem oneByOne_append (w : World) (g : Generator) (first second : List ActorId) :
    (oneByOne w g (first ++ second)).commands = (oneByOne w g first).commands ++
      (oneByOne (oneByOne w g first).world (oneByOne w g first).generator second).commands := by
  induction first generalizing w g with
  | nil => rfl
  | cons id later ih =>
    rw [List.cons_append, oneByOne, oneByOne]
    split
    · simp only [Outcome.cons, ih, List.cons_append]
    · exact ih _ _

/-- An actor has nowhere to go if its neighbours lie off the board or are blocked. -/
theorem candidates_eq_nil : candidates v.grid.layout c v.grid.isObstacle = [] ↔
    ∀ d e, c.neighbor? d = some e →
      v.grid.contains e = false ∨ v.grid.cost? e = some Tile.blockedCost := by
  rw [List.eq_nil_iff_forall_not_mem]
  simp only [mem_candidates, not_and, forall_exists_index, Bool.not_eq_false]
  constructor
  · intro h d e hd
    rw [← Grid.isObstacle_iff]
    by_cases hin : v.grid.contains e = true
    · exact h e d (Option.filter_eq_some_iff.mpr ⟨hd, hin⟩)
    · exact Grid.isObstacle_iff.mpr (.inl (by simpa using hin))
  · intro h e d hd
    rw [Layout.neighbor?, Option.filter_eq_some_iff] at hd
    exact Grid.isObstacle_iff.mpr (h d e hd.1)

theorem not_mem_oneByOne (h : id ∉ ids) (tag : Option TileEffect) :
    .move id goal tag ∉ (oneByOne w g ids).commands := by
  intro hmem
  obtain ⟨other, hother, _, heq⟩ := mem_oneByOne hmem
  cases heq
  exact h hother

theorem oneByOne_idle_first (hfound : w.actor? npc.id = some npc) (hlater : npc.id ∉ ids) :
    (∀ goal tag, .move npc.id goal tag ∉ (oneByOne w g (npc.id :: ids)).commands) ↔
      candidates w.grid.layout npc.coord w.grid.isObstacle = [] := by
  have hchoice : choice w g npc.id =
      g.choose (candidates w.grid.layout npc.coord w.grid.isObstacle) := by
    rw [choice, hfound]
    rfl
  rw [oneByOne, ← Generator.choose_eq_none_iff (g := g), ← hchoice]
  split
  · rename_i goal _ hsome
    rw [hsome]
    simp only [reduceCtorEq, iff_false, not_forall, not_not]
    exact ⟨goal, some .attackable, by simp [Outcome.cons]⟩
  · rename_i hnone
    rw [hnone]
    simp [not_mem_oneByOne hlater]

/-- An actor makes no move exactly if it has nowhere to go when its turn comes. -/
theorem oneByOne_idle {before after : List ActorId} (hfound : w.actor? npc.id = some npc)
    (hids : (before ++ npc.id :: after).Nodup) :
    (∀ goal tag, .move npc.id goal tag ∉ (oneByOne w g (before ++ npc.id :: after)).commands) ↔
      candidates (oneByOne w g before).world.grid.layout npc.coord
        (oneByOne w g before).world.grid.isObstacle = [] := by
  obtain ⟨_, hrest, hapart⟩ := List.nodup_append.mp hids
  have hbefore : npc.id ∉ before := fun hmem => hapart _ hmem npc.id (by simp) rfl
  rw [oneByOne_append, ← oneByOne_idle_first (g := (oneByOne w g before).generator)
    ((oneByOne_actor? hbefore).trans hfound) (List.nodup_cons.mp hrest).1]
  simp [not_mem_oneByOne hbefore]

/-! ### The plan is the same -/

/-- While a plan made on `w` is carried out and the world is `v`, what the plan withholds is what is
blocked, and the actors to come stand on tiles of their own that nobody before them takes. -/
structure Mirrors (w : World) (r : Reservations) (later : List Actor) (v : World) : Prop
    extends Follows w r later v where
  exact : ∀ c, w.grid.contains c = true → v.grid.isObstacle c = r.blocks w c
  apart : (later.map (·.coord)).Nodup
  unclaimed : ∀ npc ∈ later, npc.coord ∉ r.claimed
  blocked : ∀ npc ∈ later, v.grid.isObstacle npc.coord = true

theorem Mirrors.skip (h : Mirrors w r (npc :: later) v) : Mirrors w r later v where
  toFollows := h.toFollows.skip
  exact := h.exact
  apart := (List.nodup_cons.mp h.apart).2
  unclaimed := fun b hb => h.unclaimed b (List.mem_cons_of_mem _ hb)
  blocked := fun b hb => h.blocked b (List.mem_cons_of_mem _ hb)

theorem Mirrors.step (h : Mirrors w r (npc :: later) v) (hadmits : v.Admits npc goal)
    (hv : World.Moved v npc goal v') :
    Mirrors w ⟨goal :: r.claimed, npc.coord :: r.vacated⟩ later v' := by
  have hin := Grid.contains_of_free hadmits.free
  have hne : ∀ b ∈ later, b.coord ≠ goal := by
    intro b hb e
    have := h.blocked b (List.mem_cons_of_mem _ hb)
    rw [e, hadmits.free] at this
    cases this
  have horigin : ∀ b ∈ later, b.coord ≠ npc.coord := fun b hb e =>
    (List.nodup_cons.mp h.apart).1 (List.mem_map.mpr ⟨b, hb, e⟩)
  refine ⟨h.toFollows.step hv hin, ?_, (List.nodup_cons.mp h.apart).2, ?_, ?_⟩
  · intro c hc
    rw [blocks_cons]
    by_cases hgoal : c = goal
    · subst hgoal
      simp [hv.isObstacle_goal hadmits.away hin]
    · by_cases hleft : c = npc.coord
      · subst hleft
        have := h.unclaimed npc (by simp)
        rw [hv.isObstacle_origin (h.sound.inside npc (h.pending npc (by simp)))]
        simp [hgoal, this]
      · rw [hv.isObstacle_other hleft hgoal, h.exact c hc]
        simp [Reservations.blocks, hgoal, hleft]
  · intro b hb
    simp only [List.mem_cons, not_or]
    exact ⟨hne b hb, h.unclaimed b (List.mem_cons_of_mem _ hb)⟩
  · intro b hb
    rw [hv.isObstacle_other (horigin b hb) (hne b hb)]
    exact h.blocked b (List.mem_cons_of_mem _ hb)

/-- The plan offers an actor what it would find itself. -/
theorem Mirrors.choice_eq (h : Mirrors w r (npc :: later) v) (g : Generator) :
    choice v g npc.id = chooseStep (candidates w.grid.layout npc.coord (r.blocks w)) g := by
  have hfound := World.actor?_of_mem h.ids (h.pending npc (by simp))
  have hoffers : candidates v.grid.layout npc.coord v.grid.isObstacle =
      candidates w.grid.layout npc.coord (r.blocks w) := by
    rw [candidates, candidates, h.layout]
    refine List.filter_congr fun c hc => ?_
    obtain ⟨d, hd⟩ := Layout.mem_neighbors.mp hc
    rw [h.exact c (Layout.neighbor?_contains hd)]
  rw [choice, hfound, ← hoffers]

theorem planFor_eq_oneByOne (h : Mirrors w r later v) (g : Generator) :
    planFor w r g later = ((oneByOne v g (later.map (·.id))).commands,
      (oneByOne v g (later.map (·.id))).generator) := by
  induction later generalizing r g v with
  | nil => rfl
  | cons npc later ih =>
    rw [planFor_cons, List.map_cons, oneByOne, h.choice_eq]
    rcases hchoose : chooseStep (candidates w.grid.layout npc.coord (r.blocks w)) g with
      ⟨_ | goal, g'⟩
    · exact ih h.skip g'
    · obtain ⟨hadmits, _⟩ := h.toFollows.admits (Generator.mem_of_choose hchoose)
      have hlater := ih (h.step hadmits (hadmits.moved (some .attackable))) g'
      simp only [hlater]
      rfl

theorem mirrors_of_standing (h : w.Sound) (hw : w.Standing) :
    Mirrors w ⟨[], []⟩ (w.ofKind .npc) w where
  toFollows := .first h hw.ids
  exact := fun c _ => by simp [Reservations.blocks]
  apart := hw.apart.sublist ((h.numbered.ofKind_sublist .npc).map _)
  unclaimed := fun _ _ => by simp
  blocked := fun npc hnpc => hw.blocked npc ((h.numbered.ofKind_sublist .npc).subset hnpc)

/-- A plan made on one state of the world refines moving one by one: the commands, the world, the
events and the generator are the same, and so an actor stays where it is exactly if its neighbours
lie off the board or are blocked when its turn comes. Battles are such worlds throughout. -/
theorem plan_refines_oneByOne :
    (∀ w : World, w.Reached → w.Standing → ∀ g,
      plan w g = ((oneByOne w g ((w.ofKind .npc).map (·.id))).commands,
        (oneByOne w g ((w.ofKind .npc).map (·.id))).generator) ∧
      w.applyAll (plan w g).1 = ((oneByOne w g ((w.ofKind .npc).map (·.id))).world,
        (oneByOne w g ((w.ofKind .npc).map (·.id))).events) ∧
      ∀ before npc after, w.ofKind .npc = before ++ npc :: after →
        ((∀ goal tag, .move npc.id goal tag ∉ (plan w g).1) ↔
          ∀ d e, npc.coord.neighbor? d = some e →
            (oneByOne w g (before.map (·.id))).world.grid.contains e = false ∨
            (oneByOne w g (before.map (·.id))).world.grid.cost? e = some Tile.blockedCost)) ∧
    ∀ c seed b events, Battle.create c seed = .ok (b, events) → c.npcs.length < 4294967296 →
      ∀ inputs, (b.play inputs).world.Reached ∧ (b.play inputs).world.Standing := by
  constructor
  · intro w hreached hw g
    have hmirrors := mirrors_of_standing hreached.sound hw
    have hplan : plan w g = _ := planFor_eq_oneByOne hmirrors g
    refine ⟨hplan, by rw [hplan, oneByOne_applyAll], ?_⟩
    intro before npc after hsplit
    have hdistinct := hmirrors.distinct
    have hfound := World.actor?_of_mem hw.ids (hmirrors.pending npc (by simp [hsplit]))
    rw [hplan, hsplit, List.map_append, List.map_cons]
    rw [hsplit, List.map_append, List.map_cons] at hdistinct
    rw [oneByOne_idle hfound hdistinct, candidates_eq_nil]
  · intro c seed b events h hn inputs
    exact ⟨Battle.play_reached (Battle.create_ok h).2.1 inputs, Battle.play_standing h hn inputs⟩

theorem plan_refines_oneByOne_narrows :
    Battle.narrowsBattle.world.Reached ∧ Battle.narrowsBattle.world.Standing ∧
      plan Battle.narrowsBattle.world (.ofSeed 7) =
        ((oneByOne Battle.narrowsBattle.world (.ofSeed 7) [⟨1⟩, ⟨2⟩]).commands,
          (oneByOne Battle.narrowsBattle.world (.ofSeed 7) [⟨1⟩, ⟨2⟩]).generator) := by
  obtain ⟨hreached, hstanding⟩ :=
    plan_refines_oneByOne.2 _ _ _ _ Battle.create_narrows (by decide) []
  have hids : (Battle.narrowsBattle.world.ofKind .npc).map (·.id) = [⟨1⟩, ⟨2⟩] := by decide +kernel
  obtain ⟨hplan, _⟩ := plan_refines_oneByOne.1 _ hreached hstanding (.ofSeed 7)
  exact ⟨hreached, hstanding, hids ▸ hplan⟩

end Wander

end HexSkirmish
