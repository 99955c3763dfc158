import HexSkirmish.Proofs.Roster
import HexSkirmish.Proofs.Routing

/-! What a command does to a world. Most commands leave the actors and the costs alike; a move that
is carried out changes the place of one actor and the costs of two tiles. From this follows what
holds of every world that commands produce: its edge table can be trusted, its actors are numbered
in the order of placement, and they stand on the board. -/

namespace HexSkirmish

/-- Commands that can change neither who stands where nor what any tile costs. -/
def Command.isQuiet : Command → Bool
  | .configure .. | .setCost .. | .place .. | .move .. => false
  | _ => true

/-- The move that a command orders. -/
def Command.order? : Command → Option (ActorId × Coord)
  | .move id goal _ => some (id, goal)
  | _ => none

/-- The move that an event reports. -/
def Event.arrival? : Event → Option (ActorId × Coord)
  | .moved id _ goal _ => some (id, goal)
  | _ => none

/-- Whether an event reports a move that was carried out or rejected. -/
def Event.isMoveReport : Event → Bool
  | .moved .. | .moveRejected .. => true
  | _ => false

namespace World

variable {w v u : World} {a : Actor} {id : ActorId} {goal c e : Coord} {tag : Option TileEffect}

/-! ### Changes that leave actors and costs alike -/

structure Alike (w v : World) : Prop where
  layout : v.grid.layout = w.grid.layout
  cost : ∀ c, v.grid.cost? c = w.grid.cost? c
  actors : v.actors = w.actors
  nextId : v.nextId = w.nextId
  current : w.grid.Current → v.grid.Current

namespace Alike

theorem refl (w : World) : Alike w w := ⟨rfl, fun _ => rfl, rfl, rfl, id⟩

theorem trans (h : Alike w v) (h' : Alike v u) : Alike w u where
  layout := h'.layout.trans h.layout
  cost := fun c => (h'.cost c).trans (h.cost c)
  actors := h'.actors.trans h.actors
  nextId := h'.nextId.trans h.nextId
  current := fun hc => h'.current (h.current hc)

theorem contains (h : Alike w v) : v.grid.contains c = w.grid.contains c := by
  rw [Grid.contains, h.layout, Grid.contains]

end Alike

theorem refresh_alike (w : World) : Alike w { w with grid := w.grid.refresh } :=
  ⟨Grid.refresh_layout, fun _ => Grid.cost?_refresh, rfl, rfl, Grid.refresh_current⟩

theorem setEffect_alike (w : World) (c : Coord) (e : TileEffect) : Alike w (w.setEffect c e).1 := by
  unfold setEffect
  split
  · exact ⟨Grid.setEffect_layout e, fun _ => Grid.cost?_setEffect e, rfl, rfl,
      Grid.setEffect_current⟩
  · exact .refl w

theorem carryTag_alike (w : World) (c goal : Coord) (tag : Option TileEffect) :
    Alike w (w.carryTag c goal tag).1 := by
  cases tag with
  | none => exact .refl w
  | some e => exact (setEffect_alike w goal e).trans (setEffect_alike _ c .plain)

/-- Whether or not it is reported, a highlight is there after it was set. -/
theorem effect?_setEffect (w : World) (c t : Coord) (e : TileEffect) :
    (w.setEffect c e).1.grid.effect? t =
      if t = c then (w.grid.effect? t).map fun _ => e else w.grid.effect? t := by
  unfold setEffect
  split
  · exact Grid.effect?_setEffect e
  · rename_i hsame
    by_cases htc : t = c
    · subst htc
      simp only [Grid.effectDiffers] at hsame
      simp only [Grid.effect?]
      cases ht : w.grid.tileAt? t <;> simp_all
    · rw [if_neg htc]

@[simp] theorem setEffect_hand (w : World) (c : Coord) (e : TileEffect) :
    (w.setEffect c e).1.hand = w.hand := by
  unfold setEffect
  split <;> rfl

@[simp] theorem carryTag_hand (w : World) (c goal : Coord) (tag : Option TileEffect) :
    (w.carryTag c goal tag).1.hand = w.hand := by
  cases tag with
  | none => rfl
  | some e => simp [carryTag]

theorem apply_alike {command : Command} (h : command.isQuiet = true) :
    Alike w (w.apply command).1 := by
  cases command with
  | configure | setCost | place | move => cases h
  | rebuildEdges => exact ⟨rfl, fun _ => rfl, rfl, rfl, fun _ => Grid.rebuild_current⟩
  | setEffect c e => exact setEffect_alike w c e
  | clearEffect c => exact setEffect_alike w c .plain
  | clearEffects e =>
    exact ⟨rfl, fun _ => Grid.cost?_clearEffects e, rfl, rfl, Grid.clearEffects_current⟩
  | highlight o budget =>
    exact ⟨Grid.highlight_layout, fun _ => Grid.cost?_highlight, rfl, rfl,
      Grid.highlight_current⟩
  | draw card => exact ⟨rfl, fun _ => rfl, rfl, rfl, fun hc => hc⟩

/-! ### Moves -/

/-- A move that can be carried out. -/
structure Admits (w : World) (a : Actor) (goal : Coord) : Prop where
  found : w.actor? a.id = some a
  away : goal ≠ a.coord
  free : w.grid.isObstacle goal = false
  route : (w.grid.route a.coord goal).isFound = true

/-- A move that was carried out. -/
structure Moved (w : World) (a : Actor) (goal : Coord) (v : World) : Prop where
  layout : v.grid.layout = w.grid.layout
  cost : ∀ c, v.grid.cost? c =
    if c = a.coord then (w.grid.cost? c).map fun _ => Tile.openCost
    else if c = goal then (w.grid.cost? c).map fun _ => Tile.blockedCost
    else w.grid.cost? c
  actors : v.actors = relocate a.id goal w.actors
  nextId : v.nextId = w.nextId
  current : v.grid.Current

namespace Moved

theorem contains (h : Moved w a goal v) : v.grid.contains c = w.grid.contains c := by
  rw [Grid.contains, h.layout, Grid.contains]

theorem isObstacle_origin (h : Moved w a goal v) (hin : w.grid.contains a.coord = true) :
    v.grid.isObstacle a.coord = false := by
  obtain ⟨k, hk⟩ := Grid.contains_iff_cost?.mp hin
  exact Grid.isObstacle_eq_false_iff.mpr ⟨Tile.openCost, by simp [h.cost, hk], by decide⟩

theorem isObstacle_goal (h : Moved w a goal v) (hne : goal ≠ a.coord)
    (hin : w.grid.contains goal = true) : v.grid.isObstacle goal = true := by
  obtain ⟨k, hk⟩ := Grid.contains_iff_cost?.mp hin
  exact Grid.isObstacle_iff.mpr (.inr (by simp [h.cost, hne, hk]))

theorem isObstacle_other (h : Moved w a goal v) (horigin : c ≠ a.coord) (hgoal : c ≠ goal) :
    v.grid.isObstacle c = w.grid.isObstacle c :=
  Grid.isObstacle_congr (by rw [h.cost, if_neg horigin, if_neg hgoal])

/-- The actor that moved is replaced where it stands in the list. -/
theorem split (h : Moved w a goal v) (hfound : w.actor? a.id = some a) : ∃ before after,
    w.actors = before ++ a :: after ∧ v.actors = before ++ { a with coord := goal } :: after ∧
      ∀ b ∈ before, b.id ≠ a.id := by
  obtain ⟨before, after, hsplit, _, hbefore⟩ := actor?_split hfound
  refine ⟨before, after, hsplit, ?_, hbefore⟩
  rw [h.actors, hsplit, relocate_append hbefore rfl]

end Moved

theorem commitMove_moved (w : World) (a : Actor) (goal : Coord) (tag : Option TileEffect)
    (route : Route) : Moved w a goal (w.commitMove a goal tag route).1 := by
  have htag := carryTag_alike { w with grid :=
    ((w.grid.setCost goal Tile.blockedCost).setCost a.coord Tile.openCost).rebuild }
    a.coord goal tag
  refine ⟨?_, fun c => ?_, ?_, ?_, ?_⟩
  · exact htag.layout.trans (by simp)
  · refine (htag.cost c).trans ?_
    simp only [Grid.cost?_rebuild, Grid.cost?_setCost]
    split <;> split <;> simp [Option.map_map, Function.comp_def]
  · exact congrArg (relocate a.id goal) htag.actors
  · exact htag.nextId
  · exact htag.current Grid.rebuild_current

theorem setEffect_events (w : World) (c : Coord) (e : TileEffect) :
    ∀ event ∈ (w.setEffect c e).2, ∃ c e, event = .effectChanged c e := by
  unfold setEffect
  split <;> simp

theorem carryTag_events (w : World) (c goal : Coord) (tag : Option TileEffect) :
    ∀ event ∈ (w.carryTag c goal tag).2, ∃ c e, event = .effectChanged c e := by
  cases tag with
  | none => simp [carryTag]
  | some e =>
    intro event h
    rcases List.mem_append.mp h with h | h
    · exact setEffect_events _ _ _ event h
    · exact setEffect_events _ _ _ event h

/-- A move reports its changes of highlights, of which there are none without a tag, and then
itself. -/
theorem commitMove_events {route : Route} : ∃ changes,
    (w.commitMove a goal tag route).2 = changes ++ [.moved a.id a.coord goal route] ∧
      (∀ event ∈ changes, ∃ c e, event = .effectChanged c e) ∧ (tag = none → changes = []) := by
  refine ⟨_, rfl, carryTag_events _ _ _ _, ?_⟩
  rintro rfl
  rfl

theorem arrivals_eq_nil {events : List Event} (h : ∀ event ∈ events, event.isMoveReport = false) :
    events.filterMap Event.arrival? = [] := by
  rw [List.filterMap_eq_nil_iff]
  intro event hevent
  cases event <;> first | rfl | cases h _ hevent

/-- Commands that move nobody report no moves. -/
theorem apply_events {command : Command} (h : command.isQuiet = true) :
    ∀ event ∈ (w.apply command).2, event.isMoveReport = false := by
  have heffect : ∀ c e, ∀ event ∈ (w.setEffect c e).2, event.isMoveReport = false := by
    intro c e event hevent
    obtain ⟨_, _, rfl⟩ := setEffect_events w c e event hevent
    rfl
  cases command with
  | configure | setCost | place | move => cases h
  | setEffect c e => exact heffect c e
  | clearEffect c => exact heffect c .plain
  | clearEffects e =>
    simp only [apply]
    split <;> simp [Event.isMoveReport]
  | rebuildEdges | highlight | draw => simp [apply, Event.isMoveReport]

theorem Admits.move_eq (h : w.Admits a goal) : w.move a.id goal tag =
    { w with grid := w.grid.refresh }.commitMove a goal tag (w.grid.route a.coord goal) := by
  have hin := Grid.contains_of_free h.free
  simp only [move, h.found, hin, Bool.not_true, Bool.false_eq_true, if_false, h.away, h.free,
    Grid.route_refresh, h.route, if_true]

theorem Admits.move_events (h : w.Admits a goal) (tag : Option TileEffect) : ∃ changes,
    (w.move a.id goal tag).2 =
        changes ++ [.moved a.id a.coord goal (w.grid.route a.coord goal)] ∧
      (∀ event ∈ changes, ∃ c e, event = .effectChanged c e) ∧ (tag = none → changes = []) := by
  rw [h.move_eq]
  exact commitMove_events

theorem Admits.moved (h : w.Admits a goal) (tag : Option TileEffect) :
    Moved w a goal (w.move a.id goal tag).1 := by
  rw [h.move_eq]
  have hm := commitMove_moved { w with grid := w.grid.refresh } a goal tag
    (w.grid.route a.coord goal)
  exact ⟨hm.layout.trans Grid.refresh_layout, by simpa using hm.cost, hm.actors, hm.nextId,
    hm.current⟩

/-- A move carries its tag along, and without one it leaves all highlights alone. -/
theorem Admits.effect?_move (h : w.Admits a goal) (tag : Option TileEffect) :
    (w.move a.id goal tag).1.grid.effect? t =
      match tag with
      | none => w.grid.effect? t
      | some e =>
        if t = a.coord then (w.grid.effect? t).map fun _ => .plain
        else if t = goal then (w.grid.effect? t).map fun _ => e
        else w.grid.effect? t := by
  rw [h.move_eq]
  cases tag with
  | none =>
    simp only [commitMove, carryTag, Grid.effect?_rebuild, Grid.effect?_setCost,
      Grid.effect?_refresh]
  | some e =>
    simp only [commitMove, carryTag, effect?_setEffect, Grid.effect?_rebuild,
      Grid.effect?_setCost, Grid.effect?_refresh]
    split <;> split <;> simp [Option.map_map, Function.comp_def]

/-- A move that is rejected: the first of five tests, in their order, that it does not pass. -/
inductive Refused (w : World) (id : ActorId) (goal : Coord) : MoveError → Prop
  | unknownActor (unknown : w.actor? id = none) : Refused w id goal .unknownActor
  | outOfBounds {a : Actor} (found : w.actor? id = some a)
      (outside : w.grid.contains goal = false) : Refused w id goal .outOfBounds
  | alreadyThere {a : Actor} (found : w.actor? id = some a)
      (inside : w.grid.contains goal = true) (here : goal = a.coord) :
      Refused w id goal .alreadyThere
  | obstructed {a : Actor} (found : w.actor? id = some a)
      (inside : w.grid.contains goal = true) (away : goal ≠ a.coord)
      (blocked : w.grid.isObstacle goal = true) : Refused w id goal .obstructed
  | noPath {a : Actor} (found : w.actor? id = some a) (away : goal ≠ a.coord)
      (free : w.grid.isObstacle goal = false)
      (missing : (w.grid.route a.coord goal).isFound = false) : Refused w id goal .noPath

theorem admits_or_refused (w : World) (id : ActorId) (goal : Coord) :
    (∃ a, a.id = id ∧ w.Admits a goal) ∨ ∃ reason, w.Refused id goal reason := by
  cases hfound : w.actor? id with
  | none => exact .inr ⟨_, .unknownActor hfound⟩
  | some a =>
    have hid := id_of_actor? hfound
    by_cases hin : w.grid.contains goal = true
    · by_cases haway : goal = a.coord
      · exact .inr ⟨_, .alreadyThere hfound hin haway⟩
      · cases hfree : w.grid.isObstacle goal with
        | true => exact .inr ⟨_, .obstructed hfound hin haway hfree⟩
        | false =>
          cases hroute : (w.grid.route a.coord goal).isFound with
          | true => exact .inl ⟨a, hid, hid ▸ hfound, haway, hfree, hroute⟩
          | false => exact .inr ⟨_, .noPath hfound haway hfree hroute⟩
    · exact .inr ⟨_, .outOfBounds hfound (Bool.eq_false_iff.mpr hin)⟩

/-- A rejected move reports its reason, and at most the edge table is refreshed. -/
theorem Refused.move_eq {reason : MoveError} (h : w.Refused id goal reason)
    (tag : Option TileEffect) : w.move id goal tag = (w, [.moveRejected id goal reason]) ∨
      w.move id goal tag = ({ w with grid := w.grid.refresh }, [.moveRejected id goal reason]) := by
  cases h with
  | unknownActor hunknown => exact .inl (by simp [move, hunknown])
  | outOfBounds hfound hout => exact .inl (by simp [move, hfound, hout])
  | alreadyThere hfound hin hhere =>
    refine .inl ?_
    simp only [move, hfound, hin, if_pos hhere, Bool.not_true, Bool.false_eq_true, if_false]
  | obstructed hfound hin haway hblocked =>
    exact .inl (by simp [move, hfound, hin, haway, hblocked])
  | noPath hfound haway hfree hmissing =>
    have hin := Grid.contains_of_free hfree
    exact .inr (by simp [move, hfound, hin, haway, hfree, Grid.route_refresh, hmissing])

/-- A move is carried out or it is rejected, and then at most the edge table is refreshed. -/
theorem move_outcome (w : World) (id : ActorId) (goal : Coord) (tag : Option TileEffect) :
    (∃ a, a.id = id ∧ w.Admits a goal) ∨
    ∃ reason, (w.move id goal tag).2 = [.moveRejected id goal reason] ∧
      ((w.move id goal tag).1 = w ∨
        (w.move id goal tag).1 = { w with grid := w.grid.refresh }) := by
  rcases admits_or_refused w id goal with hadmits | ⟨reason, hrefused⟩
  · exact .inl hadmits
  · rcases hrefused.move_eq tag with h | h
    · exact .inr ⟨reason, by rw [h], .inl (by rw [h])⟩
    · exact .inr ⟨reason, by rw [h], .inr (by rw [h])⟩

theorem move_cases (w : World) (id : ActorId) (goal : Coord) (tag : Option TileEffect) :
    (∃ a, a.id = id ∧ w.Admits a goal) ∨
    ∃ reason, (w.move id goal tag).2 = [.moveRejected id goal reason] ∧
      Alike w (w.move id goal tag).1 := by
  rcases move_outcome w id goal tag with hadmits | ⟨reason, hreported, hsame | hrefreshed⟩
  · exact .inl hadmits
  · exact .inr ⟨reason, hreported, by rw [hsame]; exact .refl w⟩
  · exact .inr ⟨reason, hreported, by rw [hrefreshed]; exact refresh_alike w⟩

/-! ### Placements -/

/-- An actor that was placed. -/
structure Placed (w : World) (kind : ActorKind) (c : Coord) (v : World) : Prop where
  layout : v.grid.layout = w.grid.layout
  cost : ∀ e, v.grid.cost? e =
    if e = c then (w.grid.cost? e).map fun _ => Tile.blockedCost else w.grid.cost? e
  actors : v.actors = w.actors ++ [⟨w.nextId, kind, c⟩]
  nextId : v.nextId = w.nextId.next
  current : v.grid.Current

theorem Placed.contains {kind : ActorKind} (h : Placed w kind c v) :
    v.grid.contains e = w.grid.contains e := by
  rw [Grid.contains, h.layout, Grid.contains]

theorem place_eq {kind : ActorKind} (hfree : w.grid.isObstacle c = false) : w.place kind c =
    ({ w with
        grid := (w.grid.setCost c Tile.blockedCost).rebuild
        actors := w.actors ++ [⟨w.nextId, kind, c⟩]
        nextId := w.nextId.next },
      [.placed w.nextId kind c]) := by
  simp [place, Grid.contains_of_free hfree, hfree]

/-- An actor is placed on a free tile, and nothing happens on any other. -/
theorem place_cases (w : World) (kind : ActorKind) (c : Coord) :
    (w.grid.isObstacle c = false ∧ Placed w kind c (w.place kind c).1 ∧
      (w.place kind c).2 = [.placed w.nextId kind c]) ∨
    (w.grid.isObstacle c = true ∧ (w.place kind c).1 = w) := by
  cases hfree : w.grid.isObstacle c with
  | false =>
    rw [place_eq hfree]
    exact .inl ⟨rfl, ⟨by simp, fun e => by simp [Grid.cost?_setCost], rfl, rfl,
      Grid.rebuild_current⟩, rfl⟩
  | true => exact .inr ⟨rfl, by by_cases hin : w.grid.contains c = true <;> simp [place, hin, hfree]⟩

/-! ### Sequences of commands -/

@[simp] theorem applyAll_nil : w.applyAll [] = (w, []) := rfl

theorem applyAll_cons (command : Command) (rest : List Command) : w.applyAll (command :: rest) =
    (((w.apply command).1.applyAll rest).1,
      (w.apply command).2 ++ ((w.apply command).1.applyAll rest).2) := rfl

theorem applyAll_append (first second : List Command) : w.applyAll (first ++ second) =
    (((w.applyAll first).1.applyAll second).1,
      (w.applyAll first).2 ++ ((w.applyAll first).1.applyAll second).2) := by
  induction first generalizing w with
  | nil => rfl
  | cons command rest ih => simp [applyAll_cons, ih, List.append_assoc]

/-- What each of some commands preserves, they preserve together. -/
theorem applyAll_invariant {P : World → Prop} {commands : List Command} (h : P w)
    (hstep : ∀ v, ∀ command ∈ commands, P v → P (v.apply command).1) :
    P (w.applyAll commands).1 := by
  induction commands generalizing w with
  | nil => exact h
  | cons command rest ih =>
    rw [applyAll_cons]
    exact ih (hstep w command (by simp) h) fun v c hc => hstep v c (List.mem_cons_of_mem _ hc)

/-- What holds of everything that each of some commands reports holds of all that they report. -/
theorem applyAll_events {P : Event → Prop} {commands : List Command}
    (h : ∀ v, ∀ command ∈ commands, ∀ event ∈ (apply v command).2, P event) :
    ∀ event ∈ (w.applyAll commands).2, P event := by
  induction commands generalizing w with
  | nil => simp
  | cons command rest ih =>
    intro event hevent
    rcases List.mem_append.mp hevent with hevent | hevent
    · exact h w command (by simp) event hevent
    · exact ih (fun v c hc => h v c (List.mem_cons_of_mem _ hc)) event hevent

/-! ### Worlds that commands produce -/

/-- A world to which commands lead from a vacant board. -/
def Reached (w : World) : Prop := ∃ l commands, ((vacant l).applyAll commands).1 = w

structure Sound (w : World) : Prop where
  current : w.grid.Current
  numbered : w.Numbered
  inside : ∀ a ∈ w.actors, w.grid.contains a.coord = true

namespace Sound

theorem vacant (l : Layout) : (vacant l).Sound := ⟨Grid.vacant_current l, .vacant l, nofun⟩

theorem alike (h : w.Sound) (hv : Alike w v) : v.Sound where
  current := hv.current h.current
  numbered := h.numbered.of_ids (by rw [hv.actors]) hv.nextId
  inside := by
    intro a ha
    rw [hv.contains]
    exact h.inside a (hv.actors ▸ ha)

theorem moved (h : w.Sound) (hgoal : w.grid.contains goal = true) (hv : Moved w a goal v) :
    v.Sound where
  current := hv.current
  numbered := h.numbered.of_ids (by rw [hv.actors, relocate_ids]) hv.nextId
  inside := by
    intro b hb
    rw [hv.contains]
    rw [hv.actors] at hb
    rcases mem_relocate hb with hb | hb
    · exact h.inside b hb
    · exact hb ▸ hgoal

theorem placed (h : w.Sound) {kind : ActorKind} (hc : w.grid.contains c = true)
    (hv : Placed w kind c v) : v.Sound where
  current := hv.current
  numbered := h.numbered.place hv.actors hv.nextId
  inside := by
    intro b hb
    rw [hv.contains]
    rw [hv.actors, List.mem_append, List.mem_singleton] at hb
    rcases hb with hb | rfl
    · exact h.inside b hb
    · exact hc

theorem apply (h : w.Sound) (command : Command) : (w.apply command).1.Sound := by
  cases hquiet : command.isQuiet with
  | true => exact h.alike (apply_alike hquiet)
  | false =>
    cases command with
    | configure width height size =>
      simp only [World.apply]
      split
      · exact .vacant _
      · exact h
    | setCost c k =>
      simp only [World.apply]
      split
      · exact ⟨Grid.setCost_current h.current, h.numbered.of_ids rfl rfl, fun a ha => by
          simpa [Grid.contains] using h.inside a ha⟩
      · exact h
    | place kind c =>
      rcases place_cases w kind c with ⟨hfree, hplaced, _⟩ | ⟨_, hsame⟩
      · exact h.placed (Grid.contains_of_free hfree) hplaced
      · rw [World.apply, hsame]
        exact h
    | move id goal tag =>
      rcases move_cases w id goal tag with ⟨a, rfl, hadmits⟩ | ⟨_, _, halike⟩
      · exact h.moved (Grid.contains_of_free hadmits.free) (hadmits.moved tag)
      · exact h.alike halike
    | _ => cases hquiet

theorem applyAll (h : w.Sound) (commands : List Command) : (w.applyAll commands).1.Sound :=
  applyAll_invariant h fun _ command _ hv => hv.apply command

end Sound

theorem Reached.sound (h : w.Reached) : w.Sound := by
  obtain ⟨l, commands, rfl⟩ := h
  exact (Sound.vacant l).applyAll commands

theorem Reached.applyAll (h : w.Reached) (commands : List Command) :
    (w.applyAll commands).1.Reached := by
  obtain ⟨l, earlier, rfl⟩ := h
  exact ⟨l, earlier ++ commands, by rw [applyAll_append]⟩

end World

end HexSkirmish
