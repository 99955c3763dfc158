import HexSkirmish.Proofs.Accounts
import HexSkirmish.Proofs.Overlays
import HexSkirmish.Proofs.Separation

/-! The tag of those who can be attacked. It follows an actor that wanders from tile to tile, and the
movement highlight, the goal and their wiping all write the same field of a tile. Yet the field tells
at any time who has moved: a tile is tagged exactly if an actor stands on it that is not the player
and of which the log has reported a move. -/

namespace HexSkirmish

/-- Whether some events report a move of an actor. -/
def HasMoved (id : ActorId) (events : List Event) : Prop :=
  ∃ origin goal route, .moved id origin goal route ∈ events

theorem hasMoved_append {id : ActorId} {earlier later : List Event} :
    HasMoved id (earlier ++ later) ↔ HasMoved id earlier ∨ HasMoved id later := by
  simp [HasMoved, exists_or]

theorem not_hasMoved {id : ActorId} {events : List Event}
    (h : ∀ event ∈ events, event.isMoveReport = false) : ¬ HasMoved id events := by
  rintro ⟨origin, goal, route, hmem⟩
  cases h _ hmem

namespace Grid

variable {g : Grid} {o c : Coord} {budget : Nat}

/-- Tiles within a budget are free. -/
theorem isObstacle_of_within (h : g.Current) (ho : g.contains o = true)
    (hbudget : budget < unreachable) (hwithin : 1 ≤ g.steps o c ∧ g.steps o c ≤ budget) :
    g.isObstacle c = false := by
  have hin : g.contains c = true := by
    by_contra hout
    have hnone : g.layout.index? c = none := by
      rw [← Option.not_isSome_iff_eq_none, Layout.index?_isSome]
      exact hout
    have hfar : g.steps o c = unreachable := by simp [steps, distanceIn, hnone]
    omega
  have haway : o ≠ c := by
    rintro rfl
    rw [steps_self h ho] at hwithin
    omega
  exact isObstacle_of_route h ((within_iff_route h ho hin hbudget).mp hwithin).1 haway

end Grid

namespace World

variable {w v : World} {log events : List Event} {command : Command} {commands : List Command}
  {a b p : Actor} {id : ActorId} {goal o c t : Coord} {tag : Option TileEffect} {budget : Nat}

/-! ### What a move does to highlights and actors -/

/-- A move is reported of the one who moved. -/
theorem Admits.hasMoved_iff (h : w.Admits a goal) :
    HasMoved id (w.move a.id goal tag).2 ↔ id = a.id := by
  obtain ⟨changes, hevents, hchanges, _⟩ := h.move_events tag
  rw [hevents, hasMoved_append]
  constructor
  · rintro (⟨_, _, _, hmem⟩ | ⟨_, _, _, hmem⟩)
    · obtain ⟨_, _, heq⟩ := hchanges _ hmem
      cases heq
    · cases List.mem_singleton.mp hmem
      rfl
  · rintro rfl
    exact .inr ⟨_, _, _, List.mem_singleton.mpr rfl⟩

/-- With distinct numbers, to relocate an actor is to replace it. -/
theorem mem_relocate_iff {actors : List Actor} (hids : (actors.map (·.id)).Nodup)
    (ha : a ∈ actors) : b ∈ relocate a.id goal actors ↔
      b = { a with coord := goal } ∨ b ∈ actors ∧ b.id ≠ a.id := by
  obtain ⟨before, after, rfl⟩ := List.append_of_mem ha
  obtain ⟨hne, _⟩ := nodup_map_middle.mp hids
  have hbefore : ∀ x ∈ before, x.id ≠ a.id := fun x hx => hne x (List.mem_append_left _ hx)
  rw [relocate_append hbefore rfl, List.perm_middle.mem_iff, List.perm_middle.mem_iff,
    List.mem_cons, List.mem_cons]
  constructor
  · rintro (rfl | hb)
    · exact .inl rfl
    · exact .inr ⟨.inr hb, hne b hb⟩
  · rintro (rfl | ⟨rfl | hb, hother⟩)
    · exact .inl rfl
    · exact absurd rfl hother
    · exact .inr hb

theorem eq_of_id (hids : (w.actors.map (·.id)).Nodup) (ha : a ∈ w.actors) (hb : b ∈ w.actors)
    (h : a.id = b.id) : a = b :=
  List.inj_on_of_nodup_map hids ha hb h

theorem Apart.eq_of_coord (h : w.Apart) (ha : a ∈ w.actors) (hb : b ∈ w.actors)
    (hab : a.coord = b.coord) : a = b :=
  List.inj_on_of_nodup_map h.coords ha hb hab

/-- What each of some commands preserves of a world and what was reported of it, they preserve
together. -/
theorem applyAll_log_induction {P : World → List Event → Prop} (h : P w log)
    (hstep : ∀ v log, ∀ command ∈ commands, P v log →
      P (v.apply command).1 (log ++ (v.apply command).2)) :
    P (w.applyAll commands).1 (log ++ (w.applyAll commands).2) := by
  induction commands generalizing w log with
  | nil => simpa using h
  | cons command rest ih =>
    rw [applyAll_cons, ← List.append_assoc]
    apply ih
    · exact hstep w log command (by simp) h
    · intro v log c hc hv
      exact hstep v log c (List.mem_cons_of_mem _ hc) hv

/-! ### Tags -/

/-- Whether an actor that is not the player stands on a cell, and has moved. -/
def HoldsMover (w : World) (log : List Event) (t : Coord) : Prop :=
  ∃ a ∈ w.actors, a.kind = .npc ∧ a.coord = t ∧ HasMoved a.id log

/-- A world whose tags tell who has moved, according to what was reported. -/
structure Tagged (w : World) (log : List Event) : Prop where
  ready : w.Ready
  apart : w.Apart
  ids : (w.actors.map (·.id)).Nodup
  tags : ∀ t, w.grid.effect? t = some .attackable ↔ w.HoldsMover log t

namespace Tagged

/-- Whoever holds a tile, it is blocked. -/
theorem blocked (h : w.Tagged log) (ht : w.grid.effect? t = some .attackable) :
    w.grid.isObstacle t = true := by
  obtain ⟨a, ha, _, rfl, _⟩ := (h.tags t).mp ht
  exact h.apart.blocked a ha

/-- Outside a setup only the tags themselves are in question. -/
theorem apply (h : w.Tagged log) (hcommand : command.isSetup = false)
    (htags : ∀ t, (w.apply command).1.grid.effect? t = some .attackable ↔
      (w.apply command).1.HoldsMover (log ++ (w.apply command).2) t) :
    (w.apply command).1.Tagged (log ++ (w.apply command).2) where
  ready := ⟨h.ready.sound.apply command, led_apply h.ready.led hcommand⟩
  apart := by
    rw [h.apart.apply_iff]
    rintro ⟨_, _, _, _, rfl⟩
    cases hcommand
  ids := by
    have := congrArg (List.map Prod.fst) (apply_identities (w := w) hcommand).2
    simp only [List.map_map, Function.comp_def] at this
    rw [this]
    exact h.ids
  tags := htags

/-- A command that moves nobody must not touch a tag. -/
theorem quiet (h : w.Tagged log) (hcommand : command.isQuiet = true)
    (hsame : ∀ t, (w.apply command).1.grid.effect? t = some .attackable ↔
      w.grid.effect? t = some .attackable) :
    (w.apply command).1.Tagged (log ++ (w.apply command).2) := by
  refine h.apply (Command.isSetup_of_isQuiet hcommand) fun t => ?_
  have hnobody : ∀ id, ¬ HasMoved id (w.apply command).2 := fun id =>
    not_hasMoved (apply_events hcommand)
  rw [hsame, h.tags, HoldsMover, HoldsMover, (apply_alike hcommand).actors]
  simp only [hasMoved_append, hnobody, or_false]

theorem draw (h : w.Tagged log) (card : Card) :
    (w.apply (.draw card)).1.Tagged (log ++ (w.apply (.draw card)).2) :=
  h.quiet rfl fun _ => .rfl

theorem wipe (h : w.Tagged log) : (w.apply (.clearEffects .moveable)).1.Tagged
    (log ++ (w.apply (.clearEffects .moveable)).2) := by
  refine h.quiet rfl fun t => ?_
  simp only [World.apply, Grid.effect?_clearEffects]
  cases w.grid.effect? t with
  | none => simp
  | some e => cases e <;> simp

theorem clear (h : w.Tagged log) (hc : w.grid.effect? c ≠ some .attackable) :
    (w.apply (.clearEffect c)).1.Tagged (log ++ (w.apply (.clearEffect c)).2) := by
  refine h.quiet rfl fun t => ?_
  simp only [World.apply, effect?_setEffect]
  split
  · rename_i htc
    subst htc
    simp [hc]
  · rfl

theorem highlight (h : w.Tagged log) (ho : w.grid.contains o = true)
    (hbudget : budget < Grid.unreachable) : (w.apply (.highlight o budget)).1.Tagged
      (log ++ (w.apply (.highlight o budget)).2) := by
  refine h.quiet rfl fun t => ?_
  simp only [World.apply, Grid.effect?_highlight_eq]
  by_cases hwithin : 1 ≤ w.grid.steps o t ∧ w.grid.steps o t ≤ budget
  · -- A tile that is painted is free, and so there was no tag on it.
    have hfree := Grid.isObstacle_of_within h.ready.sound.current ho hbudget hwithin
    have hbefore : w.grid.effect? t ≠ some .attackable := fun htag => by
      rw [h.blocked htag] at hfree
      cases hfree
    refine iff_of_false ?_ hbefore
    cases w.grid.effect? t <;> simp [hwithin]
  · cases w.grid.effect? t with
    | none => simp
    | some e => cases e <;> simp [hwithin]

/-- The player carries no tag along and leaves those of the others alone. -/
theorem move_player (h : w.Tagged log) (hled : w.Led p) (hadmits : w.Admits p goal) :
    (w.apply (.move p.id goal none)).1.Tagged
      (log ++ (w.apply (.move p.id goal none)).2) := by
  refine h.apply rfl fun t => ?_
  have hp : p ∈ w.actors := List.mem_of_find?_eq_some hadmits.found
  have heffect : (w.move p.id goal none).1.grid.effect? t = w.grid.effect? t :=
    hadmits.effect?_move none
  rw [World.apply, heffect, h.tags, HoldsMover, HoldsMover, (hadmits.moved none).actors]
  simp only [mem_relocate_iff h.ids hp, hasMoved_append, hadmits.hasMoved_iff]
  constructor
  · rintro ⟨a, ha, hkind, hcoord, hmoved⟩
    refine ⟨a, .inr ⟨ha, fun hid => ?_⟩, hkind, hcoord, .inl hmoved⟩
    rw [eq_of_id h.ids ha hp hid, hled.1] at hkind
    cases hkind
  · rintro ⟨a, rfl | ⟨ha, hid⟩, hkind, hcoord, hmoved⟩
    · rw [hled.1] at hkind
      cases hkind
    · exact ⟨a, ha, hkind, hcoord, hmoved.resolve_right hid⟩

/-- An actor that wanders takes its tag along, or is given one. -/
theorem wander (h : w.Tagged log) (hadmits : w.Admits a goal) (hkind : a.kind = .npc) :
    (w.apply (.move a.id goal (some .attackable))).1.Tagged
      (log ++ (w.apply (.move a.id goal (some .attackable))).2) := by
  refine h.apply rfl fun t => ?_
  have ha : a ∈ w.actors := List.mem_of_find?_eq_some hadmits.found
  have hothers : ∀ b, (b ∈ w.actors ∧ b.id ≠ a.id) → (b.coord ≠ a.coord ∧
      (HasMoved b.id (log ++ (w.move a.id goal (some .attackable)).2) ↔ HasMoved b.id log)) := by
    rintro b ⟨hb, hid⟩
    refine ⟨fun hcoord => hid (by rw [h.apart.eq_of_coord hb ha hcoord]), ?_⟩
    rw [hasMoved_append, hadmits.hasMoved_iff]
    simp [hid]
  simp only [World.apply, hadmits.effect?_move, HoldsMover,
    (hadmits.moved (some .attackable)).actors, mem_relocate_iff h.ids ha]
  by_cases hleft : t = a.coord
  · -- the tile that was left: nobody else stands there
    rw [if_pos hleft]
    refine iff_of_false (by simp) ?_
    rintro ⟨b, rfl | hb, _, hcoord, _⟩
    · exact hadmits.away (hcoord.trans hleft)
    · exact (hothers b hb).1 (hcoord.trans hleft)
  · rw [if_neg hleft]
    by_cases hentered : t = goal
    · -- the tile that was entered: there stands the one that moved
      subst hentered
      rw [if_pos rfl]
      refine iff_of_true ?_ ⟨_, .inl rfl, hkind, rfl, ?_⟩
      · obtain ⟨tile, htile⟩ :=
          Grid.contains_iff_tileAt?.mp (Grid.contains_of_free hadmits.free)
        simp [Grid.effect?, htile]
      · rw [hasMoved_append, hadmits.hasMoved_iff]
        exact .inr rfl
    · rw [if_neg hentered, h.tags, HoldsMover]
      constructor
      · rintro ⟨b, hb, hnpc, hcoord, hmoved⟩
        have hid : b.id ≠ a.id := fun hid => by
          rw [eq_of_id h.ids hb ha hid] at hcoord
          exact hleft hcoord.symm
        exact ⟨b, .inr ⟨hb, hid⟩, hnpc, hcoord, (hothers b ⟨hb, hid⟩).2.mpr hmoved⟩
      · rintro ⟨b, rfl | hb, hnpc, hcoord, hmoved⟩
        · exact absurd hcoord.symm hentered
        · exact ⟨b, hb.1, hnpc, hcoord, (hothers b hb).2.mp hmoved⟩

/-- A move that is rejected tags nothing. -/
theorem rejected {reason : MoveError} (h : w.Tagged log)
    (hevents : (w.move id goal tag).2 = [.moveRejected id goal reason])
    (hsame : (w.move id goal tag).1 = w ∨
      (w.move id goal tag).1 = { w with grid := w.grid.refresh }) :
    (w.apply (.move id goal tag)).1.Tagged (log ++ (w.apply (.move id goal tag)).2) := by
  refine h.apply rfl fun t => ?_
  have hnobody : ∀ other, ¬ HasMoved other [.moveRejected id goal reason] := by simp [HasMoved]
  rw [World.apply, hevents]
  simp only [HoldsMover, hasMoved_append, hnobody, or_false]
  rcases hsame with hsame | hrefreshed
  · rw [hsame]
    exact h.tags t
  · rw [hrefreshed, Grid.effect?_refresh]
    exact h.tags t

/-- The player's tile is not tagged. -/
theorem untagged_player (h : w.Tagged log) (hled : w.Led p) :
    w.grid.effect? p.coord ≠ some .attackable := by
  intro htag
  obtain ⟨a, ha, hkind, hcoord, _⟩ := (h.tags p.coord).mp htag
  obtain ⟨hplayer, others, hactors⟩ := hled
  obtain rfl := h.apart.eq_of_coord ha (by simp [hactors]) hcoord
  rw [hplayer] at hkind
  cases hkind

/-- The others wander as planned, and their tags with them. -/
theorem plan (h : w.Tagged log) (g : Generator) :
    (w.applyAll (Wander.plan w g).1).1.Tagged
      (log ++ (w.applyAll (Wander.plan w g).1).2) := by
  suffices (w.applyAll (Wander.plan w g).1).1.Tagged
        (log ++ (w.applyAll (Wander.plan w g).1).2) ∧
      (w.applyAll (Wander.plan w g).1).1.actors.map (fun a => (a.id, a.kind)) =
        w.actors.map fun a => (a.id, a.kind) from this.1
  refine applyAll_log_induction (P := fun v log => v.Tagged log ∧
    v.actors.map (fun a => (a.id, a.kind)) = w.actors.map fun a => (a.id, a.kind)) ⟨h, rfl⟩ ?_
  intro v log' command hcommand hv
  obtain ⟨npc, hnpc, goal, rfl⟩ := Wander.mem_planFor hcommand
  refine ⟨?_, (apply_identities rfl).2.trans hv.2⟩
  rcases move_outcome v npc.id goal (some .attackable) with
    ⟨a, hid, hadmits⟩ | ⟨reason, hevents, hsame⟩
  · -- Whoever is found by the number is still the actor that the plan was made for.
    have hknown : (a.id, a.kind) ∈ w.actors.map fun a => (a.id, a.kind) := by
      rw [← hv.2]
      exact List.mem_map_of_mem (List.mem_of_find?_eq_some hadmits.found)
    obtain ⟨b, hb, heq⟩ := List.mem_map.mp hknown
    obtain ⟨hbid, hbkind⟩ := Prod.mk.inj heq
    have hmem := (h.ready.sound.numbered.ofKind_sublist .npc).subset hnpc
    obtain rfl := eq_of_id h.ids hb hmem (hbid.trans hid)
    have hkind : b.kind = .npc := by
      simpa using (List.mem_filter.mp hnpc).2
    rw [← hid]
    exact hv.1.wander hadmits (hbkind.symm.trans hkind)
  · exact hv.1.rejected hevents hsame

end Tagged

end World

namespace Turn

variable {s : TurnState} {input : TurnInput} {rules : TurnRules} {w : World} {g : Generator}
  {t : Transition} {log : List Event}

/-- Whatever an input leads to, the tags follow. A turn never counts as far as to tiles that cannot
be reached, and the goal that it wipes is the player's tile. -/
theorem Passage.tagged (hpassage : Passage s rules w g input t) (h : w.Tagged log)
    (hrules : rules.movementPerTurn < Grid.unreachable)
    (hbudget : s.phase = .playerActs → s.budget < Grid.unreachable)
    (hgoal : s.phase = .playerEnd → ∀ c, s.goal = some c → ∀ p, w.Led p → c = p.coord) :
    (w.applyAll t.effects).1.Tagged (log ++ (w.applyAll t.effects).2) := by
  obtain ⟨p, hled⟩ := h.ready.led
  have hnumbered := h.ready.sound.numbered
  have hplace : w.grid.contains p.coord = true := by
    obtain ⟨_, others, hactors⟩ := hled
    exact h.apart.inside p (by simp [hactors])
  cases hpassage with
  | passed | ended | renewed => simpa using h
  | dealt =>
    refine World.applyAll_log_induction h fun v log' command hcommand hv => ?_
    obtain ⟨card, rfl⟩ := mem_drawCards hcommand
    exact hv.draw card
  | opened =>
    simp only [openingEffects, hled.player? hnumbered, World.applyAll_cons, World.applyAll_nil,
      List.append_nil]
    exact h.highlight hplace hrules
  | @moved stop q hphase hplayer hfound hpos _ =>
    obtain rfl := hled.eq_of_player? hnumbered hplayer
    have hadmits := h.ready.sound.admits hled.actor? hfound hpos
    have hstop := Grid.contains_of_free hadmits.free
    have hmoved := h.move_player hled hadmits
    have hleft := Nat.lt_of_le_of_lt
      (Nat.sub_le s.budget (min (w.grid.route p.coord stop).length countMax)) (hbudget hphase)
    simp only [World.applyAll_cons, World.applyAll_nil, List.append_nil]
    rw [← List.append_assoc]
    refine hmoved.highlight ?_ hleft
    rw [World.apply, (hadmits.moved none).contains]
    exact hstop
  | closed hphase =>
    cases hs : s.goal with
    | none =>
      simp only [closingEffects, Option.toList_none, List.map_nil, List.nil_append,
        World.applyAll_cons, World.applyAll_nil, List.append_nil]
      exact h.wipe
    | some c =>
      simp only [closingEffects, Option.toList_some, List.map_cons, List.map_nil,
        List.singleton_append, World.applyAll_cons, World.applyAll_nil, List.append_nil]
      obtain rfl := hgoal hphase c hs p hled
      rw [← List.append_assoc]
      exact (h.clear (h.untagged_player hled)).wipe
  | wandered => exact h.plan g
  | concluded =>
    simp only [World.applyAll_cons, World.applyAll_nil, List.append_nil]
    exact h.wipe

end Turn

namespace Battle

variable {c : BattleConfig} {seed : UInt64} {b : Battle} {events : List Event}
  {input : TurnInput} {t : Transition} {log : List Entry}

/-- What was reported in the course of some entries. -/
def reports (log : List Entry) : List Event := log.flatMap Entry.events

/-- A battle whose tags tell who has moved, according to its log. -/
structure Tracked (c : BattleConfig) (b : Battle) (log : List Entry) : Prop where
  accounted : Accounted c b log
  shown : Shown b
  tagged : b.world.Tagged (reports log)

theorem create_untagged (h : create c seed = .ok (b, events)) (t : Coord) :
    b.world.grid.effect? t ≠ some .attackable := by
  obtain ⟨l, _, hworld, _⟩ := create_eq h
  rw [hworld]
  refine World.applyAll_invariant (P := fun v => v.grid.effect? t ≠ some .attackable)
    (Grid.effect?_vacant_ne (by decide)) fun v command hcommand hv => ?_
  rcases mem_setupCommands hcommand with ⟨e, rfl⟩ | ⟨kind, e, rfl⟩ | rfl
  · simp only [World.apply]
    split
    · simpa only [Grid.effect?_setCost] using hv
    · exact hv
  · simp only [World.apply, World.place]
    split
    · exact hv
    · split
      · exact hv
      · simpa only [Grid.effect?_rebuild, Grid.effect?_setCost] using hv
  · exact hv

theorem create_tracked (h : create c seed = .ok (b, events))
    (hrules : c.movementPerTurn < 4294967295) (hn : c.npcs.length < 4294967296) :
    Tracked c b [] where
  accounted := create_accounted h
  shown := create_shown h hrules
  tagged := by
    have hstanding : b.world.Standing := play_standing h hn []
    refine ⟨create_ready h, ⟨hstanding.apart, hstanding.inside, hstanding.blocked⟩,
      hstanding.ids, fun t => iff_of_false (create_untagged h t) ?_⟩
    rintro ⟨_, _, _, _, _, _, _, hmem⟩
    cases hmem

theorem Tracked.follow (h : Tracked c b log)
    (hpassage : Turn.Passage b.state b.rules b.world b.generator input t) :
    Tracked c (b.follow t) (log ++ [b.entryOf input t]) where
  accounted := h.accounted.follow hpassage
  shown := h.shown.follow hpassage.step
  tagged := by
    have hreports : reports (log ++ [b.entryOf input t]) =
        reports log ++ (b.world.applyAll t.effects).2 := by simp [reports, entryOf]
    rw [hreports]
    refine hpassage.tagged h.tagged h.shown.rules (fun hphase => (h.shown.shows hphase).1) ?_
    intro hphase e hgoal p hled
    obtain ⟨_, hbalanced⟩ := h.accounted.turn (by rw [hphase]; rfl)
    exact (((hbalanced p hled).goal e).mp hgoal).2

/-- Tags tell who has moved. From whatever setup and after whatever inputs, a tile is tagged if and
only if an actor stands on it that is not the player and of which a move was reported. -/
theorem tagged_iff_mover (h : create c seed = .ok (b, events))
    (hrules : c.movementPerTurn < 4294967295) (hn : c.npcs.length < 4294967296)
    (inputs : List TurnInput) (t : Coord) :
    (∃ tile, (b.play inputs).world.grid.tileAt? t = some tile ∧ tile.effect = .attackable) ↔
      ∃ a ∈ (b.play inputs).world.actors, a.kind = .npc ∧ a.coord = t ∧
        ∃ origin goal route, .moved a.id origin goal route ∈ reports (b.log inputs) := by
  have hnow : Tracked c (b.play inputs) (b.log inputs) :=
    play_log_induction [] (create_tracked h hrules hn)
      (fun _ _ _ _ hb hpassage => hb.follow hpassage) inputs
  rw [← Option.map_eq_some_iff]
  exact hnow.tagged.tags t

/-- In the second round one of the others gives way and the other one steps onto the tile that it
has left, which is tagged for the newcomer. -/
theorem tagged_iff_mover_narrows : create narrows 0 = .ok (narrowsBattle,
      ((World.vacant narrowsBoard).applyAll (setupCommands narrows)).2) ∧
    narrows.movementPerTurn < 4294967295 ∧ narrows.npcs.length < 4294967296 ∧
    ∃ a ∈ (narrowsBattle.play [.advance, .advance, .advance, .attempt ⟨0, 1⟩ ⟨0, 1⟩, .endTurn,
        .advance, .advance, .advance, .advance, .advance, .advance, .advance, .endTurn, .advance,
        .advance]).world.actors,
      a.kind = .npc ∧ a.coord = ⟨2, 0⟩ ∧ ∃ origin goal route,
        .moved a.id origin goal route ∈ reports (narrowsBattle.log [.advance, .advance, .advance,
          .attempt ⟨0, 1⟩ ⟨0, 1⟩, .endTurn, .advance, .advance, .advance, .advance, .advance,
          .advance, .advance, .endTurn, .advance, .advance]) := by
  refine ⟨create_narrows, by decide, by decide, ?_⟩
  refine (tagged_iff_mover create_narrows (by decide) (by decide) _ ⟨2, 0⟩).mp ?_
  exact ⟨⟨Tile.blockedCost, .attackable⟩, by decide +kernel, rfl⟩

end Battle

end HexSkirmish
