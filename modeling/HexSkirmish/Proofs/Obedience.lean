import HexSkirmish.Proofs.Windings

/-! The commands of an accepted input are honoured. A transition looks at a world, and the world to
which its commands are then applied carries out every move among them: the player's, whose route was
found and paid for beforehand, and those of a plan, whose later moves meet a world that the earlier
ones have changed. -/

namespace HexSkirmish

namespace World

variable {w : World} {p : Actor} {stop : Coord} {budget : Nat}

/-- A route that leads anywhere can be taken. -/
theorem Sound.admits (h : w.Sound) (hfound : w.actor? p.id = some p)
    (hroute : (w.grid.route p.coord stop).isFound = true)
    (hpos : 0 < (w.grid.route p.coord stop).length) : w.Admits p stop := by
  have haway : stop ≠ p.coord := by
    rintro rfl
    simp [Grid.route_self] at hpos
  exact ⟨hfound, haway, Grid.isObstacle_of_route h.current hroute haway.symm, hroute⟩

/-- A move that is followed by a highlight reports just these two. -/
theorem Admits.events_highlight (h : w.Admits p stop) (budget : Nat) :
    (w.applyAll [.move p.id stop none, .highlight stop budget]).2 =
      [.moved p.id p.coord stop (w.grid.route p.coord stop),
        .highlighted stop budget ((w.move p.id stop none).1.grid.highlight stop budget).2] := by
  obtain ⟨changes, hevents, _, hnone⟩ := h.move_events none
  obtain rfl := hnone rfl
  simp [applyAll_cons, apply, hevents]

end World

namespace Turn

variable {s : TurnState} {input : TurnInput} {rules : TurnRules} {w : World} {g : Generator}
  {t : Transition} {commands : List Command}

theorem quiet_events (h : ∀ command ∈ commands, command.isQuiet = true) :
    ∀ event ∈ (w.applyAll commands).2, event.isMoveReport = false :=
  World.applyAll_events fun _ command hc => World.apply_events (h command hc)

theorem quiet_orders (h : ∀ command ∈ commands, command.isQuiet = true) :
    commands.filterMap Command.order? = [] := by
  rw [List.filterMap_eq_nil_iff]
  intro command hc
  have := h command hc
  cases command <;> first | rfl | cases this

/-- Commands are honoured if no move among them is rejected and each one arrives, in order. -/
def Honoured (w : World) (commands : List Command) : Prop :=
  (∀ id goal reason, .moveRejected id goal reason ∉ (w.applyAll commands).2) ∧
    (w.applyAll commands).2.filterMap Event.arrival? = commands.filterMap Command.order?

theorem honoured_of_quiet (h : ∀ command ∈ commands, command.isQuiet = true) :
    Honoured w commands := by
  refine ⟨fun id goal reason hmem => ?_, ?_⟩
  · cases quiet_events h _ hmem
  · rw [World.arrivals_eq_nil (quiet_events h), quiet_orders h]

theorem Step.honoured (hsound : w.Sound) (hids : (w.actors.map (·.id)).Nodup)
    (h : Step s rules w g input t) : Honoured w t.effects := by
  cases h with
  | opened => exact honoured_of_quiet (openingEffects_quiet _ _)
  | moved hphase hplayer hroute hpos hbudget =>
    have hfound := World.actor?_of_mem hids (hsound.numbered.mem_of_player? hplayer)
    have hevents := (hsound.admits hfound hroute hpos).events_highlight
    refine ⟨by simp [hevents], ?_⟩
    rw [hevents]
    rfl
  | wandered =>
    obtain ⟨harrivals, hkinds⟩ := Wander.planFor_honoured (.first hsound hids) g
    refine ⟨fun id goal reason hmem => ?_, harrivals⟩
    rcases hkinds _ hmem with ⟨_, _, heq⟩ | ⟨_, _, _, _, heq, _⟩ <;> cases heq
  | quiet _ _ heffects => exact honoured_of_quiet heffects

/-- The player is charged for the route that is taken, and sees what is left of the budget. -/
theorem Step.attempted {start stop : Coord} (hsound : w.Sound)
    (hids : (w.actors.map (·.id)).Nodup) (h : Step s rules w g (.attempt start stop) t) :
    start = stop ∧ ∃ p tiles, w.player? = some p ∧
      (w.applyAll t.effects).2 = [.moved p.id p.coord stop (w.grid.route p.coord stop),
        .highlighted stop t.state.budget tiles] ∧
      1 ≤ (w.grid.route p.coord stop).length ∧
      (w.grid.route p.coord stop).length < w.grid.layout.tileCount ∧
      min (w.grid.route p.coord stop).length countMax + t.state.budget = s.budget := by
  cases h with
  | @moved stop p hphase hplayer hroute hpos hbudget =>
    have hfound := World.actor?_of_mem hids (hsound.numbered.mem_of_player? hplayer)
    have hadmits := hsound.admits hfound hroute hpos
    exact ⟨rfl, p, _, hplayer, hadmits.events_highlight _, hpos,
      Grid.route_length_lt hsound.current hroute hadmits.away.symm, Nat.add_sub_of_le hbudget⟩
  | quiet hinput => exact absurd rfl (hinput start stop)

/-- When it is the turn of the others, each of them moves at most once, and one tile far. -/
theorem Step.wander (hsound : w.Sound) (hids : (w.actors.map (·.id)).Nodup)
    (hphase : s.phase = .npcBegin) (h : Step s rules w g input t) :
    (((w.applyAll t.effects).2.filterMap Event.arrival?).map Prod.fst).Nodup ∧
      ∀ id origin goal route, .moved id origin goal route ∈ (w.applyAll t.effects).2 →
        route.length = 1 ∧ ∃ npc ∈ w.ofKind .npc, npc.id = id ∧ npc.coord = origin := by
  cases h with
  | opened hopened => simp [hphase] at hopened
  | moved hmoved => simp [hphase] at hmoved
  | wandered =>
    have hfollows := Wander.Follows.first hsound hids
    obtain ⟨harrivals, hkinds⟩ := Wander.planFor_honoured hfollows g
    constructor
    · refine List.Nodup.sublist ?_ hfollows.distinct
      rw [Wander.plan, harrivals]
      exact Wander.planFor_movers w _ g _
    · intro id origin goal route hmem
      rcases hkinds _ hmem with ⟨_, _, heq⟩ | ⟨npc, hnpc, _, _, heq, hlength⟩
      · cases heq
      · cases heq
        exact ⟨hlength, npc, hnpc, rfl, rfl⟩
  | quiet _ _ heffects =>
    have hevents := quiet_events (w := w) heffects
    rw [World.arrivals_eq_nil hevents]
    refine ⟨.nil, fun id origin goal route hmem => ?_⟩
    cases hevents _ hmem

/-- With the greatest budget every route is accepted, and one that is too long to be counted uses it
up. -/
theorem transition_overlong {p : Actor} {stop : Coord} (rules : TurnRules) (g : Generator)
    (hsound : w.Sound) (hids : (w.actors.map (·.id)).Nodup) (hphase : s.phase = .playerActs)
    (hbudget : s.budget = countMax) (hplayer : w.player? = some p)
    (hin : w.grid.contains stop = true) (hfound : (w.grid.route p.coord stop).isFound = true)
    (hlong : countMax < (w.grid.route p.coord stop).length) :
    ∃ t tiles, transition s (.attempt stop stop) rules w g = .ok t ∧ t.state.budget = 0 ∧
      (w.applyAll t.effects).2 = [.moved p.id p.coord stop (w.grid.route p.coord stop),
        .highlighted stop t.state.budget tiles] := by
  have hmin : min (w.grid.route p.coord stop).length countMax = countMax :=
    Nat.min_eq_right (Nat.le_of_lt hlong)
  have hattempt : transition s (.attempt stop stop) rules w g = attempt s stop stop w g :=
    transition_attempt hphase
  have haccepted := hattempt.trans (attempt_ok.mpr ⟨rfl, hphase, hin, p, hplayer, hfound,
    Nat.zero_lt_of_lt hlong, by rw [hmin, hbudget], rfl⟩)
  obtain ⟨_, q, tiles, hq, hevents, _, _, hcharged⟩ :=
    (step_of_transition haccepted).attempted hsound hids
  obtain rfl := Option.some.inj (hplayer.symm.trans hq)
  exact ⟨_, tiles, haccepted, by omega, hevents⟩

/-- Commands of the turns are always honoured. Whatever commands have led to a world, as long as its
actors have numbers of their own an accepted input is carried out as it says: no move is rejected
and every move arrives. The player's leads to the tile chosen, along a route whose length the budget
is charged for, and shows what is left of the budget from there; the length is counted in 32 bits,
which can matter on boards of more than `2 ^ 32` tiles alone. Others move at most once, and one tile
far. -/
theorem transition_honoured (hw : w.Reached) (hlen : w.actors.length ≤ 4294967296)
    (h : transition s input rules w g = .ok t) :
    let events := (w.applyAll t.effects).2
    (∀ id goal reason, .moveRejected id goal reason ∉ events) ∧
      events.filterMap Event.arrival? = t.effects.filterMap Command.order? ∧
      (∀ start stop, input = .attempt start stop → start = stop ∧ ∃ p tiles,
        w.player? = some p ∧
        events = [.moved p.id p.coord stop (w.grid.route p.coord stop),
          .highlighted stop t.state.budget tiles] ∧
        1 ≤ (w.grid.route p.coord stop).length ∧
        min (w.grid.route p.coord stop).length 4294967295 + t.state.budget = s.budget ∧
        (w.grid.layout.tileCount ≤ 4294967296 ∨ s.budget < 4294967295 →
          (w.grid.route p.coord stop).length + t.state.budget = s.budget)) ∧
      (s.phase = .npcBegin →
        ((events.filterMap Event.arrival?).map Prod.fst).Nodup ∧
        ∀ id origin goal route, .moved id origin goal route ∈ events → route.length = 1 ∧
          ∃ npc ∈ w.ofKind .npc, npc.id = id ∧ npc.coord = origin) := by
  have hsound := hw.sound
  have hids := hsound.numbered.ids_nodup hlen
  have hstep := step_of_transition h
  obtain ⟨hrejected, harrivals⟩ := hstep.honoured hsound hids
  refine ⟨hrejected, harrivals, ?_, fun hphase => hstep.wander hsound hids hphase⟩
  rintro start stop rfl
  obtain ⟨hsame, p, tiles, hplayer, hevents, hpos, hlt, hcharged⟩ := hstep.attempted hsound hids
  refine ⟨hsame, p, tiles, hplayer, hevents, hpos, hcharged, fun hsmall => ?_⟩
  simp only [countMax] at hcharged
  omega

/-- The turn of the others begins with their plan. -/
theorem transition_npcBegin (rules : TurnRules) (w : World) (g : Generator)
    (hphase : s.phase = .npcBegin) :
    transition s .advance rules w g =
      .ok ⟨{ s with phase := .npcActs }, (Wander.plan w g).1, (Wander.plan w g).2⟩ := by
  simp [transition, advance, hphase, Phase.isFinal]

/-- Two actors on one tile, which was opened again between their placements. -/
def crowded : World := ((World.vacant .standard).applyAll
  [.place .npc ⟨0, 0⟩, .setCost ⟨0, 0⟩ Tile.openCost, .place .npc ⟨0, 0⟩]).1

/-- Even they are moved apart without a rejection. -/
theorem transition_honoured_crowded :
    crowded.Reached ∧ crowded.actors.length ≤ 4294967296 ∧
      ∃ t, transition ⟨.npcBegin, 0, 0, none⟩ .advance .standard crowded (.ofSeed 0) = .ok t ∧
        ∀ id goal reason, .moveRejected id goal reason ∉ (crowded.applyAll t.effects).2 := by
  have hreached : crowded.Reached := ⟨.standard, _, rfl⟩
  have hlength : crowded.actors.length ≤ 4294967296 := by decide +kernel
  have htransition := transition_npcBegin .standard crowded (.ofSeed 0)
    (s := ⟨.npcBegin, 0, 0, none⟩) rfl
  exact ⟨hreached, hlength, _, htransition, (transition_honoured hreached hlength htransition).1⟩

/-- On the widest winding board the route to the far corner is longer than any budget, and with the
greatest one it is taken all the same. -/
theorem overlong_route_accepted :
    let now := (Battle.windingBattle 2147483647).play [.advance, .advance, .advance]
    let corner := Grid.farCorner 2147483647
    now.world.Reached ∧ now.world.actors.length ≤ 4294967296 ∧ now.state.budget = 4294967295 ∧
      ∃ t p tiles, now.world.player? = some p ∧
        transition now.state (.attempt corner corner) now.rules now.world now.generator = .ok t ∧
        (now.world.applyAll t.effects).2 =
          [.moved p.id p.coord corner (now.world.grid.route p.coord corner),
            .highlighted corner t.state.budget tiles] ∧
        (now.world.grid.route p.coord corner).length = 6442450940 ∧
        (now.world.grid.route p.coord corner).length + t.state.budget ≠ now.state.budget := by
  have hcreate := @Battle.create_winding 2147483647 (by decide) (by decide)
  have hreached := Battle.play_reached (Battle.create_ok hcreate).2.1 [.advance, .advance, .advance]
  obtain ⟨hstate, _, q, hactors, _⟩ := Battle.opened_winds hcreate
  obtain ⟨p, hplayer, hin, hfound, hlength⟩ := Battle.opened_route (by decide) hcreate
  generalize (Battle.windingBattle 2147483647).play [.advance, .advance, .advance] = now
    at hreached hstate hactors hplayer hin hfound hlength ⊢
  have hlen : now.world.actors.length ≤ 4294967296 := by simp [hactors]
  have hbudget : now.state.budget = 4294967295 := by rw [hstate]
  obtain ⟨t, tiles, haccepted, hspent, hevents⟩ := transition_overlong now.rules now.generator
    hreached.sound (hreached.sound.numbered.ids_nodup hlen) (by rw [hstate]) hbudget hplayer hin
    hfound (by rw [hlength]; decide)
  exact ⟨hreached, hlen, hbudget, t, p, tiles, hplayer, haccepted, hevents, hlength, by omega⟩

end Turn

end HexSkirmish
