import HexSkirmish.Proofs.Campaign
import HexSkirmish.Proofs.Obedience

/-! What is highlighted is what can be clicked. While a battle waits for the player, the movement
highlight is the one that was painted around the player's tile with the budget that is left; the
flow field that painted it and the search that judges a click agree on every tile. -/

namespace HexSkirmish

namespace World

variable {w v : World} {p q : Actor} {goal : Coord} {budget : Nat}

/-- The player was placed first. -/
def Led (w : World) (p : Actor) : Prop := p.kind = .player ∧ ∃ others, w.actors = p :: others

theorem Led.player? (h : w.Led p) (hw : w.Numbered) : w.player? = some p := by
  obtain ⟨hkind, others, hactors⟩ := h
  simp [World.player?, hw.roster, hactors, hkind]

theorem Led.eq_of_player? (h : w.Led p) (hw : w.Numbered) (hq : w.player? = some q) : p = q :=
  Option.some.inj ((h.player? hw).symm.trans hq)

theorem Led.unique (h : w.Led p) (h' : w.Led q) : q = p := by
  obtain ⟨_, _, hactors⟩ := h
  obtain ⟨_, _, hactors'⟩ := h'
  rw [hactors] at hactors'
  exact (List.cons.inj hactors').1.symm

theorem Led.actor? (h : w.Led p) : w.actor? p.id = some p := by
  obtain ⟨_, others, hactors⟩ := h
  simp [World.actor?, hactors]

theorem Led.alike (h : w.Led p) (hv : Alike w v) : v.Led p := by
  rw [Led, hv.actors]
  exact h

theorem Led.moved (h : w.Led p) (hv : Moved w p goal v) : v.Led { p with coord := goal } := by
  obtain ⟨hkind, others, hactors⟩ := h
  exact ⟨hkind, others, by simp [hv.actors, hactors, relocate]⟩

theorem Led.moved_other (h : w.Led p) (hne : p.id ≠ q.id) (hv : Moved w q goal v) : v.Led p := by
  obtain ⟨hkind, others, hactors⟩ := h
  exact ⟨hkind, relocate q.id goal others, by simp [hv.actors, hactors, relocate, hne]⟩

/-- Whoever moves, the player is still the first. -/
theorem led_apply {command : Command} (h : ∃ p, w.Led p) (hcommand : command.isSetup = false) :
    ∃ p, (w.apply command).1.Led p := by
  obtain ⟨p, hled⟩ := h
  rcases apply_cases hcommand with halike | ⟨a, goal, hadmits, hmoved⟩
  · exact ⟨p, hled.alike halike⟩
  · by_cases hid : p.id = a.id
    · obtain rfl : p = a := Option.some.inj (hled.actor?.symm.trans (hid ▸ hadmits.found))
      exact ⟨_, hled.moved hmoved⟩
    · exact ⟨p, hled.moved_other hid hmoved⟩

/-- A world in which a battle can go on. -/
structure Ready (w : World) : Prop where
  sound : w.Sound
  led : ∃ p, w.Led p

theorem Ready.applyAll {commands : List Command} (h : w.Ready)
    (hcommands : ∀ command ∈ commands, command.isSetup = false) :
    (w.applyAll commands).1.Ready :=
  applyAll_invariant h fun _ command hc hv =>
    ⟨hv.sound.apply command, led_apply hv.led (hcommands command hc)⟩

/-- The movement highlight shows where the player can go. -/
def Shows (w : World) (p : Actor) (budget : Nat) : Prop :=
  ∀ t, w.grid.contains t = true → (w.grid.effect? t = some .moveable ↔
    1 ≤ w.grid.steps p.coord t ∧ w.grid.steps p.coord t ≤ budget)

theorem Sound.shows_highlight (h : w.Sound) (p : Actor) (budget : Nat) :
    (w.apply (.highlight p.coord budget)).1.Shows p budget := by
  intro t ht
  have hin : w.grid.contains t = true := by simpa [World.apply, Grid.contains] using ht
  simp only [World.apply, Grid.effect?_highlight hin, Grid.steps_highlight h.current]

/-- What is shown is what a route within the budget leads to. -/
theorem Sound.shows_iff (h : w.Sound) (hled : w.Led p) (hshows : w.Shows p budget)
    (hbudget : budget < Grid.unreachable) {t : Coord} :
    w.grid.effect? t = some .moveable ↔ w.grid.contains t = true ∧
      (w.grid.route p.coord t).isFound = true ∧ 0 < (w.grid.route p.coord t).length ∧
      (w.grid.route p.coord t).length ≤ budget := by
  obtain ⟨_, others, hactors⟩ := hled
  have hp := h.inside p (by simp [hactors])
  by_cases ht : w.grid.contains t = true
  · rw [hshows t ht, Grid.within_iff_route h.current hp ht hbudget]
    simp [ht]
  · have hnone := Grid.tileAt?_eq_none.mpr (Bool.eq_false_iff.mpr ht)
    simp [Grid.effect?, hnone, ht]

end World

namespace Battle

variable {c : BattleConfig} {seed : UInt64} {b : Battle} {events : List Event}
  {input : TurnInput} {t : Transition}

/-- While the player may act, the highlight is up to date. -/
structure Shown (b : Battle) : Prop where
  sound : b.world.Sound
  led : ∃ p, b.world.Led p
  rules : b.rules.movementPerTurn < Grid.unreachable
  shows : b.state.phase = .playerActs → b.state.budget < Grid.unreachable ∧
    ∀ p, b.world.Led p → b.world.Shows p b.state.budget

theorem create_ready (h : create c seed = .ok (b, events)) : b.world.Ready := by
  obtain ⟨_, hreached, _, hactors, _⟩ := create_ok h
  refine ⟨hreached.sound, ?_⟩
  cases hworld : b.world.actors with
  | nil => simp [hworld] at hactors
  | cons p others =>
    rw [hworld, List.map_cons] at hactors
    exact ⟨p, congrArg Prod.fst (List.cons.inj hactors).1, others, hworld⟩

theorem play_ready (h : create c seed = .ok (b, events)) (inputs : List TurnInput) :
    (b.play inputs).world.Ready :=
  play_world_invariant (create_ready h) (fun _ command hcommand hw =>
    ⟨hw.sound.apply command, World.led_apply hw.led hcommand⟩) inputs

theorem create_shown (h : create c seed = .ok (b, events))
    (hrules : c.movementPerTurn < 4294967295) : Shown b := by
  obtain ⟨_, _, _, _, hstate, hsame⟩ := create_ok h
  obtain ⟨hsound, hled⟩ := create_ready h
  exact ⟨hsound, hled, by rw [hsame]; exact hrules, by simp [hstate, TurnState.initial]⟩

/-- Whatever paints the highlight around the player's tile with the budget that is left keeps it up
to date. -/
theorem shows_of_highlight {w : World} {p : Actor} (h : w.Sound) (hled : w.Led p) (budget : Nat) :
    ∀ q, (w.apply (.highlight p.coord budget)).1.Led q →
      (w.apply (.highlight p.coord budget)).1.Shows q budget := by
  intro q hq
  have hp : (w.apply (.highlight p.coord budget)).1.Led p := hled.alike (World.apply_alike rfl)
  rw [hp.unique hq]
  exact h.shows_highlight p budget

/-- The player's move paints the highlight around the tile that it leads to. -/
theorem shows_of_move {w : World} {p : Actor} {stop : Coord} (h : w.Sound) (hled : w.Led p)
    (hroute : (w.grid.route p.coord stop).isFound = true)
    (hpos : 0 < (w.grid.route p.coord stop).length) (budget : Nat) :
    ∀ q, (w.applyAll [.move p.id stop none, .highlight stop budget]).1.Led q →
      (w.applyAll [.move p.id stop none, .highlight stop budget]).1.Shows q budget := by
  have hadmits := h.admits hled.actor? hroute hpos
  have hmoved := hadmits.moved none
  have hsound := h.moved (Grid.contains_of_free hadmits.free) hmoved
  exact shows_of_highlight hsound (hled.moved hmoved) budget

theorem Shown.follow (h : Shown b)
    (hstep : Turn.Step b.state b.rules b.world b.generator input t) : Shown (b.follow t) where
  sound := h.sound.applyAll _
  led := (World.Ready.applyAll ⟨h.sound, h.led⟩ hstep.isSetup).led
  rules := h.rules
  shows := by
    obtain ⟨p, hled⟩ := h.led
    cases hstep with
    | opened =>
      refine fun _ => ⟨h.rules, ?_⟩
      simp only [follow, Turn.openingEffects, hled.player? h.sound.numbered, World.applyAll_cons,
        World.applyAll_nil]
      exact shows_of_highlight h.sound hled _
    | @moved stop q hphase hplayer hroute hpos _ =>
      have hbudget := (h.shows hphase).1
      refine fun _ => ⟨Nat.lt_of_le_of_lt (Nat.sub_le _ _) hbudget, ?_⟩
      obtain rfl := hled.eq_of_player? h.sound.numbered hplayer
      exact shows_of_move h.sound hled hroute hpos _
    | wandered =>
      intro hacts
      cases hacts
    | quiet _ hphase _ => exact fun hacts => absurd hacts hphase

/-- What is highlighted is exactly what can be clicked. In every battle that waits for the player, a
click on a cell, on the board or off it, is accepted if and only if the cell has a tile with the
movement highlight. -/
theorem click_accepted_iff_highlighted (h : create c seed = .ok (b, events))
    (hrules : c.movementPerTurn < 4294967295) (inputs : List TurnInput)
    (hphase : (b.play inputs).state.phase = .playerActs) (t : Coord) :
    (∃ next events, (b.play inputs).submit (.attempt t t) = .ok (next, events)) ↔
      ∃ tile, (b.play inputs).world.grid.tileAt? t = some tile ∧ tile.effect = .moveable := by
  have hshown : Shown (b.play inputs) :=
    play_invariant (create_shown h hrules) (fun _ _ _ hb hstep => hb.follow hstep) inputs
  generalize b.play inputs = now at hshown hphase ⊢
  obtain ⟨p, hled⟩ := hshown.led
  obtain ⟨hbudget, hshows⟩ := hshown.shows hphase
  have hplayer := hled.player? hshown.sound.numbered
  have hlit := hshown.sound.shows_iff hled (hshows p hled) hbudget (t := t)
  rw [Grid.effect?, Option.map_eq_some_iff] at hlit
  rw [click_accepted_iff_of_lt hphase hplayer hbudget]
  exact hlit.symm

theorem click_accepted_iff_highlighted_narrows :
    (narrowsBattle.play [.advance, .advance, .advance]).state.phase = .playerActs ∧
      ∃ next events, (narrowsBattle.play [.advance, .advance, .advance]).submit
        (.attempt ⟨0, 1⟩ ⟨0, 1⟩) = .ok (next, events) := by
  have hphase : (narrowsBattle.play [.advance, .advance, .advance]).state.phase = .playerActs := by
    decide +kernel
  have hclick := click_accepted_iff_highlighted create_narrows (by decide) _ hphase ⟨0, 1⟩
  exact ⟨hphase, hclick.mpr ⟨⟨Tile.openCost, .moveable⟩, by decide +kernel, rfl⟩⟩

end Battle

end HexSkirmish
