import HexSkirmish.Proofs.Highlights

/-! The life of the movement highlight. It is painted when the player's turn opens, painted again
after every move, and wiped when the turn closes or the battle is concluded; nothing else that a
battle does can put it on a tile. So it shows during the player's turn where the budget that is left
can lead, and is nowhere to be seen in any other phase. -/

namespace HexSkirmish

/-- Whether a command can put the movement highlight on a tile. -/
def Command.paints : Command → Bool
  | .setEffect _ e => e == .moveable
  | .move _ _ tag => tag == some .moveable
  | .highlight .. => true
  | _ => false

namespace Grid

variable {g : Grid} {c : Coord}

theorem effect?_vacant_ne {l : Layout} {s : TileEffect} (hs : s ≠ .plain) :
    (vacant l).effect? c ≠ some s := by
  cases h : l.index? c with
  | none => simp [effect?, tileAt?, h]
  | some i =>
    have hlt := Layout.index?_lt h
    simp [effect?, tileAt?, vacant, h, hlt, Tile.floor, hs.symm]

end Grid

namespace World

variable {w : World} {command : Command} {commands : List Command} {a : Actor} {goal c : Coord}
  {tag : Option TileEffect}

/-- No tile carries the movement highlight. -/
def Unmarked (w : World) : Prop := ∀ t, w.grid.effect? t ≠ some .moveable

namespace Unmarked

theorem setEffect (h : w.Unmarked) (c : Coord) {e : TileEffect} (he : e ≠ .moveable) :
    (w.setEffect c e).1.Unmarked := by
  intro t
  rw [effect?_setEffect]
  split
  · cases w.grid.effect? t <;> simp [he]
  · exact h t

theorem setCost (h : w.Unmarked) (c : Coord) (k : UInt16) :
    ({ w with grid := w.grid.setCost c k } : World).Unmarked := fun t => by
  simpa only [Grid.effect?_setCost] using h t

theorem commitMove (h : w.Unmarked) (htag : tag ≠ some .moveable) (route : Route) :
    (w.commitMove a goal tag route).1.Unmarked := by
  have hpaid : ({ w with grid :=
      ((w.grid.setCost goal Tile.blockedCost).setCost a.coord Tile.openCost).rebuild } :
      World).Unmarked := fun t => by
    simpa only [Grid.effect?_rebuild, Grid.effect?_setCost] using h t
  cases tag with
  | none => exact hpaid
  | some e =>
    have he : e ≠ .moveable := fun he => htag (congrArg some he)
    exact (hpaid.setEffect goal he).setEffect a.coord (by decide)

theorem move (h : w.Unmarked) (id : ActorId) (goal : Coord) (htag : tag ≠ some .moveable) :
    (w.move id goal tag).1.Unmarked := by
  have hready : ({ w with grid := w.grid.refresh } : World).Unmarked := fun t => by
    simpa only [Grid.effect?_refresh] using h t
  rcases move_outcome w id goal tag with ⟨a, rfl, hadmits⟩ | ⟨_, _, hsame | hrefreshed⟩
  · rw [hadmits.move_eq]
    exact hready.commitMove htag _
  · rw [hsame]
    exact h
  · rw [hrefreshed]
    exact hready

/-- Only some commands can bring the highlight back. -/
theorem apply (h : w.Unmarked) (hcommand : command.paints = false) :
    (w.apply command).1.Unmarked := by
  cases command with
  | configure width height size =>
    simp only [World.apply]
    split
    · exact fun t => Grid.effect?_vacant_ne (by decide)
    · exact h
  | setCost c k =>
    simp only [World.apply]
    split
    · exact h.setCost c k
    · exact h
  | rebuildEdges => exact h
  | setEffect c e => exact h.setEffect c (by simpa [Command.paints] using hcommand)
  | clearEffect c => exact h.setEffect c (by decide)
  | clearEffects e =>
    intro t
    have ht := h t
    simp only [World.apply, Grid.effect?_clearEffects]
    cases he : w.grid.effect? t with
    | none => simp
    | some k =>
      rw [he, ne_eq, Option.some.injEq] at ht
      rw [Option.map_some]
      split <;> simp [ht]
  | place kind c =>
    simp only [World.apply, World.place]
    split
    · exact h
    · split
      · exact h
      · exact h.setCost c _
  | move id goal tag => exact h.move id goal (by simpa [Command.paints] using hcommand)
  | highlight => cases hcommand
  | draw card => exact h

theorem applyAll (h : w.Unmarked) (hcommands : ∀ command ∈ commands, command.paints = false) :
    (w.applyAll commands).1.Unmarked :=
  applyAll_invariant h fun _ command hc hv => hv.apply (hcommands command hc)

end Unmarked

/-- Wiping the highlight leaves none. -/
theorem unmarked_clearEffects (w : World) : (w.apply (.clearEffects .moveable)).1.Unmarked :=
  fun _ => Grid.effect?_clearEffects_ne (by decide)

end World

/-! ### Commands that do not paint -/

namespace Turn

theorem drawCards_paints (n : Nat) (g : Generator) :
    ∀ command ∈ (drawCards n g).1, command.paints = false := by
  intro command hcommand
  obtain ⟨card, rfl⟩ := mem_drawCards hcommand
  rfl

theorem plan_paints (w : World) (g : Generator) :
    ∀ command ∈ (Wander.plan w g).1, command.paints = false := by
  intro command hcommand
  obtain ⟨_, _, _, rfl⟩ := Wander.mem_planFor hcommand
  rfl

end Turn

namespace Battle

variable {c : BattleConfig} {seed : UInt64} {b : Battle} {events : List Event}
  {input : TurnInput} {t : Transition}

theorem setupCommands_paints (c : BattleConfig) :
    ∀ command ∈ setupCommands c, command.paints = false := by
  intro command hcommand
  rcases mem_setupCommands hcommand with ⟨_, rfl⟩ | ⟨_, _, rfl⟩ | rfl <;> rfl

theorem create_unmarked (h : create c seed = .ok (b, events)) : b.world.Unmarked := by
  obtain ⟨l, _, hworld, _⟩ := create_eq h
  rw [hworld]
  exact World.Unmarked.applyAll (fun _ => Grid.effect?_vacant_ne (by decide))
    (setupCommands_paints c)

/-! ### Runs -/

/-- During the player's turn the highlight is up to date, and in all other phases there is none. -/
structure Overlaid (b : Battle) : Prop where
  ready : b.world.Ready
  shows : b.state.phase.isPlayers = true → ∀ p, b.world.Led p → b.world.Shows p b.state.budget
  blank : b.state.phase.isPlayers = false → b.world.Unmarked

theorem create_overlaid (h : create c seed = .ok (b, events)) : Overlaid b where
  ready := create_ready h
  shows := by
    obtain ⟨_, _, _, _, hstate, _⟩ := create_ok h
    simp [hstate, TurnState.initial, Phase.isPlayers]
  blank := fun _ => create_unmarked h

theorem Overlaid.follow (h : Overlaid b)
    (hpassage : Turn.Passage b.state b.rules b.world b.generator input t) :
    Overlaid (b.follow t) := by
  have hready := h.ready.applyAll hpassage.step.isSetup
  obtain ⟨p, hled⟩ := h.ready.led
  -- The highlight is painted on opening and after a move, and wiped on closing and at the end;
  -- nothing else that a turn does touches it.
  cases hpassage with
  | passed hphase =>
    obtain ⟨hbefore, hnext, _⟩ := Turn.idlePhases_apart _ hphase
    exact ⟨hready, fun hplayers => absurd hplayers (Bool.eq_false_iff.mp hnext),
      fun _ => h.blank hbefore⟩
  | dealt hphase =>
    have hblank := h.blank (by rw [hphase]; rfl)
    refine ⟨hready, fun hplayers => ?_, fun _ => hblank.applyAll (Turn.drawCards_paints _ _)⟩
    cases hplayers
  | opened =>
    refine ⟨hready, fun _ => ?_, fun hplayers => ?_⟩
    · simp only [Battle.follow, Turn.openingEffects, hled.player? h.ready.sound.numbered,
        World.applyAll_cons, World.applyAll_nil]
      exact shows_of_highlight h.ready.sound hled _
    · cases hplayers
  | @moved stop q hphase hplayer hfound hpos _ =>
    obtain rfl := hled.eq_of_player? h.ready.sound.numbered hplayer
    refine ⟨hready, fun _ => shows_of_move h.ready.sound hled hfound hpos _, ?_⟩
    simp [Battle.follow, hphase, Phase.isPlayers]
  | ended hphase =>
    refine ⟨hready, fun _ => h.shows (by rw [hphase]; rfl), fun hplayers => ?_⟩
    cases hplayers
  | closed =>
    refine ⟨hready, fun hplayers => ?_, fun _ => ?_⟩
    · cases hplayers
    · simp only [Battle.follow, Turn.closingEffects, World.applyAll_append]
      exact World.unmarked_clearEffects _
  | wandered hphase =>
    have hblank := h.blank (by rw [hphase]; rfl)
    refine ⟨hready, fun hplayers => ?_, fun _ => hblank.applyAll (Turn.plan_paints _ _)⟩
    cases hplayers
  | renewed hphase =>
    refine ⟨hready, fun hplayers => ?_, fun _ => h.blank (by rw [hphase]; rfl)⟩
    cases hplayers
  | concluded =>
    refine ⟨hready, fun hplayers => ?_, fun _ => World.unmarked_clearEffects _⟩
    cases hplayers

/-- The life of the movement highlight. From whatever setup and after whatever inputs, during the
player's turn it is on exactly those tiles that the flow field of the player's tile, over the tiles
as they are, shows from one to as many steps away as the budget has left, and in every other phase
it is on no tile. -/
theorem highlight_lifecycle (h : create c seed = .ok (b, events)) (inputs : List TurnInput) :
    let now := b.play inputs
    ∃ p, now.world.player? = some p ∧
      now.world.grid.currentEdges = .build now.world.grid.layout now.world.grid.tiles ∧
      (now.state.phase = .playerActs ∨ now.state.phase = .playerEnd →
        ∀ t, now.world.grid.contains t = true →
          (now.world.grid.effect? t = some .moveable ↔
            1 ≤ now.world.grid.distanceIn t (now.world.grid.flow p.coord) ∧
              now.world.grid.distanceIn t (now.world.grid.flow p.coord) ≤ now.state.budget)) ∧
      (now.state.phase ≠ .playerActs → now.state.phase ≠ .playerEnd →
        ∀ t, now.world.grid.effect? t ≠ some .moveable) := by
  intro now
  have hnow : Overlaid now :=
    play_induction (create_overlaid h) (fun _ _ _ hb hpassage => hb.follow hpassage) inputs
  obtain ⟨p, hled⟩ := hnow.ready.led
  refine ⟨p, hled.player? hnow.ready.sound.numbered,
    Grid.currentEdges_eq hnow.ready.sound.current, fun hplayers => ?_, fun hacts hend => ?_⟩
  · exact hnow.shows (by simpa [Phase.isPlayers] using hplayers) p hled
  · exact hnow.blank (by simp [Phase.isPlayers, hacts, hend])

/-- With one step left the player could go back. When the turn is over that is no longer shown. -/
theorem highlight_lifecycle_narrows : create narrows 0 = .ok (narrowsBattle,
      ((World.vacant narrowsBoard).applyAll (setupCommands narrows)).2) ∧
    (narrowsBattle.play [.advance, .advance, .advance,
      .attempt ⟨0, 1⟩ ⟨0, 1⟩]).world.grid.effect? ⟨0, 0⟩ = some .moveable ∧
    ∀ t, (narrowsBattle.play [.advance, .advance, .advance, .attempt ⟨0, 1⟩ ⟨0, 1⟩, .endTurn,
      .advance]).world.grid.effect? t ≠ some .moveable := by
  obtain ⟨p, hplayer, _, hshows, _⟩ := highlight_lifecycle create_narrows [.advance, .advance,
    .advance, .attempt ⟨0, 1⟩ ⟨0, 1⟩]
  obtain ⟨_, _, _, _, hblank⟩ := highlight_lifecycle create_narrows [.advance, .advance, .advance,
    .attempt ⟨0, 1⟩ ⟨0, 1⟩, .endTurn, .advance]
  have hplace : p.coord = ⟨0, 1⟩ := by
    have : (narrowsBattle.play [.advance, .advance, .advance,
        .attempt ⟨0, 1⟩ ⟨0, 1⟩]).world.player?.map Actor.coord = some ⟨0, 1⟩ := by decide +kernel
    rw [hplayer] at this
    exact Option.some.inj this
  refine ⟨create_narrows, (hshows (.inl (by decide +kernel)) ⟨0, 0⟩ (by decide +kernel)).mpr ?_,
    hblank (by decide +kernel) (by decide +kernel)⟩
  rw [hplace]
  decide +kernel

end Battle

end HexSkirmish
