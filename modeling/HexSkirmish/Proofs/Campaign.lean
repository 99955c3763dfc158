import HexSkirmish.Proofs.Setup

/-! Whole battles. Whatever inputs are given and whatever words the generator draws, the actors of
the setup stay who they are, and its walls and they hold the blocked tiles among them: no move leaves
a ghost behind, and none puts two actors on one tile. -/

namespace HexSkirmish

theorem World.apply_identities {w : World} {command : Command} (h : command.isSetup = false) :
    (w.apply command).1.grid.layout = w.grid.layout ∧
      (w.apply command).1.actors.map (fun a => (a.id, a.kind)) =
        w.actors.map fun a => (a.id, a.kind) := by
  rcases apply_cases h with halike | ⟨a, goal, _, hmoved⟩
  · exact ⟨halike.layout, by rw [halike.actors]⟩
  · exact ⟨hmoved.layout, by rw [hmoved.actors, relocate_kinds]⟩

namespace Battle

variable {c : BattleConfig} {seed : UInt64} {b : Battle} {events : List Event}

theorem play_reached (h : b.world.Reached) (inputs : List TurnInput) :
    (b.play inputs).world.Reached :=
  play_world_invariant h (fun _ command _ hw => hw.applyAll [command]) inputs

theorem play_settled {walls : List Coord} (h : b.world.Settled walls) (inputs : List TurnInput) :
    (b.play inputs).world.Settled walls :=
  play_world_invariant h (fun _ _ hcommand hw => hw.apply hcommand) inputs

theorem play_identities (b : Battle) (inputs : List TurnInput) :
    (b.play inputs).world.grid.layout = b.world.grid.layout ∧
      (b.play inputs).world.actors.map (fun a => (a.id, a.kind)) =
        b.world.actors.map fun a => (a.id, a.kind) :=
  play_world_invariant (P := fun w => w.grid.layout = b.world.grid.layout ∧
      w.actors.map (fun a => (a.id, a.kind)) = b.world.actors.map fun a => (a.id, a.kind))
    ⟨rfl, rfl⟩
    (fun _ _ hcommand hw =>
      ⟨(World.apply_identities hcommand).1.trans hw.1,
        (World.apply_identities hcommand).2.trans hw.2⟩) inputs

theorem play_kinds (b : Battle) (inputs : List TurnInput) :
    (b.play inputs).world.actors.map (·.kind) = b.world.actors.map (·.kind) := by
  have := congrArg (List.map Prod.snd) (play_identities b inputs).2
  simpa [Function.comp_def] using this

theorem create_kinds (h : create c seed = .ok (b, events)) :
    b.world.actors.map (·.kind) = .player :: List.replicate c.npcs.length .npc := by
  obtain ⟨_, _, _, hactors, _⟩ := create_ok h
  have := congrArg (List.map Prod.fst) hactors
  simpa [Function.comp_def] using this

theorem create_length (h : create c seed = .ok (b, events)) :
    b.world.actors.length = c.npcs.length + 1 := by
  have := congrArg List.length (create_kinds h)
  simpa using this

theorem play_length (b : Battle) (inputs : List TurnInput) :
    (b.play inputs).world.actors.length = b.world.actors.length := by
  have := congrArg List.length (play_kinds b inputs)
  simpa using this

/-- Who the actors are, all through the battle: the player first, and then the others in the order
of the setup. -/
theorem play_actors (h : create c seed = .ok (b, events)) (hn : c.npcs.length < 4294967296)
    (g : Generator) (inputs : List TurnInput) :
    (({ b with generator := g } : Battle).play inputs).world.actors.map
        (fun a => (a.id.number.toNat, a.kind)) =
      (0, .player) :: (List.range c.npcs.length).map fun i => (i + 1, .npc) := by
  have hsound := (play_reached (b := { b with generator := g }) (create_ok h).2.1 inputs).sound
  have hkinds := play_kinds { b with generator := g } inputs
  have hlength := play_length { b with generator := g } inputs
  generalize (({ b with generator := g } : Battle).play inputs).world = w
    at hsound hkinds hlength ⊢
  simp only [create_length h, create_kinds h] at hkinds hlength
  have hnumbers := hsound.numbered.numbers_eq (by simp only [hlength, countMax]; omega)
  rw [hlength, List.range_succ_eq_map] at hnumbers
  have hothers : List.replicate c.npcs.length ActorKind.npc =
      (List.range c.npcs.length).map fun _ => .npc := by
    rw [List.map_const', List.length_range]
  rw [hothers] at hkinds
  calc w.actors.map (fun a => (a.id.number.toNat, a.kind))
      = (w.actors.map (·.id.number.toNat)).zip (w.actors.map (·.kind)) := List.zip_map'.symm
    _ = _ := by rw [hnumbers, hkinds, List.zip_cons_cons, List.zip_map']

theorem play_standing (h : create c seed = .ok (b, events)) (hn : c.npcs.length < 4294967296)
    (inputs : List TurnInput) : (b.play inputs).world.Standing := by
  obtain ⟨_, hreached, hsettled, _⟩ := create_ok h
  have hlength := (play_length b inputs).trans (create_length h)
  have hnumbered := (play_reached hreached inputs).sound.numbered
  refine (play_settled hsettled inputs).standing (hnumbered.ids_nodup ?_)
  simp only [hlength, countMax]
  omega

/-- Occupancy is conserved. In every world to which inputs lead from a setup, the actors are those
of the setup, they and the walls hold tiles of their own, these are the blocked ones, and every
other tile costs what a free one does. -/
theorem occupancy_conserved (h : create c seed = .ok (b, events))
    (hn : c.npcs.length < 4294967296) (g : Generator) (inputs : List TurnInput) :
    let w := (({ b with generator := g } : Battle).play inputs).world
    Layout.create c.width c.height c.size = .ok w.grid.layout ∧
      b.world.actors.map (·.coord) = c.player :: c.npcs ∧
      w.roster = w.actors ∧
      w.actors.map (fun a => (a.id.number.toNat, a.kind)) =
        (0, .player) :: (List.range c.npcs.length).map (fun i => (i + 1, .npc)) ∧
      (c.obstacles ++ w.actors.map (·.coord)).Nodup ∧
      (∀ t ∈ w.actors.map (·.coord), w.grid.contains t = true) ∧
      (∀ t, w.grid.cost? t = some Tile.blockedCost ↔ t ∈ c.obstacles ++ w.actors.map (·.coord)) ∧
      (∀ t, w.grid.contains t = true → t ∉ c.obstacles ++ w.actors.map (·.coord) →
        w.grid.cost? t = some Tile.openCost) ∧
      w.grid.tiles.countP Tile.isObstacle = c.obstacles.length + c.npcs.length + 1 := by
  intro w
  obtain ⟨hlayout, hreached, hsettled, hactors, _⟩ := create_ok h
  have hsound : w.Sound := (play_reached (b := { b with generator := g }) hreached inputs).sound
  have hsettled : w.Settled c.obstacles :=
    play_settled (b := { b with generator := g }) hsettled inputs
  have hlength : w.actors.length = b.world.actors.length :=
    play_length { b with generator := g } inputs
  refine ⟨?_, ?_, hsound.numbered.roster, play_actors h hn g inputs, hsettled.nodup, ?_,
    fun t => hsettled.cost_eq_blocked, fun t hin ht => hsettled.cost_eq_open hin ht, ?_⟩
  · rw [hlayout]
    exact congrArg Except.ok (play_identities { b with generator := g } inputs).1.symm
  · have := congrArg (List.map Prod.snd) hactors
    simpa [Function.comp_def] using this
  · exact fun t ht => hsettled.inside t (List.mem_append_right _ ht)
  · rw [Grid.countP_isObstacle hsettled.nodup hsettled.inside fun t ht => hsettled.isObstacle ht]
    simp only [World.taken, List.length_append, List.length_map, hlength, create_length h]
    omega

/-- Two others and a wall leave the player hardly any room. -/
def narrows : BattleConfig where
  width := 3
  height := 2
  size := ⟨0x3f800000⟩
  movementPerTurn := 2
  handSize := 0
  seed := some 7
  player := ⟨0, 0⟩
  npcs := [⟨1, 0⟩, ⟨2, 1⟩]
  obstacles := [⟨1, 1⟩]

def narrowsBoard : Layout := (Layout.create 3 2 narrows.size).toOption.getD .standard

def narrowsBattle : Battle where
  world := ((World.vacant narrowsBoard).applyAll (setupCommands narrows)).1
  state := .initial
  rules := narrows.rules
  generator := .ofSeed 7
  seed := 7

theorem create_narrows : create narrows 0 =
    .ok (narrowsBattle, ((World.vacant narrowsBoard).applyAll (setupCommands narrows)).2) := rfl

/-- After a round in which the player gives way and the others move there are still four blocked
tiles. -/
theorem occupancy_conserved_narrows : narrows.npcs.length < 4294967296 ∧
    (narrowsBattle.play [.advance, .advance, .advance, .attempt ⟨0, 1⟩ ⟨0, 1⟩, .endTurn, .advance,
      .advance]).world.grid.tiles.countP Tile.isObstacle = 4 := by
  have hconserved := occupancy_conserved create_narrows (by decide) (.ofSeed 7) [.advance, .advance,
    .advance, .attempt ⟨0, 1⟩ ⟨0, 1⟩, .endTurn, .advance, .advance]
  obtain ⟨_, _, _, _, _, _, _, _, hcount⟩ := hconserved
  exact ⟨by decide, hcount⟩

end Battle

end HexSkirmish
