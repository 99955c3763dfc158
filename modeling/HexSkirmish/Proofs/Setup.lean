import HexSkirmish.Proofs.Occupancy

/-! What an accepted setup makes. Its entries lie on the board and apart from each other, so none of
the commands that carry it out is refused: every wall is built and every actor placed, in the order
in which the setup names them. -/

namespace HexSkirmish

namespace BattleConfig

variable {l : Layout} {c : BattleConfig}

/-- The cells that a setup names. -/
def cells (c : BattleConfig) : List Coord := c.player :: (c.npcs ++ c.obstacles)

theorem entries_cells (c : BattleConfig) : c.entries.map Prod.snd = c.cells := by
  simp [entries, cells, Function.comp_def]

/-- The check passes entries that lie on the board, apart from each other and from those taken. -/
theorem checkEntries_ok {taken : List Coord} {entries : List (String × Coord)} :
    checkEntries l taken entries = .ok () ↔ (entries.map Prod.snd).Nodup ∧
      ∀ c ∈ entries.map Prod.snd, l.contains c = true ∧ c ∉ taken := by
  induction entries generalizing taken with
  | nil => simp [checkEntries]
  | cons entry rest ih =>
    obtain ⟨word, c⟩ := entry
    by_cases hin : l.contains c = true
    · by_cases htaken : c ∈ taken
      · simp [checkEntries, hin, htaken]
      · simp only [checkEntries, hin, htaken, Bool.not_true, Bool.false_eq_true, if_false, ih,
          List.map_cons, List.nodup_cons, List.mem_cons, not_or, forall_eq_or_imp,
          not_false_eq_true, and_self, true_and]
        constructor
        · rintro ⟨hnodup, hrest⟩
          exact ⟨⟨fun hc => (hrest c hc).2.1 rfl, hnodup⟩,
            fun e he => ⟨(hrest e he).1, (hrest e he).2.2⟩⟩
        · rintro ⟨⟨hc, hnodup⟩, hrest⟩
          exact ⟨hnodup, fun e he => ⟨(hrest e he).1, fun hec => hc (hec ▸ he), (hrest e he).2⟩⟩
    · simp [checkEntries, hin]

theorem validate_ok (h : c.validate = .ok l) : Layout.create c.width c.height c.size = .ok l ∧
    c.cells.Nodup ∧ ∀ e ∈ c.cells, l.contains e = true := by
  simp only [validate] at h
  split at h
  · cases h
  · rename_i l' hl
    split at h
    · cases h
    · rename_i hcheck
      obtain rfl := Except.ok.inj h
      obtain ⟨hnodup, hcells⟩ := checkEntries_ok.mp hcheck
      rw [entries_cells] at hnodup hcells
      exact ⟨hl, hnodup, fun e he => (hcells e he).1⟩

end BattleConfig

/-! ### Walls and placements -/

/-- The report that an actor was placed. -/
def Event.ofActor (a : Actor) : Event := .placed a.id a.kind a.coord

namespace World.Settled

variable {walls cells ts : List Coord} {w : World} {kind : ActorKind} {c : Coord}

/-- The next of some cells is not among those before it, and can be counted as one of them. -/
theorem next_fresh (h : (ts ++ c :: cells).Nodup) : c ∉ ts ∧ (c :: ts ++ cells).Nodup := by
  rw [List.perm_middle.nodup_iff] at h
  exact ⟨fun hc => (List.nodup_cons.mp h).1 (List.mem_append_left _ hc), h⟩

/-- Walls are built on tiles that are still free. -/
theorem buildWalls (h : w.Settled walls) (hnodup : (taken walls w ++ cells).Nodup)
    (hin : ∀ c ∈ cells, w.grid.contains c = true) :
    (w.applyAll (cells.map (.setCost · Tile.blockedCost))).1.Settled (walls ++ cells) ∧
      (w.applyAll (cells.map (.setCost · Tile.blockedCost))).1.actors = w.actors ∧
      (w.applyAll (cells.map (.setCost · Tile.blockedCost))).1.grid.layout = w.grid.layout ∧
      (w.applyAll (cells.map (.setCost · Tile.blockedCost))).2 =
        cells.map (.costChanged · Tile.blockedCost) := by
  induction cells generalizing walls w with
  | nil => exact ⟨by simpa using h, rfl, rfl, rfl⟩
  | cons c rest ih =>
    have hc := hin c (by simp)
    obtain ⟨hfresh, hlater⟩ := next_fresh hnodup
    have happly : w.apply (.setCost c Tile.blockedCost) =
        ({ w with grid := w.grid.setCost c Tile.blockedCost },
          [.costChanged c Tile.blockedCost]) := by simp [World.apply, hc]
    have htaken : (taken (walls ++ [c]) { w with grid := w.grid.setCost c Tile.blockedCost }).Perm
        (c :: taken walls w) := by
      simp only [taken, List.append_assoc, List.singleton_append]
      exact List.perm_middle
    have hsettled := h.block (v := { w with grid := w.grid.setCost c Tile.blockedCost })
      ((h.free hc).mpr hfresh) Grid.setCost_layout (fun _ => Grid.cost?_setCost) htaken
    have hrest := ih hsettled ((htaken.append_right rest).nodup_iff.mpr hlater) (by
      intro e he
      rw [Grid.contains, Grid.setCost_layout]
      exact hin e (List.mem_cons_of_mem _ he))
    rw [List.map_cons, applyAll_cons, happly]
    simpa using hrest

/-- Actors are placed on tiles that are still free, and each is reported. -/
theorem placeActors (h : w.Settled walls) (kind : ActorKind)
    (hnodup : (taken walls w ++ cells).Nodup)
    (hin : ∀ c ∈ cells, w.grid.contains c = true) :
    (w.applyAll (cells.map (.place kind))).1.Settled walls ∧
      (w.applyAll (cells.map (.place kind))).1.grid.layout = w.grid.layout ∧
      ∃ placed, (w.applyAll (cells.map (.place kind))).1.actors = w.actors ++ placed ∧
        (w.applyAll (cells.map (.place kind))).2 = placed.map .ofActor ∧
        placed.map (fun a => (a.kind, a.coord)) = cells.map (kind, ·) := by
  induction cells generalizing w with
  | nil => exact ⟨h, rfl, [], by simp⟩
  | cons c rest ih =>
    have hc := hin c (by simp)
    obtain ⟨hfresh, hlater⟩ := next_fresh hnodup
    have hfree := (h.free hc).mpr hfresh
    rcases place_cases w kind c with ⟨_, hplaced, hreport⟩ | ⟨hblocked, _⟩
    · have htaken : (taken walls (w.place kind c).1).Perm (c :: taken walls w) := by
        simp only [taken, hplaced.actors, List.map_append, ← List.append_assoc]
        exact List.perm_append_singleton _ _
      have hsettled := h.block hfree hplaced.layout hplaced.cost htaken
      obtain ⟨hlast, hlayout, placed, hactors, hreports, hplaces⟩ :=
        ih hsettled ((htaken.append_right rest).nodup_iff.mpr hlater) (by
          intro e he
          rw [Grid.contains, hplaced.layout]
          exact hin e (List.mem_cons_of_mem _ he))
      rw [List.map_cons, applyAll_cons, World.apply]
      refine ⟨hlast, hlayout.trans hplaced.layout, ⟨w.nextId, kind, c⟩ :: placed, ?_, ?_, ?_⟩
      · rw [hactors, hplaced.actors, List.append_assoc, List.singleton_append]
      · rw [hreport, hreports]
        rfl
      · rw [List.map_cons, hplaces, List.map_cons]
    · rw [hfree] at hblocked
      cases hblocked

end World.Settled

namespace Battle

variable {l : Layout} {c : BattleConfig} {seed : UInt64} {b : Battle} {events : List Event}

theorem setupCommands_eq (c : BattleConfig) : setupCommands c =
    c.obstacles.map (.setCost · Tile.blockedCost) ++
      ([c.player].map (.place .player) ++ (c.npcs.map (.place .npc) ++ [.rebuildEdges])) := rfl

theorem mem_setupCommands {command : Command} (h : command ∈ setupCommands c) :
    (∃ e, command = .setCost e Tile.blockedCost) ∨ (∃ kind e, command = .place kind e) ∨
      command = .rebuildEdges := by
  simp only [setupCommands, List.mem_append, List.mem_cons, List.mem_map, List.not_mem_nil,
    or_false] at h
  rcases h with ⟨e, _, rfl⟩ | rfl | ⟨e, _, rfl⟩ | rfl
  · exact .inl ⟨e, rfl⟩
  · exact .inr (.inl ⟨_, _, rfl⟩)
  · exact .inr (.inl ⟨_, _, rfl⟩)
  · exact .inr (.inr rfl)

/-- Entries that lie on the board and apart from each other all come onto the board, and are all
reported. -/
theorem applyAll_setup (hnodup : c.cells.Nodup) (hin : ∀ e ∈ c.cells, l.contains e = true) :
    ((World.vacant l).applyAll (setupCommands c)).1.Settled c.obstacles ∧
      ((World.vacant l).applyAll (setupCommands c)).1.actors.map (fun a => (a.kind, a.coord)) =
        (.player, c.player) :: c.npcs.map (.npc, ·) ∧
      ((World.vacant l).applyAll (setupCommands c)).1.grid.layout = l ∧
      ((World.vacant l).applyAll (setupCommands c)).2 =
        c.obstacles.map (.costChanged · Tile.blockedCost) ++
          (((World.vacant l).applyAll (setupCommands c)).1.actors.map .ofActor ++
            [.edgesRebuilt]) := by
  have horder : (c.obstacles ++ c.player :: c.npcs).Nodup := by
    refine (List.perm_middle.trans ?_).nodup_iff.mpr hnodup
    exact List.perm_append_comm.cons _
  have hfirst : (c.obstacles ++ [c.player]).Nodup :=
    horder.sublist ((List.Sublist.cons_cons c.player (List.nil_sublist c.npcs)).append_left _)
  have hwallsIn : ∀ e ∈ c.obstacles, l.contains e = true := fun e he =>
    hin e (by simp [BattleConfig.cells, he])
  have hnpcsIn : ∀ e ∈ c.npcs, l.contains e = true := fun e he =>
    hin e (by simp [BattleConfig.cells, he])
  rw [setupCommands_eq, World.applyAll_append, World.applyAll_append, World.applyAll_append]
  -- the walls, while nobody is there
  obtain ⟨hwalls, hnobody, hlayout, hbuilt⟩ := (World.settled_vacant l).buildWalls
    (by simpa [World.taken, World.vacant] using (List.nodup_append.mp horder).1) hwallsIn
  rw [hbuilt]
  generalize ((World.vacant l).applyAll (c.obstacles.map (.setCost · Tile.blockedCost))).1 = walled
    at hwalls hnobody hlayout ⊢
  have hnobody : walled.actors = [] := hnobody
  have hlayout : walled.grid.layout = l := hlayout
  -- the player
  obtain ⟨hled, hlayout', leader, hplayer, hreport, hleader⟩ := hwalls.placeActors .player
    (by simpa [World.taken, hnobody] using hfirst)
    (by simpa [Grid.contains, hlayout] using hin c.player (by simp [BattleConfig.cells]))
  rw [hnobody, List.nil_append] at hplayer
  rw [hreport]
  generalize (walled.applyAll ([c.player].map (.place .player))).1 = led
    at hled hplayer hlayout' ⊢
  have hplayerAt : led.actors.map (·.coord) = [c.player] := by
    have := congrArg (List.map Prod.snd) hleader
    simpa [hplayer, Function.comp_def] using this
  -- the others
  obtain ⟨hall, hlayout'', others, hnpcs, hreports, hothers⟩ := hled.placeActors .npc
    (by simpa [World.taken, hplayerAt] using horder)
    (by simpa [Grid.contains, hlayout', hlayout] using hnpcsIn)
  rw [hreports]
  generalize (led.applyAll (c.npcs.map (.place .npc))).1 = populated at hall hnpcs hlayout'' ⊢
  have hrebuilt : World.Alike populated (populated.applyAll [.rebuildEdges]).1 := by
    rw [World.applyAll_cons, World.applyAll_nil]
    exact World.apply_alike rfl
  refine ⟨hall.alike hrebuilt, ?_, ?_, ?_⟩
  · rw [hrebuilt.actors, hnpcs, hplayer, List.map_append, hleader, hothers]
    rfl
  · rw [hrebuilt.layout, hlayout'', hlayout', hlayout]
  · rw [hrebuilt.actors, hnpcs, hplayer, List.map_append, List.append_assoc]
    rfl

theorem create_eq (h : create c seed = .ok (b, events)) : ∃ l, c.validate = .ok l ∧
    b.world = ((World.vacant l).applyAll (setupCommands c)).1 ∧ b.state = .initial ∧
    b.rules = c.rules := by
  simp only [create] at h
  split at h
  · cases h
  · rename_i l hvalid
    obtain ⟨rfl, _⟩ := Prod.mk.inj (Except.ok.inj h)
    exact ⟨l, hvalid, rfl, rfl, rfl⟩

/-- The battle that a setup makes, before its first input. -/
theorem create_ok (h : create c seed = .ok (b, events)) :
    Layout.create c.width c.height c.size = .ok b.world.grid.layout ∧
      b.world.Reached ∧ b.world.Settled c.obstacles ∧
      b.world.actors.map (fun a => (a.kind, a.coord)) =
        (.player, c.player) :: c.npcs.map (.npc, ·) ∧
      b.state = .initial ∧ b.rules = c.rules := by
  obtain ⟨l, hvalid, hworld, hstate, hrules⟩ := create_eq h
  obtain ⟨hcreate, hnodup, hin⟩ := BattleConfig.validate_ok hvalid
  obtain ⟨hsettled, hactors, hlayout, _⟩ := applyAll_setup hnodup hin
  rw [hworld]
  exact ⟨by rw [hcreate, hlayout], ⟨l, _, rfl⟩, hsettled, hactors, hstate, hrules⟩

end Battle

end HexSkirmish
