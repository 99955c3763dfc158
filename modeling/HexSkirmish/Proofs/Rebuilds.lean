import HexSkirmish.Proofs.Commands

/-! The edge table is a cache that nobody can see. A command reports the same and leaves the same
world whether or not the table was built again just before it, because whatever reads the table has
it refreshed first and a refreshed table is the built one. Commands to build the table can therefore
be put into a history at will: they add their own reports and change nothing else. -/

namespace HexSkirmish

/-- The second list is the first one with a number of copies of a value put in. -/
inductive Inserted {α : Type} (x : α) : Nat → List α → List α → Prop
  | nil : Inserted x 0 [] []
  | keep (y : α) {n : Nat} {xs ys : List α} :
      Inserted x n xs ys → Inserted x n (y :: xs) (y :: ys)
  | insert {n : Nat} {xs ys : List α} : Inserted x n xs ys → Inserted x (n + 1) xs (x :: ys)

theorem Inserted.prepend {α : Type} {x : α} {n : Nat} {xs ys : List α} (zs : List α)
    (h : Inserted x n xs ys) : Inserted x n (zs ++ xs) (zs ++ ys) := by
  induction zs with
  | nil => exact h
  | cons z zs ih => exact .keep z ih

namespace Grid

variable {g g' : Grid} {c o : Coord} {k : UInt16} {budget : Nat}

@[simp] theorem rebuild_rebuild : g.rebuild.rebuild = g.rebuild := rfl

@[simp] theorem refresh_rebuild : g.rebuild.refresh = g.rebuild := rfl

theorem rebuild_setCost : (g.rebuild.setCost c k).rebuild = (g.setCost c k).rebuild := by
  apply rebuild_congr
  · simp
  · simp only [setCost, tileAt?_rebuild]
    split <;> try rfl
    split <;> try rfl
    simp only [modify, rebuild_layout]
    split <;> rfl

theorem rebuild_setEffect (e : TileEffect) :
    (g.rebuild.setEffect c e).rebuild = (g.setEffect c e).rebuild := by
  apply rebuild_congr
  · simp
  · simp only [setEffect, modify, rebuild_layout]
    split <;> rfl

theorem highlight_rebuild (h : g.Current) :
    g.rebuild.highlight o budget = g.highlight o budget := by
  simp only [highlight, refresh_rebuild, refresh_eq_rebuild h, rebuild_layout]
  rfl

end Grid

namespace World

variable {w v : World} {command : Command} {commands padded : List Command} {c : Coord} {n : Nat}

/-- The world after its edge table was built again. -/
def rebuilt (w : World) : World := { w with grid := w.grid.rebuild }

theorem setEffect_rebuilt (e : TileEffect) :
    (w.rebuilt.setEffect c e).2 = (w.setEffect c e).2 ∧
      (w.rebuilt.setEffect c e).1.rebuilt = (w.setEffect c e).1.rebuilt := by
  have hdiffers : w.rebuilt.grid.effectDiffers c e = w.grid.effectDiffers c e := rfl
  simp only [setEffect, hdiffers]
  split
  · exact ⟨rfl, by simp only [rebuilt, Grid.rebuild_setEffect]⟩
  · exact ⟨rfl, rfl⟩

theorem place_rebuilt (kind : ActorKind) :
    (w.rebuilt.place kind c).2 = (w.place kind c).2 ∧
      (w.rebuilt.place kind c).1.rebuilt = (w.place kind c).1.rebuilt := by
  have hin : w.rebuilt.grid.contains c = w.grid.contains c := rfl
  have hfree : w.rebuilt.grid.isObstacle c = w.grid.isObstacle c := rfl
  simp only [place, hin, hfree]
  split
  · exact ⟨rfl, rfl⟩
  · split
    · exact ⟨rfl, rfl⟩
    · exact ⟨rfl, by simp only [rebuilt, Grid.rebuild_setCost, Grid.rebuild_rebuild]⟩

/-- A move looks for its route after a refresh, so both worlds go on from one and the same. -/
theorem move_rebuilt (h : w.grid.Current) (id : ActorId) (goal : Coord) (tag : Option TileEffect) :
    (w.rebuilt.move id goal tag).2 = (w.move id goal tag).2 ∧
      (w.rebuilt.move id goal tag).1.rebuilt = (w.move id goal tag).1.rebuilt := by
  have hfound : w.rebuilt.actor? id = w.actor? id := rfl
  have hin : w.rebuilt.grid.contains goal = w.grid.contains goal := rfl
  have hfree : w.rebuilt.grid.isObstacle goal = w.grid.isObstacle goal := rfl
  have hready : w.rebuilt.grid.refresh = w.grid.refresh := (Grid.refresh_eq_rebuild h).symm
  simp only [move, hfound, hin, hfree, hready]
  split
  · exact ⟨rfl, rfl⟩
  · split
    · exact ⟨rfl, rfl⟩
    · split
      · exact ⟨rfl, rfl⟩
      · split
        · exact ⟨rfl, rfl⟩
        · exact ⟨rfl, rfl⟩

/-- A command does not see whether the table was built again just before it. -/
theorem apply_rebuilt (h : w.grid.Current) (command : Command) :
    (w.rebuilt.apply command).2 = (w.apply command).2 ∧
      (w.rebuilt.apply command).1.rebuilt = (w.apply command).1.rebuilt := by
  cases command with
  | configure width height size =>
    simp only [apply]
    split
    · exact ⟨rfl, rfl⟩
    · exact ⟨rfl, rfl⟩
  | setCost c k =>
    have hin : w.rebuilt.grid.contains c = w.grid.contains c := rfl
    simp only [apply, hin]
    split
    · exact ⟨rfl, by simp only [rebuilt, Grid.rebuild_setCost]⟩
    · exact ⟨rfl, rfl⟩
  | rebuildEdges => exact ⟨rfl, rfl⟩
  | setEffect c e => exact setEffect_rebuilt e
  | clearEffect c => exact setEffect_rebuilt .plain
  | clearEffects e => exact ⟨rfl, rfl⟩
  | place kind c => exact place_rebuilt kind
  | move id goal tag => exact move_rebuilt h id goal tag
  | highlight o budget =>
    have hgrid : w.rebuilt.grid.highlight o budget = w.grid.highlight o budget :=
      Grid.highlight_rebuild h
    simp only [apply, hgrid]
    exact ⟨trivial, rfl⟩
  | draw card => exact ⟨rfl, rfl⟩

/-- Worlds that differ in their edge tables at most go on in step. -/
theorem applyAll_of_rebuilt (hw : w.Sound) (hv : v.Sound) (h : v.rebuilt = w.rebuilt)
    (commands : List Command) : (v.applyAll commands).2 = (w.applyAll commands).2 ∧
      (v.applyAll commands).1.rebuilt = (w.applyAll commands).1.rebuilt := by
  induction commands generalizing w v with
  | nil => exact ⟨rfl, h⟩
  | cons command rest ih =>
    obtain ⟨hevents, hworld⟩ := apply_rebuilt hw.current command
    obtain ⟨hevents', hworld'⟩ := apply_rebuilt hv.current command
    rw [h] at hevents' hworld'
    obtain ⟨hlater, hlast⟩ :=
      ih (hw.apply command) (hv.apply command) (hworld'.symm.trans hworld)
    simp only [applyAll_cons]
    exact ⟨by rw [hlater, ← hevents', hevents], hlast⟩

/-- Commands to build the table add their own reports. -/
theorem applyAll_inserted (hw : w.Sound) (h : Inserted .rebuildEdges n commands padded) :
    Inserted .edgesRebuilt n (w.applyAll commands).2 (w.applyAll padded).2 ∧
      (w.applyAll padded).1.rebuilt = (w.applyAll commands).1.rebuilt := by
  induction h generalizing w with
  | nil => exact ⟨.nil, rfl⟩
  | keep command _ ih =>
    obtain ⟨hevents, hworld⟩ := ih (hw.apply command)
    exact ⟨hevents.prepend _, hworld⟩
  | @insert n commands padded _ ih =>
    obtain ⟨hevents, hworld⟩ := ih hw
    -- What was put in leaves a world that differs in its table alone, and so the rest is the same.
    obtain ⟨hsame, hlast⟩ := applyAll_of_rebuilt hw (hw.apply .rebuildEdges) rfl padded
    rw [applyAll_cons]
    refine ⟨?_, hlast.trans hworld⟩
    rw [hsame]
    exact hevents.insert

/-- The edge table cannot be observed. However many commands to build it are put into a history, and
wherever, they add as many reports of their own; all other events, the tiles, the actors and the
hand stay the same, and so does every answer about routes and distances. Behind it is that a table
which is not marked stale is the one that would be built from the tiles as they are. -/
theorem rebuilds_invisible (l : Layout) (h : Inserted .rebuildEdges n commands padded) :
    let plain := (vacant l).applyAll commands
    let more := (vacant l).applyAll padded
    Inserted .edgesRebuilt n plain.2 more.2 ∧
      more.1.grid.layout = plain.1.grid.layout ∧ more.1.grid.tiles = plain.1.grid.tiles ∧
      more.1.actors = plain.1.actors ∧ more.1.hand = plain.1.hand ∧
      more.1.nextId = plain.1.nextId ∧
      (∀ a b, more.1.grid.route a b = plain.1.grid.route a b) ∧
      (∀ o, more.1.grid.flow o = plain.1.grid.flow o) ∧
      (∀ o buffer, more.1.grid.flowInto o buffer = plain.1.grid.flowInto o buffer) ∧
      (∀ w : World, w.Reached → w.grid.stale = false →
        w.grid.edges = .build w.grid.layout w.grid.tiles) := by
  intro plain more
  obtain ⟨hevents, hworld⟩ := applyAll_inserted (Sound.vacant l) h
  have hlayout : more.1.grid.layout = plain.1.grid.layout := congrArg (·.grid.layout) hworld
  have htiles : more.1.grid.tiles = plain.1.grid.tiles := congrArg (·.grid.tiles) hworld
  have hedges : more.1.grid.currentEdges = plain.1.grid.currentEdges := by
    rw [Grid.currentEdges_eq ((Sound.vacant l).applyAll padded).current,
      Grid.currentEdges_eq ((Sound.vacant l).applyAll commands).current, hlayout, htiles]
  have hflow : ∀ o, more.1.grid.flow o = plain.1.grid.flow o := fun _ =>
    Grid.flow_congr hlayout hedges
  refine ⟨hevents, hlayout, htiles, congrArg (·.actors) hworld, congrArg (·.hand) hworld,
    congrArg (·.nextId) hworld, fun a b => Grid.route_congr hlayout hedges, hflow, ?_,
    fun w hw => hw.sound.current⟩
  intro o buffer
  simp only [Grid.flowInto, Grid.checkSize, hlayout, hflow]

/-- An actor walks around a wall that was built beside it. -/
def detour : List Command :=
  [.place .player ⟨0, 0⟩, .setCost ⟨1, 0⟩ Tile.blockedCost, .move .first ⟨2, 0⟩ none,
    .highlight ⟨2, 0⟩ 1]

def detourRebuilt : List Command :=
  [.place .player ⟨0, 0⟩, .setCost ⟨1, 0⟩ Tile.blockedCost, .rebuildEdges,
    .move .first ⟨2, 0⟩ none, .rebuildEdges, .highlight ⟨2, 0⟩ 1]

theorem rebuilds_invisible_detour : Inserted .rebuildEdges 2 detour detourRebuilt ∧
    Inserted .edgesRebuilt 2 ((vacant .standard).applyAll detour).2
      ((vacant .standard).applyAll detourRebuilt).2 ∧
    ((vacant .standard).applyAll detourRebuilt).1.actors = [⟨.first, .player, ⟨2, 0⟩⟩] := by
  have hinserted : Inserted .rebuildEdges 2 detour detourRebuilt :=
    .keep _ (.keep _ (.insert (.keep _ (.insert (.keep _ .nil)))))
  obtain ⟨hevents, _, _, hactors, _⟩ := rebuilds_invisible .standard hinserted
  exact ⟨hinserted, hevents, hactors.trans (by decide +kernel)⟩

end World

end HexSkirmish
