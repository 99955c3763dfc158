import HexSkirmish.Proofs.Turns
import Mathlib.Data.List.Perm.Basic

/-! Who stands where during a battle. Walls and actors have tiles of their own, these are the
blocked ones, and all others cost the same. A setup brings this about entry by entry, a move gives
up one tile for another, and everything else that a turn does leaves it as it is. -/

namespace HexSkirmish

/-! ### Counting -/

/-- Some cells that are the blocked ones of a board are as many as its blocked tiles. -/
theorem Grid.countP_isObstacle {g : Grid} {cs : List Coord} (hnodup : cs.Nodup)
    (hin : ∀ c ∈ cs, g.contains c = true)
    (h : ∀ c, g.contains c = true → (g.isObstacle c = true ↔ c ∈ cs)) :
    g.tiles.countP Tile.isObstacle = cs.length := by
  have hcount : g.tiles.countP Tile.isObstacle =
      ((List.range g.tiles.size).filter fun i => (g.tiles[i]?).any Tile.isObstacle).length := by
    have hlist : (List.range g.tiles.size).map (fun i => g.tiles[i]?) =
        g.tiles.toList.map some := by
      apply List.ext_getElem (by simp)
      intro i hi _
      have : i < g.tiles.size := by simpa using hi
      simp [this]
    rw [← List.countP_eq_length_filter, ← Array.countP_toList]
    have := congrArg (List.countP (Option.any Tile.isObstacle)) hlist
    rw [List.countP_map, List.countP_map] at this
    exact this.symm
  have hperm : (cs.filterMap g.layout.index?).Perm
      ((List.range g.tiles.size).filter fun i => (g.tiles[i]?).any Tile.isObstacle) := by
    rw [List.perm_ext_iff_of_nodup]
    · intro i
      simp only [List.mem_filterMap, List.mem_filter, List.mem_range]
      constructor
      · rintro ⟨c, hc, hi⟩
        have hblocked := (h c (hin c hc)).mpr hc
        refine ⟨lt_size_of_index? hi, ?_⟩
        rw [isObstacle, tileAt?_of_index? hi] at hblocked
        simpa [lt_size_of_index? hi] using hblocked
      · rintro ⟨hlt, hblocked⟩
        obtain ⟨c, hc⟩ := Layout.exists_coordAt? (g.size_eq ▸ hlt)
        have hi := Layout.index?_of_coordAt? hc
        refine ⟨c, (h c (Layout.contains_of_index? hi)).mp ?_, hi⟩
        rw [isObstacle, tileAt?_of_index? hi]
        simpa [hlt] using hblocked
    · exact hnodup.filterMap fun a b i ha hb => Layout.index?_inj ha hb
    · exact List.nodup_range.filter _
  rw [hcount, ← hperm.length_eq, List.filterMap_length_eq_length]
  intro c hc
  rw [Layout.index?_isSome]
  exact hin c hc

namespace World

variable {walls : List Coord} {w v : World} {a : Actor} {goal c : Coord} {kind : ActorKind}

/-- The cells of walls and actors. -/
def taken (walls : List Coord) (w : World) : List Coord := walls ++ w.actors.map (·.coord)

/-- Walls and actors stand on tiles of their own, and no other tile is blocked. -/
structure Settled (walls : List Coord) (w : World) : Prop where
  nodup : (taken walls w).Nodup
  inside : ∀ c ∈ taken walls w, w.grid.contains c = true
  cost : ∀ c, w.grid.contains c = true →
    w.grid.cost? c = some (if c ∈ taken walls w then Tile.blockedCost else Tile.openCost)

/-- Actors have numbers of their own and stand on blocked tiles of their own. -/
structure Standing (w : World) : Prop where
  ids : (w.actors.map (·.id)).Nodup
  apart : (w.actors.map (·.coord)).Nodup
  inside : ∀ a ∈ w.actors, w.grid.contains a.coord = true
  blocked : ∀ a ∈ w.actors, w.grid.isObstacle a.coord = true

theorem settled_vacant (l : Layout) : (vacant l).Settled [] where
  nodup := .nil
  inside := nofun
  cost := fun _ hc => Grid.cost?_vacant hc

namespace Settled

theorem isObstacle (h : w.Settled walls) (hc : w.grid.contains c = true) :
    w.grid.isObstacle c = true ↔ c ∈ taken walls w := by
  rw [Grid.isObstacle_iff, h.cost c hc]
  by_cases htaken : c ∈ taken walls w
  · simp [htaken]
  · simp [htaken, hc, Tile.openCost, Tile.blockedCost]

theorem free (h : w.Settled walls) (hc : w.grid.contains c = true) :
    w.grid.isObstacle c = false ↔ c ∉ taken walls w := by
  rw [← h.isObstacle hc, Bool.not_eq_true]

/-- The blocked tiles are those that are taken. -/
theorem cost_eq_blocked (h : w.Settled walls) :
    w.grid.cost? c = some Tile.blockedCost ↔ c ∈ taken walls w := by
  constructor
  · intro hcost
    exact (h.isObstacle (Grid.contains_iff_cost?.mpr ⟨_, hcost⟩)).mp
      (Grid.isObstacle_iff.mpr (.inr hcost))
  · intro hc
    rw [h.cost c (h.inside c hc), if_pos hc]

theorem cost_eq_open (h : w.Settled walls) (hin : w.grid.contains c = true)
    (hc : c ∉ taken walls w) : w.grid.cost? c = some Tile.openCost := by
  rw [h.cost c hin, if_neg hc]

theorem alike (h : w.Settled walls) (hv : Alike w v) : v.Settled walls := by
  have htaken : taken walls v = taken walls w := by rw [taken, hv.actors, taken]
  refine ⟨htaken ▸ h.nodup, ?_, ?_⟩
  · intro c hc
    rw [hv.contains]
    exact h.inside c (htaken ▸ hc)
  · intro c hc
    rw [hv.cost, htaken]
    exact h.cost c (hv.contains ▸ hc)

/-- Whatever blocks one more tile makes it one of those taken. -/
theorem block {walls' : List Coord} (h : w.Settled walls) (hfree : w.grid.isObstacle c = false)
    (hlayout : v.grid.layout = w.grid.layout)
    (hcost : ∀ e, v.grid.cost? e =
      if e = c then (w.grid.cost? e).map fun _ => Tile.blockedCost else w.grid.cost? e)
    (htaken : (taken walls' v).Perm (c :: taken walls w)) : v.Settled walls' := by
  have hin := Grid.contains_of_free hfree
  have hcontains : ∀ e, v.grid.contains e = w.grid.contains e := by
    intro e
    rw [Grid.contains, hlayout, Grid.contains]
  refine ⟨?_, ?_, ?_⟩
  · rw [htaken.nodup_iff, List.nodup_cons]
    exact ⟨(h.free hin).mp hfree, h.nodup⟩
  · intro e he
    rw [hcontains]
    rcases List.mem_cons.mp (htaken.mem_iff.mp he) with rfl | he
    · exact hin
    · exact h.inside e he
  · intro e he
    rw [hcost, h.cost e (hcontains e ▸ he)]
    simp only [htaken.mem_iff]
    by_cases hec : e = c <;> simp [hec]

/-- A move trades one tile for another. -/
theorem moved (h : w.Settled walls) (hadmits : w.Admits a goal) (hv : Moved w a goal v) :
    v.Settled walls := by
  obtain ⟨before, after, hsplit, hid, hbefore⟩ := actor?_split hadmits.found
  have hin := Grid.contains_of_free hadmits.free
  have hrest : ∀ c, (walls ++ (before.map (·.coord) ++ c :: after.map (·.coord))).Perm
      (c :: (walls ++ before.map (·.coord) ++ after.map (·.coord))) := by
    intro c
    rw [← List.append_assoc]
    exact List.perm_middle
  have htaken : (taken walls w).Perm
      (a.coord :: (walls ++ before.map (·.coord) ++ after.map (·.coord))) := by
    simpa [taken, hsplit] using hrest a.coord
  have htaken' : (taken walls v).Perm
      (goal :: (walls ++ before.map (·.coord) ++ after.map (·.coord))) := by
    rw [taken, hv.actors, hsplit, relocate_append hbefore hid]
    simpa using hrest goal
  generalize walls ++ before.map (·.coord) ++ after.map (·.coord) = rest at htaken htaken'
  have hgoal := (h.free hin).mp hadmits.free
  rw [htaken.mem_iff, List.mem_cons, not_or] at hgoal
  have horigin := htaken.nodup_iff.mp h.nodup
  rw [List.nodup_cons] at horigin
  refine ⟨?_, ?_, ?_⟩
  · rw [htaken'.nodup_iff, List.nodup_cons]
    exact ⟨hgoal.2, horigin.2⟩
  · intro c hc
    rw [hv.contains]
    rcases List.mem_cons.mp (htaken'.mem_iff.mp hc) with rfl | hc
    · exact hin
    · exact h.inside c (htaken.mem_iff.mpr (List.mem_cons_of_mem _ hc))
  · intro c hc
    rw [hv.cost, h.cost c (hv.contains ▸ hc)]
    simp only [htaken'.mem_iff, htaken.mem_iff]
    by_cases hca : c = a.coord
    · subst hca
      simp [horigin.1, Ne.symm hgoal.1]
    · by_cases hcg : c = goal
      · simp [hcg, hgoal.1]
      · simp [hca, hcg]

theorem standing (h : w.Settled walls) (hids : (w.actors.map (·.id)).Nodup) : w.Standing := by
  have hmem : ∀ a ∈ w.actors, a.coord ∈ taken walls w := fun a ha =>
    List.mem_append_right _ (List.mem_map_of_mem ha)
  exact ⟨hids, (List.nodup_append.mp h.nodup).2.1, fun a ha => h.inside _ (hmem a ha),
    fun a ha => (h.isObstacle (h.inside _ (hmem a ha))).mpr (hmem a ha)⟩

theorem apply {command : Command} (h : w.Settled walls) (hcommand : command.isSetup = false) :
    (w.apply command).1.Settled walls := by
  rcases apply_cases hcommand with halike | ⟨a, goal, hadmits, hmoved⟩
  · exact h.alike halike
  · exact h.moved hadmits hmoved

end Settled

end World

end HexSkirmish
