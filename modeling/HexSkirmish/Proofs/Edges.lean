import HexSkirmish.Proofs.Frontier
import HexSkirmish.Proofs.Tiles

/-! The edge table of a board, and when it may be trusted. A table that is built leads from a tile
to those of its neighbours that can be entered. A board is current if its table is the built one unless
it is marked stale; every operation keeps boards current, as only writes of costs can make a table
differ, and they mark it. -/

namespace HexSkirmish

namespace EdgeTable

variable {l : Layout} {tiles tiles' : Array Tile} {o i j : Nat}

theorem adjacent?_iff {c : Coord} {d : Direction} (hi : l.index? c = some i) :
    adjacent? l i d = some j ↔ ∃ e, l.neighbor? c d = some e ∧ l.index? e = some j := by
  simp [adjacent?, Layout.coordAt?_of_index? hi, Option.bind_eq_some_iff]

theorem adjacent?_lt {d : Direction} (h : adjacent? l i d = some j) :
    i < l.tileCount ∧ j < l.tileCount := by
  simp only [adjacent?, Option.bind_eq_some_iff] at h
  obtain ⟨c, hc, e, _, he⟩ := h
  exact ⟨Layout.index?_lt (Layout.index?_of_coordAt? hc), Layout.index?_lt he⟩

theorem mem_exits_build (hsize : tiles.size = l.tileCount) :
    j ∈ (build l tiles).exits i ↔ ∃ d, adjacent? l i d = some j ∧ isPassable tiles j = true := by
  by_cases hi : i < tiles.size
  · have hslots : (build l tiles).slots[i]? = some (slotsOf l tiles i) := by simp [build, hi]
    simp only [exits, hslots, Option.getD_some, slotsOf, List.mem_filterMap, List.mem_map]
    constructor
    · rintro ⟨_, ⟨d, _, rfl⟩, h⟩
      rw [id, Option.filter_eq_some_iff] at h
      exact ⟨d, h⟩
    · rintro ⟨d, h⟩
      refine ⟨_, ⟨d, by cases d <;> simp [Direction.all], rfl⟩, ?_⟩
      rwa [id, Option.filter_eq_some_iff]
  · have hslots : (build l tiles).slots[i]? = none := by simp [build, hi]
    simp only [exits, hslots, Option.getD_none, List.filterMap_nil, List.not_mem_nil, false_iff]
    rintro ⟨d, h, _⟩
    exact hi (hsize ▸ (adjacent?_lt h).1)

theorem isOpen_build : (build l tiles).isOpen i = isPassable tiles i := by
  simp only [isOpen, build, Array.getElem?_map, isPassable]
  cases tiles[i]? <;> rfl

theorem mem_onward_build (hsize : tiles.size = l.tileCount) :
    j ∈ (build l tiles).onward o i ↔ (i = o ∨ isPassable tiles i = true) ∧
      ∃ d, adjacent? l i d = some j ∧ isPassable tiles j = true := by
  simp only [onward, neighbors, isOpen_build]
  split
  · simp [*, mem_exits_build hsize]
  · split <;> simp [*, mem_exits_build hsize]

theorem onward_build_lt (hsize : tiles.size = l.tileCount) :
    ∀ u, ∀ v ∈ (build l tiles).onward o u, v < l.tileCount := by
  intro u v hv
  obtain ⟨_, d, hd, _⟩ := (mem_onward_build hsize).mp hv
  exact (adjacent?_lt hd).2

/-- A table shows of the tiles only which can be entered. -/
theorem build_congr (hsize : tiles'.size = tiles.size)
    (h : ∀ i, isPassable tiles' i = isPassable tiles i) : build l tiles' = build l tiles := by
  have hslots : ∀ i, slotsOf l tiles' i = slotsOf l tiles i := by
    intro i
    rw [slotsOf, slotsOf, funext h]
  simp only [build, EdgeTable.mk.injEq]
  constructor
  · apply Array.ext
    · simp [hsize]
    · intro i _ _
      simp [hslots]
  · apply Array.ext
    · simp [hsize]
    · intro i hi hi'
      have hi : i < tiles'.size := by simpa using hi
      have hi' : i < tiles.size := by simpa using hi'
      simpa [isPassable, hi, hi'] using h i

end EdgeTable

namespace Grid

variable {g g' : Grid} {c e : Coord} {i j : Nat}

/-- A table that is not marked stale is the one that would be built now. -/
def Current (g : Grid) : Prop := g.stale = false → g.edges = .build g.layout g.tiles

theorem currentEdges_eq (h : g.Current) : g.currentEdges = .build g.layout g.tiles := by
  unfold currentEdges
  split
  · rfl
  · exact h (by simpa using ‹¬g.stale = true›)

theorem currentEdges_refresh : g.refresh.edges = g.currentEdges := by
  simp only [refresh, currentEdges]
  split <;> simp [rebuild]

theorem refresh_stale : g.refresh.stale = false := by
  unfold refresh
  split
  · rfl
  · simpa using ‹¬g.stale = true›

theorem refresh_currentEdges : g.refresh.currentEdges = g.currentEdges := by
  rw [currentEdges, refresh_stale]
  exact currentEdges_refresh

theorem vacant_current (l : Layout) : (vacant l).Current := fun _ => rfl

theorem rebuild_current : g.rebuild.Current := fun _ => rfl

theorem refresh_current (h : g.Current) : g.refresh.Current := by
  unfold refresh
  split
  · exact rebuild_current
  · exact h

/-- Boards with one shape and the same tiles differ in their edge tables at most. -/
theorem rebuild_congr (hl : g'.layout = g.layout) (ht : g'.tiles = g.tiles) :
    g'.rebuild = g.rebuild := by
  obtain ⟨l, tiles, edges, stale, hsize⟩ := g
  obtain ⟨l', tiles', edges', stale', hsize'⟩ := g'
  obtain rfl : l' = l := hl
  obtain rfl : tiles' = tiles := ht
  rfl

/-- A refreshed table is the built one. -/
theorem refresh_eq_rebuild (h : g.Current) : g.refresh = g.rebuild := by
  unfold refresh
  split
  · rfl
  · rename_i hs
    have hstale : g.stale = false := by simpa using hs
    have hedges := h hstale
    obtain ⟨l, tiles, edges, stale, hsize⟩ := g
    simp only at hstale hedges
    simp only [rebuild, hstale, hedges]

theorem setCost_current {k : UInt16} (h : g.Current) : (g.setCost c k).Current := by
  unfold setCost
  split
  · split
    · exact h
    · intro hs
      cases hs
  · exact h

/-- The table is a matter of the costs alone. -/
theorem build_of_costs (hl : g'.layout = g.layout)
    (hc : ∀ c, g'.cost? c = g.cost? c) :
    EdgeTable.build g'.layout g'.tiles = EdgeTable.build g.layout g.tiles := by
  have hsize : g'.tiles.size = g.tiles.size := by rw [g'.size_eq, g.size_eq, hl]
  rw [hl]
  refine EdgeTable.build_congr hsize fun i => ?_
  by_cases hi : i < g.layout.tileCount
  · obtain ⟨c, hci⟩ := Layout.exists_coordAt? hi
    have hidx := Layout.index?_of_coordAt? hci
    have hcost := hc c
    simp only [cost?, tileAt?, hl, hidx, Option.bind_some] at hcost
    simp only [EdgeTable.isPassable]
    cases ht : g.tiles[i]? <;> cases ht' : g'.tiles[i]? <;>
      simp_all [Tile.isObstacle]
  · have hnone : g.tiles[i]? = none := by simp [g.size_eq, Nat.le_of_not_lt hi]
    have hnone' : g'.tiles[i]? = none := by simp [g'.size_eq, hl, Nat.le_of_not_lt hi]
    simp [EdgeTable.isPassable, hnone, hnone']

theorem currentEdges_of_costs (h : g.Current) (h' : g'.Current)
    (hl : g'.layout = g.layout) (hc : ∀ c, g'.cost? c = g.cost? c) :
    g'.currentEdges = g.currentEdges := by
  rw [currentEdges_eq h, currentEdges_eq h', build_of_costs hl hc]

theorem Current.of_costs (h : g.Current) (hl : g'.layout = g.layout)
    (he : g'.edges = g.edges) (hs : g'.stale = g.stale) (hc : ∀ c, g'.cost? c = g.cost? c) :
    g'.Current := by
  intro hfresh
  rw [he, h (hs ▸ hfresh), build_of_costs hl hc]

theorem setEffect_current {s : TileEffect} (h : g.Current) : (g.setEffect c s).Current :=
  h.of_costs (modify_layout _) (modify_edges _) (modify_stale _) fun _ => cost?_setEffect s

theorem clearEffects_current {s : TileEffect} (h : g.Current) : (g.clearEffects s).Current :=
  h.of_costs rfl rfl rfl fun _ => cost?_clearEffects s

/-- Where a search from a tile goes on from another one, over the tiles as they are now. -/
def onward (g : Grid) (o : Nat) : Nat → List Nat := g.currentEdges.onward o

theorem onward_lt (h : g.Current) (o : Nat) : ∀ u, ∀ v ∈ g.onward o u, v < g.layout.tileCount := by
  rw [onward, currentEdges_eq h]
  exact EdgeTable.onward_build_lt g.size_eq

theorem isPassable_iff (h : g.layout.index? c = some i) :
    EdgeTable.isPassable g.tiles i = true ↔ g.isObstacle c = false := by
  rw [EdgeTable.isPassable, isObstacle, tileAt?_of_index? h]
  cases g.tiles[i]? <;> simp

theorem beside_of_onward (h : g.Current) {o : Nat} (hv : j ∈ g.onward o i) : ∃ c e,
    g.layout.index? c = some i ∧ g.layout.index? e = some j ∧ g.layout.Beside c e := by
  rw [onward, currentEdges_eq h] at hv
  obtain ⟨_, d, hd, _⟩ := (EdgeTable.mem_onward_build g.size_eq).mp hv
  obtain ⟨c, hc⟩ := Layout.exists_coordAt? (EdgeTable.adjacent?_lt hd).1
  have hindex := Layout.index?_of_coordAt? hc
  obtain ⟨e, hneighbor, he⟩ := (EdgeTable.adjacent?_iff hindex).mp hd
  exact ⟨c, e, hindex, he, d, hneighbor⟩

/-- A search leaves its origin and free tiles, and goes on to their free neighbours. -/
theorem mem_onward_iff (h : g.Current) {o : Nat} (hc : g.layout.index? c = some i) :
    j ∈ g.onward o i ↔ (i = o ∨ g.isObstacle c = false) ∧ ∃ e, g.layout.Beside c e ∧
      g.layout.index? e = some j ∧ g.isObstacle e = false := by
  rw [onward, currentEdges_eq h, EdgeTable.mem_onward_build g.size_eq, isPassable_iff hc]
  simp only [EdgeTable.adjacent?_iff hc, and_congr_right_iff]
  intro _
  constructor
  · rintro ⟨d, ⟨e, hn, he⟩, hp⟩
    exact ⟨e, ⟨d, hn⟩, he, (isPassable_iff he).mp hp⟩
  · rintro ⟨e, ⟨d, hn⟩, he, hp⟩
    exact ⟨d, ⟨e, hn, he⟩, (isPassable_iff he).mpr hp⟩

/-- The origin of a search leads to its free neighbours, whether or not it is free itself. -/
theorem mem_onward_origin (h : g.Current) (hc : g.layout.index? c = some i) :
    j ∈ g.onward i i ↔ ∃ d e, g.layout.neighbor? c d = some e ∧ g.layout.index? e = some j ∧
      g.isObstacle e = false := by
  rw [mem_onward_iff h hc, and_iff_right (.inl rfl)]
  constructor
  · rintro ⟨e, ⟨d, hn⟩, he⟩
    exact ⟨d, e, hn, he⟩
  · rintro ⟨d, e, hn, he⟩
    exact ⟨e, ⟨d, hn⟩, he⟩

/-- A walk enters free tiles only. -/
theorem isObstacle_of_walk {o : Nat} {ts : List Nat} (h : g.Current)
    (hw : Walk (g.onward o) o ts j) (hne : j ≠ o) (hc : g.layout.index? c = some j) :
    g.isObstacle c = false := by
  cases hw with
  | here => exact absurd rfl hne
  | on _ hv =>
    rw [onward, currentEdges_eq h] at hv
    obtain ⟨_, _, _, hp⟩ := (EdgeTable.mem_onward_build g.size_eq).mp hv
    exact (isPassable_iff hc).mp hp

end Grid

end HexSkirmish
