import HexSkirmish.Grid
import HexSkirmish.Proofs.Numbering

/-! What is read from a board after it was written. Every write is described by the tile that it
leaves at each cell, and costs and highlights are then read independently of each other. -/

namespace HexSkirmish.Grid

variable {g g' : Grid} {c e : Coord} {k : UInt16} {i : Nat}

/-- What it costs to enter the tile at a cell. -/
def cost? (g : Grid) (c : Coord) : Option UInt16 := (g.tileAt? c).map Tile.cost

/-- The highlight of the tile at a cell. -/
def effect? (g : Grid) (c : Coord) : Option TileEffect := (g.tileAt? c).map Tile.effect

theorem tileAt?_of_index? (h : g.layout.index? c = some i) : g.tileAt? c = g.tiles[i]? := by
  simp [tileAt?, h]

theorem lt_size_of_index? (h : g.layout.index? c = some i) : i < g.tiles.size :=
  g.size_eq ▸ Layout.index?_lt h

theorem tileAt?_isSome : (g.tileAt? c).isSome = g.contains c := by
  rw [contains, ← Layout.index?_isSome]
  cases h : g.layout.index? c with
  | none => simp [tileAt?, h]
  | some i => simp [tileAt?, h, lt_size_of_index? h]

theorem contains_iff_tileAt? : g.contains c = true ↔ ∃ t, g.tileAt? c = some t := by
  rw [← tileAt?_isSome, Option.isSome_iff_exists]

theorem tileAt?_eq_none : g.tileAt? c = none ↔ g.contains c = false := by
  rw [← tileAt?_isSome]
  simp

theorem contains_iff_cost? : g.contains c = true ↔ ∃ k, g.cost? c = some k := by
  rw [← tileAt?_isSome, ← Option.isSome_iff_exists, cost?, Option.isSome_map]

theorem isObstacle_iff :
    g.isObstacle c = true ↔ g.contains c = false ∨ g.cost? c = some Tile.blockedCost := by
  rw [isObstacle, cost?, ← tileAt?_isSome]
  cases g.tileAt? c <;> simp [Tile.isObstacle]

theorem isObstacle_eq_false_iff :
    g.isObstacle c = false ↔ ∃ k, g.cost? c = some k ∧ k ≠ Tile.blockedCost := by
  rw [isObstacle, cost?]
  cases g.tileAt? c <;> simp [Tile.isObstacle]

theorem contains_of_free (h : g.isObstacle c = false) : g.contains c = true := by
  obtain ⟨k, hk, _⟩ := isObstacle_eq_false_iff.mp h
  exact contains_iff_cost?.mpr ⟨k, hk⟩

/-- Obstacles are seen in the costs alone. -/
theorem isObstacle_congr (h : g'.cost? c = g.cost? c) :
    g'.isObstacle c = g.isObstacle c := by
  rw [Bool.eq_iff_iff, isObstacle_iff, isObstacle_iff, ← Bool.not_eq_true, ← Bool.not_eq_true,
    contains_iff_cost?, contains_iff_cost?, h]

/-! ### Single tiles -/

@[simp] theorem modify_layout (f : Tile → Tile) : (g.modify c f).layout = g.layout := by
  unfold modify
  split <;> rfl

@[simp] theorem modify_stale (f : Tile → Tile) : (g.modify c f).stale = g.stale := by
  unfold modify
  split <;> rfl

@[simp] theorem modify_edges (f : Tile → Tile) : (g.modify c f).edges = g.edges := by
  unfold modify
  split <;> rfl

theorem tileAt?_modify (f : Tile → Tile) :
    (g.modify c f).tileAt? e = if e = c then (g.tileAt? e).map f else g.tileAt? e := by
  cases hc : g.layout.index? c with
  | none =>
    have hm : g.modify c f = g := by simp [modify, hc]
    rw [hm]
    by_cases h : e = c
    · simp [h, tileAt?, hc]
    · simp [h]
  | some i =>
    cases he : g.layout.index? e with
    | none => simp [tileAt?, modify_layout, he]
    | some j =>
      have hm : (g.modify c f).tiles = g.tiles.modify i f := by simp [modify, hc]
      simp only [tileAt?, modify_layout, he, hm, Option.bind_some, Array.getElem?_modify]
      by_cases h : i = j
      · subst h
        simp [Layout.index?_inj he hc]
      · have hne : e ≠ c := fun e' => h (Option.some.inj (hc.symm.trans (e' ▸ he)))
        simp [h, hne]

@[simp] theorem setCost_layout : (g.setCost c k).layout = g.layout := by
  unfold setCost
  split <;> try rfl
  split
  · rfl
  · exact modify_layout _

theorem tileAt?_setCost : (g.setCost c k).tileAt? e =
    if e = c then (g.tileAt? e).map ({ · with cost := k }) else g.tileAt? e := by
  unfold setCost
  split
  · rename_i t ht
    split
    · rename_i hk
      subst hk
      by_cases h : e = c
      · simp [h, ht]
      · simp [h]
    · exact tileAt?_modify _
  · rename_i ht
    by_cases h : e = c
    · simp [h, ht]
    · simp [h]

theorem cost?_setCost : (g.setCost c k).cost? e =
    if e = c then (g.cost? e).map fun _ => k else g.cost? e := by
  rw [cost?, tileAt?_setCost, cost?]
  split <;> simp [Function.comp_def]

theorem effect?_setCost : (g.setCost c k).effect? e = g.effect? e := by
  rw [effect?, tileAt?_setCost, effect?]
  split <;> simp [Function.comp_def]

@[simp] theorem setEffect_layout (s : TileEffect) : (g.setEffect c s).layout = g.layout :=
  modify_layout _

theorem cost?_setEffect (s : TileEffect) : (g.setEffect c s).cost? e = g.cost? e := by
  rw [cost?, setEffect, tileAt?_modify, cost?]
  split <;> simp [Function.comp_def]

theorem effect?_setEffect (s : TileEffect) : (g.setEffect c s).effect? e =
    if e = c then (g.effect? e).map fun _ => s else g.effect? e := by
  rw [effect?, setEffect, tileAt?_modify, effect?]
  split <;> simp [Function.comp_def]

/-! ### Whole boards -/

@[simp] theorem rebuild_layout : g.rebuild.layout = g.layout := rfl

@[simp] theorem tileAt?_rebuild : g.rebuild.tileAt? c = g.tileAt? c := rfl

@[simp] theorem cost?_rebuild : g.rebuild.cost? c = g.cost? c := rfl

@[simp] theorem effect?_rebuild : g.rebuild.effect? c = g.effect? c := rfl

@[simp] theorem refresh_layout : g.refresh.layout = g.layout := by
  unfold refresh
  split <;> rfl

@[simp] theorem refresh_tiles : g.refresh.tiles = g.tiles := by
  unfold refresh
  split <;> rfl

@[simp] theorem tileAt?_refresh : g.refresh.tileAt? c = g.tileAt? c := by simp [tileAt?]

@[simp] theorem cost?_refresh : g.refresh.cost? c = g.cost? c := by simp [cost?]

@[simp] theorem effect?_refresh : g.refresh.effect? c = g.effect? c := by simp [effect?]

@[simp] theorem clearEffects_layout (s : TileEffect) : (g.clearEffects s).layout = g.layout := rfl

theorem tileAt?_clearEffects (s : TileEffect) : (g.clearEffects s).tileAt? c =
    (g.tileAt? c).map fun t => if t.effect = s then { t with effect := .plain } else t := by
  cases h : g.layout.index? c <;> simp [tileAt?, clearEffects, h]

@[simp] theorem cost?_clearEffects (s : TileEffect) : (g.clearEffects s).cost? c = g.cost? c := by
  rw [cost?, tileAt?_clearEffects, cost?, Option.map_map]
  congr 1
  funext t
  simp only [Function.comp_apply]
  split <;> rfl

theorem effect?_clearEffects (s : TileEffect) : (g.clearEffects s).effect? c =
    (g.effect? c).map fun e => if e = s then .plain else e := by
  rw [effect?, tileAt?_clearEffects, effect?, Option.map_map, Option.map_map]
  congr 1
  funext t
  by_cases h : t.effect = s <;> simp [h]

/-- No tile carries a highlight after it was cleared. -/
theorem effect?_clearEffects_ne {s : TileEffect} (hs : s ≠ .plain) :
    (g.clearEffects s).effect? c ≠ some s := by
  rw [effect?, tileAt?_clearEffects]
  cases g.tileAt? c with
  | none => simp
  | some t => by_cases h : t.effect = s <;> simp [h, hs.symm]

@[simp] theorem vacant_layout (l : Layout) : (vacant l).layout = l := rfl

theorem cost?_vacant {l : Layout} (h : l.contains c = true) :
    (vacant l).cost? c = some Tile.openCost := by
  obtain ⟨i, hi⟩ := Layout.exists_index? h
  have hlt := Layout.index?_lt hi
  simp [cost?, tileAt?, vacant, hi, hlt, Tile.floor]

/-- Boards of one shape are equal in their tiles if they are in costs and highlights. -/
theorem tiles_ext (hl : g'.layout = g.layout) (hcost : ∀ c, g'.cost? c = g.cost? c)
    (heffect : ∀ c, g'.effect? c = g.effect? c) : g'.tiles = g.tiles := by
  have hsize : g'.tiles.size = g.tiles.size := by rw [g'.size_eq, g.size_eq, hl]
  apply Array.ext hsize
  intro i hi' hi
  obtain ⟨c, hc⟩ := Layout.exists_coordAt? (g.size_eq ▸ hi)
  have hidx := Layout.index?_of_coordAt? hc
  have hk := hcost c
  have he := heffect c
  simp only [cost?, effect?, tileAt?, hl, hidx, Option.bind_some, hi, hi',
    Array.getElem?_eq_getElem, Option.map_some, Option.some.injEq] at hk he
  cases h : g.tiles[i]
  cases h' : g'.tiles[i]
  simp_all

end HexSkirmish.Grid
