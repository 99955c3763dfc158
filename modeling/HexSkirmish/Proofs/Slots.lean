import HexSkirmish.Proofs.Courses
import HexSkirmish.Proofs.Reversal
import HexSkirmish.Proofs.Traversals

/-! What an edge table holds once it is built. The slot of a tile for a direction holds the number of the
tile one step further, as the step is taken on a board without edges, if that tile lies on the board and
can be entered; otherwise it holds the number of tiles. So slots that lead anywhere lead to different
tiles, and back from there. The table can also be filled in place, slot by slot, and then no access lies
outside an array. -/

namespace HexSkirmish

namespace Layout

variable {l : Layout} {c e : Coord} {d : Direction} {i j : Nat}

/-- The step in a direction leads from the tile with one number to that with another one. -/
inductive StepsTo (l : Layout) (i : Nat) (d : Direction) (j : Nat) : Prop
  | between (c e : Coord) (start : l.index? c = some i) (finish : l.index? e = some j)
      (step : c.place.step d = e.place) : StepsTo l i d j

theorem StepsTo.opposite (h : l.StepsTo i d j) : l.StepsTo j d.opposite i := by
  obtain ⟨c, e, hc, he, hstep⟩ := h
  have hthere := neighbor?_eq_some_iff.mpr ⟨contains_of_index? he, hstep⟩
  have hback := neighbor?_opposite (contains_of_index? hc) hthere
  exact .between e c he hc (neighbor?_eq_some_iff.mp hback).2

theorem StepsTo.ne (h : l.StepsTo i d j) : j ≠ i := by
  rintro rfl
  obtain ⟨c, e, hc, he, hstep⟩ := h
  exact neighbor?_ne (neighbor?_eq_some_iff.mpr ⟨contains_of_index? he, hstep⟩) (index?_inj he hc)

theorem StepsTo.direction_unique {d' : Direction} (h : l.StepsTo i d j) (h' : l.StepsTo i d' j) :
    d = d' := by
  obtain ⟨c, e, hc, he, hstep⟩ := h
  obtain ⟨c', e', hc', he', hstep'⟩ := h'
  obtain rfl := index?_inj hc hc'
  obtain rfl := index?_inj he he'
  have hin := contains_of_index? he
  exact Layout.direction_unique (neighbor?_eq_some_iff.mpr ⟨hin, hstep⟩)
    (neighbor?_eq_some_iff.mpr ⟨hin, hstep'⟩)

end Layout

namespace EdgeTable

variable {l : Layout} {tiles : Array Tile} {d : Direction} {i j n : Nat}

theorem adjacent?_iff_stepsTo : adjacent? l i d = some j ↔ l.StepsTo i d j := by
  constructor
  · intro h
    obtain ⟨c, hc⟩ := Layout.exists_coordAt? (adjacent?_lt h).1
    have hi := Layout.index?_of_coordAt? hc
    obtain ⟨e, hneighbor, he⟩ := (adjacent?_iff hi).mp h
    exact ⟨c, e, hi, he, (Layout.neighbor?_eq_some_iff.mp hneighbor).2⟩
  · rintro ⟨c, e, hi, he, hstep⟩
    exact (adjacent?_iff hi).mpr
      ⟨e, Layout.neighbor?_eq_some_iff.mpr ⟨Layout.contains_of_index? he, hstep⟩, he⟩

/-! ### Slots as numbers -/

/-- What the slot of a tile for a direction holds. -/
def slot? (e : EdgeTable) (i : Nat) (d : Direction) : Option Nat :=
  (e.slotNumbers? i).bind fun numbers => numbers[d.index]?

/-- The tile to which a slot leads, if it leads anywhere. -/
def open? (l : Layout) (tiles : Array Tile) (i : Nat) (d : Direction) : Option Nat :=
  (adjacent? l i d).filter (isPassable tiles)

theorem open?_eq_some_iff : open? l tiles i d = some j ↔
    l.StepsTo i d j ∧ isPassable tiles j = true := by
  rw [open?, Option.filter_eq_some_iff, adjacent?_iff_stepsTo]

theorem open?_lt (h : open? l tiles i d = some j) : j < l.tileCount :=
  (adjacent?_lt (adjacent?_iff_stepsTo.mpr (open?_eq_some_iff.mp h).1)).2

theorem noNeighbor_build : (build l tiles).noNeighbor = tiles.size := by
  simp [noNeighbor, tileCount, build]

theorem slotNumbers?_build (hi : i < tiles.size) : (build l tiles).slotNumbers? i =
    some (Direction.all.map fun d => (open? l tiles i d).getD tiles.size) := by
  have hslots : (build l tiles).slots[i]? = some (slotsOf l tiles i) := by simp [build, hi]
  simp only [slotNumbers?, slots?, hslots, noNeighbor_build, slotsOf, Option.map_some, List.map_map]
  rfl

theorem slotNumbers?_build_of_le (hi : tiles.size ≤ i) :
    (build l tiles).slotNumbers? i = none := by
  simp [slotNumbers?, slots?, build, hi]

theorem slot?_build (hi : i < tiles.size) :
    (build l tiles).slot? i d = some ((open? l tiles i d).getD tiles.size) := by
  rw [slot?, slotNumbers?_build hi, Option.bind_some]
  cases d <;> rfl

/-- A slot leads to a tile if and only if the step does and the tile can be entered. -/
theorem slot?_eq_some_iff (hsize : tiles.size = l.tileCount) (hi : i < l.tileCount)
    (hj : j < l.tileCount) : (build l tiles).slot? i d = some j ↔
      l.StepsTo i d j ∧ isPassable tiles j = true := by
  rw [slot?_build (hsize ▸ hi), hsize, Option.some.injEq, ← open?_eq_some_iff]
  cases open? l tiles i d with
  | none => simp [Nat.ne_of_gt hj]
  | some k => simp

theorem slot?_cases (hsize : tiles.size = l.tileCount) (hi : i < l.tileCount) :
    (∃ j < l.tileCount, (build l tiles).slot? i d = some j) ∨
      (build l tiles).slot? i d = some l.tileCount := by
  rw [slot?_build (hsize ▸ hi), hsize]
  cases h : open? l tiles i d with
  | none => exact .inr rfl
  | some j => exact .inl ⟨j, open?_lt h, rfl⟩

theorem lt_of_slot? (hsize : tiles.size = l.tileCount) (h : (build l tiles).slot? i d = some n) :
    i < l.tileCount := by
  by_contra hi
  rw [slot?, slotNumbers?_build_of_le (by omega)] at h
  cases h

/-- What is found is what lies below the bound, when the bound stands for what is not found. -/
theorem filterMap_eq_filter {α : Type} {f : α → Option Nat} (h : ∀ a j, f a = some j → j < n)
    (as : List α) :
    as.filterMap f = (as.map fun a => (f a).getD n).filter fun j => decide (j < n) := by
  induction as with
  | nil => rfl
  | cons a as ih =>
    cases hf : f a with
    | none => simpa [hf] using ih
    | some j => simpa [hf, h a j hf] using ih

/-- The exits are the slots that hold the number of a tile. -/
theorem exits_build (hsize : tiles.size = l.tileCount) : (build l tiles).exits i =
    (((build l tiles).slotNumbers? i).getD []).filter fun j =>
      decide (j < (build l tiles).noNeighbor) := by
  by_cases hi : i < tiles.size
  · have hslots : (build l tiles).slots[i]? = some (slotsOf l tiles i) := by simp [build, hi]
    have hopen : ∀ d j, open? l tiles i d = some j → j < tiles.size :=
      fun d j h => hsize ▸ open?_lt h
    rw [exits, hslots, slotNumbers?_build hi, noNeighbor_build, Option.getD_some, Option.getD_some,
      slotsOf, List.filterMap_map, ← filterMap_eq_filter hopen]
    rfl
  · simp [exits, build, slotNumbers?, slots?, hi]

/-! ### Filling in place -/

/-- Fills the slot of a tile for a direction. Fails if the tile there or the slot has no place in its
array. -/
def fillSlot? (l : Layout) (tiles : Array Tile) (i : Nat) (row : Array Nat) (d : Direction) :
    Option (Array Nat) :=
  match adjacent? l i d with
  | none => some row
  | some j => do
    let t ← tiles[j]?
    if t.isObstacle then return row
    else if d.index < row.size then return row.setIfInBounds d.index j
    else none

/-- Fills the slots of a tile, which stand for no neighbour at first. -/
def fillRow? (l : Layout) (tiles : Array Tile) (i : Nat) : Option (Array Nat) :=
  Direction.all.foldlM (fillSlot? l tiles i) (Array.replicate 6 tiles.size)

def fill? (l : Layout) (tiles : Array Tile) : Option (List (Array Nat)) :=
  (List.range tiles.size).mapM (fillRow? l tiles)

variable {row : Array Nat}

theorem fillSlot?_eq (hsize : tiles.size = l.tileCount) (hrow : row.size = 6)
    (hempty : row[d.index]? = some n) :
    fillSlot? l tiles i row d =
      some (row.setIfInBounds d.index ((open? l tiles i d).getD n)) := by
  have hindex : d.index < row.size := hrow ▸ d.index_lt
  have hkeep : row.setIfInBounds d.index n = row := by
    rw [Array.getElem?_eq_getElem hindex, Option.some.injEq] at hempty
    rw [← hempty, Array.setIfInBounds_def, dif_pos hindex, Array.set_getElem_self]
  cases hadj : adjacent? l i d with
  | none => simp [fillSlot?, open?, hadj, hkeep]
  | some j =>
    have hj : j < tiles.size := hsize ▸ (adjacent?_lt hadj).2
    have htile : tiles[j]? = some tiles[j] := Array.getElem?_eq_getElem hj
    have hpassable : isPassable tiles j = !tiles[j].isObstacle := by simp [isPassable, htile]
    cases hblocked : tiles[j].isObstacle <;>
      simp [fillSlot?, open?, hadj, htile, Option.filter_some, hpassable, hblocked, hindex, hkeep]

/-- Directions fill slots of their own, so that each finds the slot as it was at first. -/
theorem fillSlots_spec (hsize : tiles.size = l.tileCount) (ds : List Direction) :
    ∀ row : Array Nat, ds.Nodup → row.size = 6 → (∀ d ∈ ds, row[d.index]? = some tiles.size) →
    ∃ filled, ds.foldlM (fillSlot? l tiles i) row = some filled ∧ filled.size = 6 ∧
      ∀ d, filled[d.index]? = if d ∈ ds then some ((open? l tiles i d).getD tiles.size)
        else row[d.index]? := by
  induction ds with
  | nil => exact fun row _ hrow _ => ⟨row, rfl, hrow, by simp⟩
  | cons d ds ih =>
    intro row hdistinct hrow hempty
    obtain ⟨hnew, hnodup⟩ := List.nodup_cons.mp hdistinct
    have hfilled := fillSlot?_eq (i := i) hsize hrow (hempty d (by simp))
    generalize hnext : row.setIfInBounds d.index ((open? l tiles i d).getD tiles.size) = next
      at hfilled
    have hself : next[d.index]? = some ((open? l tiles i d).getD tiles.size) := by
      rw [← hnext, Array.getElem?_setIfInBounds_self_of_lt (hrow ▸ d.index_lt)]
    have hother : ∀ d' : Direction, d' ≠ d → next[d'.index]? = row[d'.index]? := by
      intro d' hne
      rw [← hnext, Array.getElem?_setIfInBounds_ne fun h => hne (Direction.index_inj h).symm]
    obtain ⟨filled, hrest, hlen, hslots⟩ := ih next hnodup (by simp [← hnext, hrow]) fun d' hd' => by
      rw [hother d' fun h => hnew (h ▸ hd')]
      exact hempty d' (List.mem_cons_of_mem _ hd')
    refine ⟨filled, by simpa [hfilled] using hrest, hlen, fun d' => ?_⟩
    rw [hslots d']
    by_cases hd' : d' = d
    · simp [hd', hnew, hself]
    · simp [hd', hother d' hd']

theorem fillRow?_spec (hsize : tiles.size = l.tileCount) (hi : i < tiles.size) :
    ∃ row, fillRow? l tiles i = some row ∧ row.size = 6 ∧
      ∀ d : Direction, row[d.index]? = (build l tiles).slot? i d := by
  obtain ⟨row, hfill, hlen, hslots⟩ := fillSlots_spec (i := i) hsize Direction.all
    (Array.replicate 6 tiles.size) (by decide) (by simp) fun d _ => by simp [d.index_lt]
  refine ⟨row, hfill, hlen, fun d => ?_⟩
  have hall : d ∈ Direction.all := by cases d <;> decide
  rw [hslots d, if_pos hall, slot?_build hi]

/-- Filled in place, the table holds in all slots what it holds when it is built at once. -/
theorem fill?_spec (hsize : tiles.size = l.tileCount) :
    ∃ rows, fill? l tiles = some rows ∧ (∀ row ∈ rows, row.size = 6) ∧
      ∀ i (d : Direction), rows[i]?.bind (fun row => row[d.index]?) = (build l tiles).slot? i d := by
  have hrows : ∀ i, i < tiles.size → ∃ row, fillRow? l tiles i = some row ∧ row.size = 6 ∧
      ∀ d : Direction, row[d.index]? = (build l tiles).slot? i d := fun i => fillRow?_spec hsize
  choose! row hfill hlen hslots using hrows
  refine ⟨(List.range tiles.size).map row, ?_, ?_, fun i d => ?_⟩
  · rw [fill?, mapM_eq_some_iff, List.map_map]
    exact List.map_congr_left fun i hi => hfill i (List.mem_range.mp hi)
  · intro r hr
    obtain ⟨i, hi, rfl⟩ := List.mem_map.mp hr
    exact hlen i (List.mem_range.mp hi)
  · by_cases hi : i < tiles.size
    · simp [hi, hslots i hi]
    · simp [hi, slot?, slotNumbers?_build_of_le (Nat.le_of_not_lt hi)]

/-- What a table holds, for boards of every shape and all their tiles. The slot of a tile for a direction
holds the number of a tile if and only if the step in that direction leads there and the tile can be
entered; every other slot holds the number of tiles. Hence slots for different directions that hold
numbers of tiles hold different ones, and none that of the tile itself. A tile that cannot be entered is
no exit of any tile and has no neighbours. From a tile that can be entered, a step that the table shows
is shown in the opposite direction too. Filling the table in place, no access lies outside an array. -/
theorem slots_exact (l : Layout) (tiles : Array Tile) (hsize : tiles.size = l.tileCount) :
    (build l tiles).noNeighbor = l.tileCount ∧
      (∀ i j d, i < l.tileCount → j < l.tileCount →
        ((build l tiles).slot? i d = some j ↔ l.StepsTo i d j ∧ isPassable tiles j = true)) ∧
      (∀ i d, i < l.tileCount → (∃ j < l.tileCount, (build l tiles).slot? i d = some j) ∨
        (build l tiles).slot? i d = some l.tileCount) ∧
      (∀ i j k d d', j < l.tileCount → k < l.tileCount → (build l tiles).slot? i d = some j →
        (build l tiles).slot? i d' = some k → j ≠ i ∧ (d ≠ d' → j ≠ k)) ∧
      (∀ i, (build l tiles).exits i = (((build l tiles).slotNumbers? i).getD []).filter fun j =>
        decide (j < (build l tiles).noNeighbor)) ∧
      (∀ j, isPassable tiles j = false →
        (∀ i, j ∉ (build l tiles).exits i) ∧ (build l tiles).neighbors j = []) ∧
      (∀ i j d, isPassable tiles i = true → j < l.tileCount →
        (build l tiles).slot? i d = some j → (build l tiles).slot? j d.opposite = some i) ∧
      ∃ rows, fill? l tiles = some rows ∧ (∀ row ∈ rows, row.size = 6) ∧
        ∀ i (d : Direction), rows[i]?.bind (fun row => row[d.index]?) = (build l tiles).slot? i d := by
  have hleads : ∀ {i j d}, j < l.tileCount → (build l tiles).slot? i d = some j →
      i < l.tileCount ∧ l.StepsTo i d j := fun hj h =>
    have hi := lt_of_slot? hsize h
    ⟨hi, ((slot?_eq_some_iff hsize hi hj).mp h).1⟩
  refine ⟨noNeighbor_build.trans hsize, fun i j d hi hj => slot?_eq_some_iff hsize hi hj,
    fun i d hi => slot?_cases hsize hi, fun i j k d d' hj hk h h' => ?_, fun i => exits_build hsize,
    fun j hj => ⟨fun i hm => ?_, ?_⟩, fun i j d hi hj h => ?_, fill?_spec hsize⟩
  · have hsteps := (hleads hj h).2
    refine ⟨hsteps.ne, ?_⟩
    rintro hne rfl
    exact hne (hsteps.direction_unique (hleads hk h').2)
  · obtain ⟨d, _, hpassable⟩ := (mem_exits_build hsize).mp hm
    exact Bool.false_ne_true (hj.symm.trans hpassable)
  · rw [neighbors, isOpen_build, hj]
    rfl
  · obtain ⟨hin, hsteps⟩ := hleads hj h
    exact (slot?_eq_some_iff hsize hj hin).mpr ⟨hsteps.opposite, hi⟩

/-- Beside a wall and a blocked cell: the tile below the wall shows the mark for both, and the tile to its
right, which shows it in turn. -/
theorem slots_exact_walled : Grid.walled.tiles.size = Grid.walled.layout.tileCount ∧
    isPassable Grid.walled.tiles 1 = false ∧ isPassable Grid.walled.tiles 8 = true ∧
    (∀ i, 1 ∉ (build Grid.walled.layout Grid.walled.tiles).exits i) ∧
    (build Grid.walled.layout Grid.walled.tiles).slot? 8 .northEast = some 64 ∧
    (build Grid.walled.layout Grid.walled.tiles).slot? 8 .northWest = some 64 ∧
    (build Grid.walled.layout Grid.walled.tiles).slot? 8 .east = some 9 ∧
    (build Grid.walled.layout Grid.walled.tiles).slot? 9 .west = some 8 := by
  have hwall : isPassable Grid.walled.tiles 1 = false := by decide +kernel
  have hfree : isPassable Grid.walled.tiles 8 = true := by decide +kernel
  have heast : (build Grid.walled.layout Grid.walled.tiles).slot? 8 .east = some 9 := by
    decide +kernel
  obtain ⟨_, _, _, _, _, hblocked, hback, _⟩ :=
    slots_exact Grid.walled.layout Grid.walled.tiles Grid.walled.size_eq
  exact ⟨Grid.walled.size_eq, hwall, hfree, (hblocked 1 hwall).1, by decide +kernel,
    by decide +kernel, heast, hback 8 9 .east hfree (by decide +kernel) heast⟩

end EdgeTable

end HexSkirmish
