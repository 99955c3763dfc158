import HexSkirmish.Proofs.Commands

/-! Events tell the whole story. Someone who sees no world but only the events that commands report
can keep a record of it: the size of the board, what its tiles cost and which highlights they carry,
the actors and the hand. Read one after the other, the events of any history lead from the record of
the first world to the record of the last; every tile that they name is on the board, and the counts
that they give are right. -/

namespace HexSkirmish

/-- What the events of a world tell about it. -/
structure Record where
  width : Nat
  height : Nat
  tiles : Array Tile
  actors : List Actor
  hand : List Card
deriving DecidableEq

namespace Record

def blank (width height : Nat) : Record :=
  ⟨width, height, Array.replicate (width * height) ⟨1, .plain⟩, [], []⟩

/-- The place of a cell in the record, row by row. -/
def index? (r : Record) (c : Coord) : Option Nat :=
  if 0 ≤ c.x.toInt ∧ c.x.toInt < r.width ∧ 0 ≤ c.y.toInt ∧ c.y.toInt < r.height then
    some (c.y.toInt.toNat * r.width + c.x.toInt.toNat)
  else none

/-- Changes a tile, which must be on the board. -/
def change? (r : Record) (c : Coord) (f : Tile → Tile) : Option Record :=
  (r.index? c).map fun i => { r with tiles := r.tiles.modify i f }

def wipe (r : Record) (e : TileEffect) : Record :=
  { r with tiles := r.tiles.map fun t => if t.effect = e then { t with effect := .plain } else t }

/-- Highlights the listed tiles, which must be on the board. -/
def mark? (r : Record) (cells : List Coord) : Option Record :=
  if cells.all fun c => (r.index? c).isSome then
    some { r with
      tiles := r.tiles.mapIdx fun i t =>
        if cells.any fun c => r.index? c == some i then { t with effect := .moveable } else t }
  else none

/-- Relocates the first of the actors with a number. -/
def relocate (r : Record) (id : ActorId) (goal : Coord) : Record :=
  { r with actors := r.actors.modify (r.actors.findIdx (·.id = id)) ({ · with coord := goal }) }

/-- The record after an event, unless the event cannot be true. -/
def note? (r : Record) : Event → Option Record
  | .configured width height => some (blank width height)
  | .costChanged c cost => r.change? c ({ · with cost })
  | .edgesRebuilt => some r
  | .effectChanged c effect => r.change? c ({ · with effect })
  | .effectsCleared e count =>
    if r.tiles.countP (fun t => t.effect == e) = count then some (r.wipe e) else none
  | .placed id kind c =>
    (r.change? c ({ · with cost := 65535 })).map fun r =>
      { r with actors := r.actors ++ [⟨id, kind, c⟩] }
  | .placementRejected .. => some r
  | .moved id origin goal _ =>
    ((r.change? goal ({ · with cost := 65535 })).bind
      (change? · origin ({ · with cost := 1 }))).map (relocate · id goal)
  | .moveRejected .. => some r
  | .highlighted _ _ cells => (r.wipe .moveable).mark? cells
  | .drawn card handSize =>
    if r.hand.length + 1 = handSize then some { r with hand := r.hand ++ [card] } else none

/-- The record after some events, one after the other. -/
def replay? (r : Record) (events : List Event) : Option Record := events.foldlM note? r

theorem replay?_append (r : Record) (first second : List Event) :
    r.replay? (first ++ second) = (r.replay? first).bind (replay? · second) :=
  List.foldlM_append

@[simp] theorem replay?_singleton (r : Record) (event : Event) :
    r.replay? [event] = r.note? event := by
  simp [replay?]

end Record

namespace Grid

variable {g g' : Grid} {c o : Coord} {i budget : Nat}

theorem modify_tiles (h : g.layout.index? c = some i) (f : Tile → Tile) :
    (g.modify c f).tiles = g.tiles.modify i f := by
  simp [modify, h]

theorem setCost_tiles (k : UInt16) :
    (g.setCost c k).tiles = (g.modify c ({ · with cost := k })).tiles := by
  apply tiles_ext
  · simp
  · intro e
    rw [cost?, tileAt?_setCost, cost?, tileAt?_modify]
  · intro e
    rw [effect?, tileAt?_setCost, effect?, tileAt?_modify]

theorem effectDiffers_congr {e : TileEffect} (h : g'.effect? c = g.effect? c) :
    g'.effectDiffers c e = g.effectDiffers c e := by
  simp only [effect?] at h
  simp only [effectDiffers]
  cases ht : g.tileAt? c <;> cases ht' : g'.tileAt? c <;> simp_all

theorem contains_of_effectDiffers {e : TileEffect} (h : g.effectDiffers c e = true) :
    g.contains c = true := by
  rw [contains_iff_tileAt?]
  simp only [effectDiffers] at h
  split at h
  · exact ⟨_, by assumption⟩
  · cases h

/-- Where no tile carries a highlight there is nothing to clear. -/
theorem clearEffects_of_count {e : TileEffect} (h : g.effectCount e = 0) :
    (g.clearEffects e).tiles = g.tiles := by
  have hsame : ∀ t ∈ g.tiles, (if t.effect = e then { t with effect := .plain } else t) = t := by
    intro t ht
    by_cases he : t.effect = e
    · by_cases hplain : e = .plain
      · cases t
        simp_all
      · simp only [effectCount, if_neg hplain, Array.countP_eq_zero] at h
        exact absurd (beq_iff_eq.mpr he) (h t ht)
    · rw [if_neg he]
  exact (Array.map_congr_left hsame).trans (by simp)

end Grid

namespace World

variable {w v : World} {c goal : Coord}

/-- What a record should say of a world. -/
def record (w : World) : Record :=
  ⟨w.grid.layout.width, w.grid.layout.height, w.grid.tiles, w.actors, w.hand⟩

theorem record_vacant (l : Layout) : (vacant l).record = .blank l.width l.height := rfl

theorem record_congr (hlayout : v.grid.layout = w.grid.layout)
    (htiles : v.grid.tiles = w.grid.tiles) (hactors : v.actors = w.actors)
    (hhand : v.hand = w.hand) : v.record = w.record := by
  simp only [record, hlayout, htiles, hactors, hhand]

theorem record_index? : w.record.index? c = w.grid.layout.index? c := by
  simp only [Record.index?, record, Layout.index?, Layout.contains_iff]
  congr 1
  apply propext
  constructor
  · rintro ⟨hx, hw, hy, hh⟩
    exact ⟨hx, hy, hw, hh⟩
  · rintro ⟨hx, hy, hw, hh⟩
    exact ⟨hx, hw, hy, hh⟩

theorem record_change? (h : w.grid.contains c = true) (f : Tile → Tile) :
    w.record.change? c f = some { w with grid := w.grid.modify c f }.record := by
  obtain ⟨i, hi⟩ := Layout.exists_index? h
  rw [Record.change?, record_index?, hi]
  simp [record, Grid.modify_tiles hi]

theorem record_setCost (h : w.grid.contains c = true) (k : UInt16) :
    w.record.change? c ({ · with cost := k }) =
      some { w with grid := w.grid.setCost c k }.record := by
  rw [record_change? h]
  simp [record, Grid.setCost_tiles]

/-! ### One command -/

theorem replay?_setEffect (w : World) (c : Coord) (e : TileEffect) :
    w.record.replay? (w.setEffect c e).2 = some (w.setEffect c e).1.record := by
  unfold setEffect
  split
  · rename_i hdiffers
    rw [Record.replay?_singleton]
    exact record_change? (Grid.contains_of_effectDiffers hdiffers) _
  · rfl

theorem replay?_carryTag (w : World) (origin goal : Coord) (tag : Option TileEffect) :
    w.record.replay? (w.carryTag origin goal tag).2 =
      some (w.carryTag origin goal tag).1.record := by
  cases tag with
  | none => rfl
  | some e =>
    simp only [carryTag, Record.replay?_append, replay?_setEffect, Option.bind_some]

/-- What happens to the highlights does not depend on the costs. -/
theorem setEffect_congr (h : ∀ t, v.grid.effect? t = w.grid.effect? t) (c : Coord)
    (e : TileEffect) : (v.setEffect c e).2 = (w.setEffect c e).2 ∧
      ∀ t, (v.setEffect c e).1.grid.effect? t = (w.setEffect c e).1.grid.effect? t := by
  constructor
  · simp only [setEffect, Grid.effectDiffers_congr (h c)]
    split <;> rfl
  · intro t
    rw [effect?_setEffect, effect?_setEffect, h]

theorem carryTag_congr (h : ∀ t, v.grid.effect? t = w.grid.effect? t) (origin goal : Coord)
    (tag : Option TileEffect) :
    (v.carryTag origin goal tag).2 = (w.carryTag origin goal tag).2 ∧
      ∀ t, (v.carryTag origin goal tag).1.grid.effect? t =
        (w.carryTag origin goal tag).1.grid.effect? t := by
  cases tag with
  | none => exact ⟨rfl, h⟩
  | some e =>
    obtain ⟨hevents, heffects⟩ := setEffect_congr h goal e
    obtain ⟨hevents', heffects'⟩ := setEffect_congr heffects origin .plain
    exact ⟨by simp only [carryTag, hevents, hevents'], heffects'⟩

theorem relocate_eq_modify (id : ActorId) (goal : Coord) (actors : List Actor) :
    relocate id goal actors =
      actors.modify (actors.findIdx (·.id = id)) ({ · with coord := goal }) := by
  induction actors with
  | nil => rfl
  | cons a rest ih =>
    by_cases hid : a.id = id
    · simp [relocate, hid, List.findIdx_cons]
    · simp [relocate, hid, List.findIdx_cons, ih]

theorem note?_moved (id : ActorId) {origin : Coord} (route : Route)
    (horigin : w.grid.contains origin = true) (hgoal : w.grid.contains goal = true) :
    w.record.note? (.moved id origin goal route) =
      some { w with
        grid := (w.grid.setCost goal Tile.blockedCost).setCost origin Tile.openCost
        actors := relocate id goal w.actors }.record := by
  let entered : World := { w with grid := w.grid.setCost goal Tile.blockedCost }
  have hentered : w.record.change? goal ({ · with cost := 65535 }) = some entered.record :=
    record_setCost hgoal Tile.blockedCost
  have hstill : entered.grid.contains origin = true := by
    simpa [entered, Grid.contains] using horigin
  have hleft : entered.record.change? origin ({ · with cost := 1 }) =
      some { entered with grid := entered.grid.setCost origin Tile.openCost }.record :=
    record_setCost hstill Tile.openCost
  rw [Record.note?, hentered, Option.bind_some, hleft, Option.map_some]
  simp only [Record.relocate, record, relocate_eq_modify, entered]

/-- A move changes the costs first and the highlights after that, and reports them in the other
order. This is the same to the record, as neither depends on the other. -/
theorem replay?_commitMove {a : Actor} (horigin : w.grid.contains a.coord = true)
    (hgoal : w.grid.contains goal = true) (tag : Option TileEffect) (route : Route) :
    w.record.replay? (w.commitMove a goal tag route).2 =
      some (w.commitMove a goal tag route).1.record := by
  let paid : World := { w with grid :=
    ((w.grid.setCost goal Tile.blockedCost).setCost a.coord Tile.openCost).rebuild }
  have hpaid : ∀ t, paid.grid.effect? t = w.grid.effect? t := fun t => by
    simp only [paid, Grid.effect?_rebuild, Grid.effect?_setCost]
  obtain ⟨hevents, heffects⟩ := carryTag_congr hpaid a.coord goal tag
  have hbefore := carryTag_alike w a.coord goal tag
  have hafter := carryTag_alike paid a.coord goal tag
  have hreported : (w.commitMove a goal tag route).2 =
      (w.carryTag a.coord goal tag).2 ++ [.moved a.id a.coord goal route] := by
    rw [← hevents]
    rfl
  rw [hreported, Record.replay?_append, replay?_carryTag, Option.bind_some,
    Record.replay?_singleton, note?_moved a.id route (hbefore.contains.trans horigin)
      (hbefore.contains.trans hgoal)]
  have hlayout : (paid.carryTag a.coord goal tag).1.grid.layout =
      (w.carryTag a.coord goal tag).1.grid.layout := by
    simp [hafter.layout, hbefore.layout, paid]
  have hcost : ∀ t, (paid.carryTag a.coord goal tag).1.grid.cost? t =
      (((w.carryTag a.coord goal tag).1.grid.setCost goal Tile.blockedCost).setCost a.coord
        Tile.openCost).cost? t := fun t => by
    simp only [hafter.cost, paid, Grid.cost?_rebuild, Grid.cost?_setCost, hbefore.cost]
  have hactors : (paid.carryTag a.coord goal tag).1.actors =
      (w.carryTag a.coord goal tag).1.actors := hafter.actors.trans hbefore.actors.symm
  have hworld : (w.commitMove a goal tag route).1 =
      { (paid.carryTag a.coord goal tag).1 with
        actors := relocate a.id goal (paid.carryTag a.coord goal tag).1.actors } := rfl
  rw [hworld]
  apply congrArg some
  apply record_congr
  · simp [hlayout]
  · refine Grid.tiles_ext (by simp [hlayout]) (fun t => (hcost t).symm) fun t => ?_
    simp only [Grid.effect?_setCost, heffects]
  · simp only [hactors]
  · simp [paid]

theorem replay?_place (w : World) (kind : ActorKind) (c : Coord) :
    w.record.replay? (w.place kind c).2 = some (w.place kind c).1.record := by
  unfold place
  split
  · rfl
  · rename_i hin
    have hin : w.grid.contains c = true := by simpa using hin
    split
    · rfl
    · have hpaid : w.record.change? c ({ · with cost := 65535 }) =
          some { w with grid := w.grid.setCost c Tile.blockedCost }.record :=
        record_setCost hin Tile.blockedCost
      rw [Record.replay?_singleton, Record.note?, hpaid]
      rfl

theorem replay?_move (h : w.Sound) (id : ActorId) (goal : Coord) (tag : Option TileEffect) :
    w.record.replay? (w.move id goal tag).2 = some (w.move id goal tag).1.record := by
  have hready : ({ w with grid := w.grid.refresh } : World).record = w.record := by
    simp [record]
  rcases move_outcome w id goal tag with ⟨a, rfl, hadmits⟩ | ⟨_, hreported, hsame | hrefreshed⟩
  · have horigin := h.inside a (List.mem_of_find?_eq_some hadmits.found)
    have hgoal := Grid.contains_of_free hadmits.free
    rw [hadmits.move_eq, ← hready]
    exact replay?_commitMove (by simpa [Grid.contains] using horigin)
      (by simpa [Grid.contains] using hgoal) tag _
  · rw [hreported, hsame]
    rfl
  · rw [hreported, hrefreshed, hready]
    rfl

/-! ### Highlights -/

/-- The cells of some tiles, by their numbers. -/
theorem any_coordAt? {l : Layout} {P : Nat → Bool} {i : Nat} (hi : i < l.tileCount) :
    (((List.range l.tileCount).filter P).filterMap l.coordAt?).any
      (fun c => l.index? c == some i) = P i := by
  rw [Bool.eq_iff_iff, List.any_eq_true]
  simp only [List.mem_filterMap, List.mem_filter, beq_iff_eq]
  constructor
  · rintro ⟨c, ⟨j, ⟨_, hj⟩, hc⟩, hidx⟩
    obtain rfl : j = i := Option.some.inj ((Layout.index?_of_coordAt? hc).symm.trans hidx)
    exact hj
  · intro hP
    obtain ⟨c, hc⟩ := Layout.exists_coordAt? hi
    exact ⟨c, ⟨i, ⟨List.mem_range.mpr hi, hP⟩, hc⟩, Layout.index?_of_coordAt? hc⟩

/-- Marking the cells of some tiles marks these tiles. -/
theorem record_mark? (w : World) (P : Nat → Bool) :
    w.record.mark? (((List.range w.grid.layout.tileCount).filter P).filterMap
        w.grid.layout.coordAt?) =
      some { w.record with
        tiles := w.grid.tiles.mapIdx fun i t =>
          if P i then { t with effect := .moveable } else t } := by
  have hin : (((List.range w.grid.layout.tileCount).filter P).filterMap
      w.grid.layout.coordAt?).all (fun c => (w.record.index? c).isSome) = true := by
    rw [List.all_eq_true]
    intro c hc
    obtain ⟨j, _, hj⟩ := List.mem_filterMap.mp hc
    rw [record_index?, Layout.index?_of_coordAt? hj]
    rfl
  rw [Record.mark?, if_pos hin]
  simp only [record_index?, Option.some.injEq, Record.mk.injEq, true_and, and_true]
  apply Array.ext
  · simp [record]
  · intro i hi _
    have hlt : i < w.grid.layout.tileCount := by
      rw [← w.grid.size_eq]
      simpa [record] using hi
    simp only [Array.getElem_mapIdx, any_coordAt? hlt, record]

theorem note?_highlight (w : World) (o : Coord) (budget : Nat) :
    w.record.note? (.highlighted o budget (w.grid.highlight o budget).2) =
      some { w with grid := (w.grid.highlight o budget).1 }.record := by
  let cleared : World := { w with grid := w.grid.refresh.clearEffects .moveable }
  have hcleared : w.record.wipe .moveable = cleared.record := by
    simp [cleared, record, Record.wipe, Grid.clearEffects]
  have hlayout : cleared.grid.layout = w.grid.layout := by simp [cleared]
  have hmark := record_mark? cleared
    (Grid.withinBudget (w.grid.refresh.flowOver w.grid.refresh.edges o) budget)
  rw [hlayout] at hmark
  exact (congrArg (Record.mark? · _) hcleared).trans hmark

/-! ### Histories -/

theorem replay?_apply (h : w.Sound) (command : Command) :
    w.record.replay? (w.apply command).2 = some (w.apply command).1.record := by
  cases command with
  | configure width height size =>
    simp only [apply]
    split
    · rename_i l hl
      obtain ⟨rfl, rfl⟩ := Layout.create_ok hl
      rfl
    · rfl
  | setCost c k =>
    simp only [apply]
    split
    · rename_i hin
      rw [Record.replay?_singleton]
      exact record_setCost hin k
    · rfl
  | rebuildEdges => rfl
  | setEffect c e => exact replay?_setEffect w c e
  | clearEffect c => exact replay?_setEffect w c .plain
  | clearEffects e =>
    simp only [apply]
    split
    · rename_i hcount
      have hplain : e ≠ .plain := by
        rintro rfl
        simp [Grid.effectCount] at hcount
      simp only [Record.replay?_singleton, Record.note?, record, Grid.effectCount, if_neg hplain,
        if_true]
      rfl
    · rename_i hcount
      have hnone := Grid.clearEffects_of_count (Nat.eq_zero_of_not_pos hcount)
      exact congrArg some (record_congr rfl hnone.symm rfl rfl)
  | place kind c => exact replay?_place w kind c
  | move id goal tag => exact replay?_move h id goal tag
  | highlight o budget =>
    rw [apply, Record.replay?_singleton]
    exact note?_highlight w o budget
  | draw card => simp [apply, Record.note?, record]

theorem replay?_applyAll (h : w.Sound) (commands : List Command) :
    w.record.replay? (w.applyAll commands).2 = some (w.applyAll commands).1.record := by
  induction commands generalizing w with
  | nil => rfl
  | cons command rest ih =>
    rw [applyAll_cons, Record.replay?_append, replay?_apply h, Option.bind_some,
      ih (h.apply command)]

/-- The events are a complete record of what happens. From an empty board of any shape, whatever
commands are given, the record that is kept of the events alone is the world as it is. -/
theorem events_tell_all (l : Layout) (commands : List Command) :
    (Record.blank l.width l.height).replay? ((vacant l).applyAll commands).2 =
      some ((vacant l).applyAll commands).1.record := by
  rw [← record_vacant]
  exact replay?_applyAll (.vacant l) commands

/-- A report that cannot be true leads to no record: the first card makes a hand of one. -/
example : (Record.blank 1 1).replay? [.costChanged ⟨0, 0⟩ 3, .drawn .meal 2] = none := by decide

end World

end HexSkirmish
