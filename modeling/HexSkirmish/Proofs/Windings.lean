import HexSkirmish.Proofs.Campaign
import HexSkirmish.Proofs.Distances

/-! How long a route can be. On a winding board two walls leave one way between opposite corners, which
goes along three rows from end to end. Each of its cells has a stage: no step raises it by more than one,
and some step to every cell raises it by one. So the stage is the length of the shortest ways, and the
route takes about three fifths of the tiles. On the widest boards these are more than 32 bits can
count. -/

namespace HexSkirmish

namespace Place

variable {p q : Place} {d : Direction} {width : Nat}

/-- The free cells of a winding board. They form three rows, of which the first two are joined at their
right ends and the last two at their left ends. -/
@[mk_iff]
structure InAisle (width : Nat) (p : Place) : Prop where
  column : 0 ≤ p.x ∧ p.x < width
  row : p.y = 0 ∨ p.y = 1 ∧ p.x = width - 1 ∨ p.y = 2 ∨ p.y = 3 ∧ p.x = 0 ∨ p.y = 4

/-- How many steps lead to a free cell from the first one. -/
def stage (width : Nat) (p : Place) : Int :=
  if p.y ≤ 1 then p.x + p.y
  else if p.y ≤ 3 then 2 * width - p.x
  else 2 * width + max p.x 1

theorem InAisle.stage_step (h : p.InAisle width) (hstep : (p.step d).InAisle width) :
    (p.step d).stage width ≤ p.stage width + 1 := by
  have hrow := p.step_row (d := d)
  have hcolumn := p.step_column (d := d)
  generalize p.step d = q at hstep hrow hcolumn ⊢
  have := h.column
  have := h.row
  have := hstep.column
  have := hstep.row
  simp only [Place.column] at hcolumn
  simp only [stage]
  cases d <;> simp only [Direction.stride] at hcolumn hrow <;> omega

/-- To every cell but the first a step leads from the stage before. -/
theorem InAisle.exists_before (h : p.InAisle width) (hwidth : 2 ≤ width)
    (hpos : 0 < p.stage width) :
    ∃ d q, InAisle width q ∧ q.step d = p ∧ q.stage width + 1 = p.stage width := by
  suffices hback : ∃ (d : Direction) (q : Place), InAisle width q ∧ q.y + d.stride.2 = p.y ∧
      q.column + d.stride.1 = p.column ∧ q.stage width + 1 = p.stage width by
    obtain ⟨d, q, hq, hrow, hcolumn, hstage⟩ := hback
    refine ⟨d, q, hq, apart_eq_zero.mp ?_, hstage⟩
    simp [apart, step_row, step_column, hrow, hcolumn]
  obtain ⟨x, y⟩ := p
  obtain ⟨hcolumn, hrow⟩ := h
  simp only [inAisle_iff, stage, Place.column] at hpos hcolumn hrow ⊢
  -- Within a row the step leads on to the side, and down where two rows are joined.
  rcases hrow with rfl | ⟨rfl, rfl⟩ | rfl | ⟨rfl, rfl⟩ | rfl
  · exact ⟨.east, ⟨x - 1, 0⟩, by dsimp only [Direction.stride]; omega⟩
  · exact ⟨.southEast, ⟨width - 1, 0⟩, by dsimp only [Direction.stride]; omega⟩
  · by_cases hright : x = width - 1
    · exact ⟨.southWest, ⟨width - 1, 1⟩, by dsimp only [Direction.stride]; omega⟩
    · exact ⟨.west, ⟨x + 1, 2⟩, by dsimp only [Direction.stride]; omega⟩
  · exact ⟨.southWest, ⟨1, 2⟩, by dsimp only [Direction.stride]; omega⟩
  · by_cases hjoint : x ≤ 1
    · refine ⟨if x = 0 then .southWest else .southEast, ⟨0, 3⟩, ?_⟩
      split <;> dsimp only [Direction.stride] <;> omega
    · exact ⟨.east, ⟨x - 1, 4⟩, by dsimp only [Direction.stride]; omega⟩

theorem inAisle_first (hwidth : 0 < width) : InAisle width ⟨0, 0⟩ :=
  ⟨⟨Int.le_refl 0, Int.natCast_pos.mpr hwidth⟩, .inl rfl⟩

theorem InAisle.eq_first (h : p.InAisle width) (hstage : p.stage width = 0) : p = ⟨0, 0⟩ := by
  obtain ⟨hcolumn, hrow⟩ := h
  simp only [stage] at hstage
  rw [Place.mk.injEq]
  omega

/-- On a board that is not too wide, columns and rows of free cells are words. -/
theorem InAisle.exists_coord (h : p.InAisle width) (hwidth : width ≤ 2147483647) :
    ∃ c : Coord, c.place = p := by
  obtain ⟨hcolumn, hrow⟩ := h
  refine ⟨⟨Int32.ofInt p.x, Int32.ofInt p.y⟩, ?_⟩
  rw [Coord.place, Int32.toInt_ofInt_of_le (by omega) (by omega),
    Int32.toInt_ofInt_of_le (by omega) (by omega)]

end Place

namespace Grid

variable {g : Grid} {a b c : Coord} {ts : List Nat} {width n : Nat}

/-- What no step to a free cell raises by more than one, no way raises by more than its length. -/
theorem Way.le_length {φ : Coord → Int} {P : Coord → Prop} (h : g.Way a ts b) (ha : P a)
    (hstep : ∀ c e, P c → g.layout.Beside c e → g.isObstacle e = false → P e ∧ φ e ≤ φ c + 1) :
    φ b ≤ φ a + ts.length := by
  induction h with
  | here => simp
  | step hbeside _ hfree _ ih =>
    obtain ⟨he, hle⟩ := hstep _ _ ha hbeside hfree
    have := ih he
    simp only [List.length_cons]
    omega

/-- The corner of a winding board that is farthest from the first cell. -/
def farCorner (width : Nat) : Coord := ⟨Int32.ofNat (width - 1), 4⟩

/-- A winding board. Its first cell may be blocked, as it is when somebody stands there. -/
structure Winds (width : Nat) (g : Grid) : Prop where
  current : g.Current
  columns : g.layout.width = width
  rows : g.layout.height = 5
  free : ∀ c : Coord, c ≠ ⟨0, 0⟩ → (g.isObstacle c = false ↔ c.place.InAisle width)

namespace Winds

theorem width_bounds (h : g.Winds width) : 0 < width ∧ width ≤ 2147483647 :=
  h.columns ▸ g.layout.width_bounds

theorem contains (h : g.Winds width) (hc : c.place.InAisle width) : g.contains c = true := by
  obtain ⟨hcolumn, hrow⟩ := hc
  simp only [Coord.place] at hcolumn hrow
  rw [Grid.contains, Layout.contains_iff, h.columns, h.rows]
  omega

theorem inAisle_of_free (h : g.Winds width) (hc : g.isObstacle c = false) :
    c.place.InAisle width := by
  by_cases hfirst : c = ⟨0, 0⟩
  · rw [hfirst]
    exact Place.inAisle_first h.width_bounds.1
  · exact (h.free c hfirst).mp hc

theorem place_farCorner (h : g.Winds width) : (farCorner width).place = ⟨width - 1, 4⟩ := by
  obtain ⟨hpos, hle⟩ := h.width_bounds
  rw [Coord.place, farCorner, Int32.toInt_ofNat_of_lt (by omega)]
  simp only [Place.mk.injEq]
  exact ⟨by omega, rfl⟩

theorem inAisle_farCorner (h : g.Winds width) : (farCorner width).place.InAisle width := by
  have := h.width_bounds
  rw [h.place_farCorner]
  exact ⟨by dsimp only; omega, by simp⟩

theorem contains_farCorner (h : g.Winds width) : g.contains (farCorner width) = true :=
  h.contains h.inAisle_farCorner

/-- The stage of a cell is a lower bound on the length of the ways to it. -/
theorem stage_le (h : g.Winds width) (hway : g.Way ⟨0, 0⟩ ts c) :
    c.place.stage width ≤ ts.length := by
  have hle := hway.le_length (φ := fun e => e.place.stage width)
    (P := fun e => e.place.InAisle width) (Place.inAisle_first h.width_bounds.1)
    fun e f he hbeside hfree => by
      obtain ⟨d, hd⟩ := hbeside
      have hf := h.inAisle_of_free hfree
      have hstep := (Layout.neighbor?_eq_some_iff.mp hd).2
      exact ⟨hf, hstep ▸ he.stage_step (hstep ▸ hf)⟩
  simpa [Coord.place, Place.stage] using hle

/-- Some way to a cell is as long as its stage. -/
theorem exists_way (h : g.Winds width) (hwidth : 2 ≤ width) (hc : c.place.InAisle width)
    (hstage : c.place.stage width = n) : ∃ ts, g.Way ⟨0, 0⟩ ts c ∧ ts.length = n := by
  induction n generalizing c with
  | zero =>
    obtain rfl : c = ⟨0, 0⟩ := Coord.place_inj.mp (hc.eq_first hstage)
    exact ⟨[], .here _, rfl⟩
  | succ n ih =>
    obtain ⟨d, q, hq, hstep, hbefore⟩ := hc.exists_before hwidth (by omega)
    obtain ⟨e, rfl⟩ := hq.exists_coord h.width_bounds.2
    obtain ⟨ts, hway, hlength⟩ := ih hq (by omega)
    have hin := h.contains hc
    obtain ⟨t, ht⟩ := Layout.exists_index? hin
    have hlater : c ≠ ⟨0, 0⟩ := by
      rintro rfl
      simp [Coord.place, Place.stage] at hstage
      omega
    have hbeside : g.layout.Beside e c := ⟨d, Layout.neighbor?_eq_some_iff.mpr ⟨hin, hstep⟩⟩
    exact ⟨ts ++ [t], hway.concat hbeside ht ((h.free c hlater).mpr hc), by simp [hlength]⟩

/-- The route from the first cell to the far corner, with its length. -/
theorem route_farCorner (h : g.Winds width) (hwidth : 2 ≤ width) :
    ∃ ts, g.route ⟨0, 0⟩ (farCorner width) = .found ⟨0, 0⟩ (farCorner width) ts ∧
      ts.length = 3 * width - 1 := by
  have hplace := h.place_farCorner
  have hstage : (farCorner width).place.stage width = (3 * width - 1 : Nat) := by
    rw [hplace]
    simp only [Place.stage]
    omega
  obtain ⟨us, hus, hlength⟩ := h.exists_way hwidth h.inAisle_farCorner hstage
  have hfirst := h.contains (c := ⟨0, 0⟩) (Place.inAisle_first h.width_bounds.1)
  have hne : (⟨0, 0⟩ : Coord) ≠ farCorner width := by
    intro heq
    rw [← heq] at hplace
    simp [Coord.place] at hplace
  rcases route_ways h.current hfirst h.contains_farCorner hne with
    ⟨ts, hroute, hway, hleast⟩ | ⟨_, hnone⟩
  · have hlow := h.stage_le hway
    have hhigh := hleast us hus
    exact ⟨ts, hroute, by omega⟩
  · exact absurd hus (hnone us)

end Winds

end Grid

/-! ### Battles on winding boards -/

namespace BattleConfig

variable {y : Int32} {start n width : Nat} {c : Coord}

/-- Cells of one row, side by side. -/
def row (y : Int32) (start n : Nat) : List Coord :=
  (List.range n).map fun i => ⟨Int32.ofNat (start + i), y⟩

theorem mem_row (h : start + n ≤ 2147483648) : c ∈ row y start n ↔
    c.y = y ∧ start ≤ c.x.toInt ∧ c.x.toInt < start + n := by
  simp only [row, List.mem_map, List.mem_range]
  constructor
  · rintro ⟨i, hi, rfl⟩
    rw [Int32.toInt_ofNat_of_lt (by omega)]
    exact ⟨rfl, by omega, by omega⟩
  · rintro ⟨rfl, hlow, hhigh⟩
    have hx : Int32.ofNat (start + (c.x.toInt.toNat - start)) = c.x := by
      rw [← Int32.toInt_inj, Int32.toInt_ofNat_of_lt (by omega)]
      omega
    exact ⟨c.x.toInt.toNat - start, by omega, by rw [hx]⟩

theorem nodup_row (h : start + n ≤ 2147483648) : (row y start n).Nodup := by
  refine List.Nodup.map_on (fun i hi j hj heq => ?_) List.nodup_range
  have hx := congrArg (fun e : Coord => e.x.toInt) heq
  rw [List.mem_range] at hi hj
  simp only at hx
  rw [Int32.toInt_ofNat_of_lt (by omega), Int32.toInt_ofNat_of_lt (by omega)] at hx
  omega

/-- The player in a corner of a winding board, with the greatest budget. -/
def winding (width : Nat) : BattleConfig where
  width := width
  height := 5
  size := ⟨0x3f800000⟩
  movementPerTurn := 4294967295
  handSize := 0
  seed := some 0
  player := ⟨0, 0⟩
  npcs := []
  obstacles := row 1 0 (width - 1) ++ row 3 1 (width - 1)

theorem mem_walls (hpos : 0 < width) (hwidth : width ≤ 2147483647) :
    c ∈ (winding width).obstacles ↔ c.y.toInt = 1 ∧ 0 ≤ c.x.toInt ∧ c.x.toInt < width - 1 ∨
      c.y.toInt = 3 ∧ 1 ≤ c.x.toInt ∧ c.x.toInt < width := by
  have hone : c.y = 1 ↔ c.y.toInt = 1 := Int32.toInt_inj.symm
  have hthree : c.y = 3 ↔ c.y.toInt = 3 := Int32.toInt_inj.symm
  simp only [winding, List.mem_append, mem_row (show 0 + (width - 1) ≤ 2147483648 by omega),
    mem_row (show 1 + (width - 1) ≤ 2147483648 by omega), hone, hthree]
  omega

theorem nodup_cells (hpos : 0 < width) (hwidth : width ≤ 2147483647) :
    (winding width).cells.Nodup := by
  have hfirst : (⟨0, 0⟩ : Coord) ∉ (winding width).obstacles := by
    simp [mem_walls hpos hwidth]
  have hdisjoint : (row 1 0 (width - 1)).Disjoint (row 3 1 (width - 1)) := by
    intro c hc hc'
    have hy := ((mem_row (by omega)).mp hc).1.symm.trans ((mem_row (by omega)).mp hc').1
    cases hy
  exact List.nodup_cons.mpr
    ⟨hfirst, (nodup_row (by omega)).append (nodup_row (by omega)) hdisjoint⟩

theorem cells_inside (hpos : 0 < width) (hwidth : width ≤ 2147483647) {l : Layout}
    (hcolumns : l.width = width) (hrows : l.height = 5) :
    ∀ c ∈ (winding width).cells, l.contains c = true := by
  intro c hc
  rw [Layout.contains_iff, hcolumns, hrows]
  rcases List.mem_cons.mp hc with rfl | hc
  · simp [winding]
    omega
  · have := (mem_walls hpos hwidth).mp hc
    omega

end BattleConfig

theorem World.player?_of_single {w : World} {p : Actor} (hactors : w.actors = [p])
    (hkind : p.kind = .player) : w.player? = some p := by
  simp [player?, roster, insertByNumber, hactors, hkind]

theorem World.Settled.winds {w : World} {width : Nat}
    (h : w.Settled (BattleConfig.winding width).obstacles) (hcurrent : w.grid.Current)
    (hcolumns : w.grid.layout.width = width) (hrows : w.grid.layout.height = 5)
    (hactors : w.actors.map (·.coord) = [⟨0, 0⟩]) : w.grid.Winds width where
  current := hcurrent
  columns := hcolumns
  rows := hrows
  free c hne := by
    obtain ⟨hpos, hwidth⟩ := hcolumns ▸ w.grid.layout.width_bounds
    have hin : w.grid.contains c = true ↔ 0 ≤ c.x.toInt ∧ 0 ≤ c.y.toInt ∧
        c.x.toInt < width ∧ c.y.toInt < 5 := by
      rw [Grid.contains, Layout.contains_iff, hcolumns, hrows]
      rfl
    have htaken : c ∈ taken (BattleConfig.winding width).obstacles w ↔
        c ∈ (BattleConfig.winding width).obstacles := by
      simp [taken, hactors, hne]
    constructor
    · intro hfree
      have hinside := Grid.contains_of_free hfree
      rw [h.free hinside, htaken, BattleConfig.mem_walls hpos hwidth] at hfree
      have := hin.mp hinside
      constructor <;> simp only [Coord.place] <;> omega
    · rintro ⟨hcolumn, hrow⟩
      simp only [Coord.place] at hcolumn hrow
      have hinside := hin.mpr (by omega)
      rw [h.free hinside, htaken, BattleConfig.mem_walls hpos hwidth]
      omega

namespace Battle

open BattleConfig

variable {width : Nat} {b : Battle} {events : List Event}

def windingBoard (width : Nat) : Layout :=
  (Layout.create width 5 (winding width).size).toOption.getD .standard

def windingBattle (width : Nat) : Battle where
  world := ((World.vacant (windingBoard width)).applyAll (setupCommands (winding width))).1
  state := .initial
  rules := (winding width).rules
  generator := .ofSeed 0
  seed := 0

theorem create_windingBoard (hpos : 0 < width) (hwidth : width ≤ 2147483647) :
    Layout.create width 5 (winding width).size = .ok (windingBoard width) := by
  have hextents : usableExtent width = true ∧ usableExtent 5 = true := by
    simp [usableExtent, hpos, hwidth]
  have hsize : usableSize (winding width).size.value = true := by
    change usableSize (Single.value ⟨0x3f800000⟩) = true
    decide
  simp [windingBoard, Layout.create, hextents, hsize, Except.toOption]

theorem create_winding (hpos : 0 < width) (hwidth : width ≤ 2147483647) :
    create (winding width) 0 = .ok (windingBattle width,
      ((World.vacant (windingBoard width)).applyAll (setupCommands (winding width))).2) := by
  have hboard := create_windingBoard hpos hwidth
  obtain ⟨hcolumns, hrows⟩ := Layout.create_ok hboard
  have hcheck : checkEntries (windingBoard width) [] (winding width).entries = .ok () := by
    rw [checkEntries_ok, entries_cells]
    exact ⟨nodup_cells hpos hwidth, fun c hc =>
      ⟨cells_inside hpos hwidth hcolumns hrows c hc, List.not_mem_nil⟩⟩
  have hvalid : (winding width).validate = .ok (windingBoard width) := by
    simp only [validate, winding] at hboard hcheck ⊢
    simp [hboard, hcheck]
  simp only [create, hvalid]
  rfl

/-- Three inputs open the player's first turn, and without cards they change no actors and no costs. -/
theorem play_opened (hstate : b.state = .initial) (hhand : b.rules.handSize = 0) :
    (b.play [.advance, .advance, .advance]).state =
        ⟨.playerActs, b.rules.movementPerTurn, 0, none⟩ ∧
      World.Alike b.world (b.play [.advance, .advance, .advance]).world := by
  have hplay : b.play [.advance, .advance, .advance] =
      { b with
        world := (b.world.applyAll (Turn.openingEffects b.world b.rules.movementPerTurn)).1
        state := ⟨.playerActs, b.rules.movementPerTurn, 0, none⟩ } := by
    simp [play, after, submit, Turn.transition, Turn.advance, Turn.drawCards, hstate, hhand,
      TurnState.initial, Phase.isFinal]
  rw [hplay]
  exact ⟨rfl, World.applyAll_invariant (P := fun w => World.Alike b.world w) (.refl _)
    fun _ command hc hw =>
      hw.trans (World.apply_alike (Turn.openingEffects_quiet _ _ command hc))⟩

/-- The player's first turn on a winding board, with the whole budget left. -/
theorem opened_winds (h : create (winding width) 0 = .ok (b, events)) :
    let now := b.play [.advance, .advance, .advance]
    now.state = ⟨.playerActs, 4294967295, 0, none⟩ ∧ now.world.grid.Winds width ∧
      ∃ p, now.world.actors = [p] ∧ p.kind = .player ∧ p.coord = ⟨0, 0⟩ := by
  intro now
  obtain ⟨hlayout, hreached, hsettled, hactors, hstate, hrules⟩ := create_ok h
  obtain ⟨hcolumns, hrows⟩ := Layout.create_ok hlayout
  obtain ⟨hopened, halike⟩ := play_opened hstate (congrArg TurnRules.handSize hrules)
  obtain ⟨p, hp⟩ : ∃ p, b.world.actors = [p] := by
    have hlength := congrArg List.length hactors
    exact List.length_eq_one_iff.mp (by simpa [winding] using hlength)
  rw [hp] at hactors
  obtain ⟨hkind, hcoord⟩ : p.kind = .player ∧ p.coord = ⟨0, 0⟩ := by
    simpa [winding] using hactors
  have hsame : now.world.actors = [p] := halike.actors.trans hp
  refine ⟨hopened.trans (by rw [hrules]; rfl), ?_, p, hsame, hkind, hcoord⟩
  exact (hsettled.alike halike).winds (halike.current hreached.sound.current)
    (by rw [halike.layout]; exact hcolumns) (by rw [halike.layout]; exact hrows)
    (by rw [hsame, List.map_singleton, hcoord])

/-- From there the far corner can be reached, by a route through three rows. -/
theorem opened_route (hwidth : 2 ≤ width) (h : create (winding width) 0 = .ok (b, events)) :
    let now := b.play [.advance, .advance, .advance]
    ∃ p, now.world.player? = some p ∧ now.world.grid.contains (Grid.farCorner width) = true ∧
      (now.world.grid.route p.coord (Grid.farCorner width)).isFound = true ∧
      (now.world.grid.route p.coord (Grid.farCorner width)).length = 3 * width - 1 := by
  intro now
  obtain ⟨_, hwinds, p, hactors, hkind, hcoord⟩ := opened_winds h
  obtain ⟨ts, hroute, hlength⟩ := hwinds.route_farCorner hwidth
  refine ⟨p, World.player?_of_single hactors hkind, hwinds.contains_farCorner, ?_⟩
  rw [hcoord, hroute]
  exact ⟨rfl, hlength⟩

end Battle

end HexSkirmish
