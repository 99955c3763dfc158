import HexSkirmish.MapText
import HexSkirmish.Proofs.Campaign
import Mathlib.Data.List.ProdSigma

/-! The printed map. It has a line for each row of the board, and between single blanks a symbol for
each cell of the row. While walls and actors stand on tiles of their own, the symbol of a cell tells
which of them holds it, or else whether a free tile is highlighted. So as many symbols of a kind are
printed as there are walls and actors of that kind. -/

namespace HexSkirmish

/-! ### Lines -/

namespace MapText

theorem count_intersperse {sep s : Char} (h : s ≠ sep) (xs : List Char) :
    (xs.intersperse sep).count s = xs.count s := by
  induction xs with
  | nil => rfl
  | cons x xs ih =>
    cases xs with
    | nil => rfl
    | cons y ys =>
      rw [List.intersperse_cons_cons, List.count_cons, List.count_cons_of_ne h.symm, ih,
        ← List.count_cons]

/-- A text of lines that are ended one by one is split into these lines, and nothing comes after. -/
theorem splitOn_lines {sep : Char} {lines : List (List Char)} (h : ∀ line ∈ lines, sep ∉ line) :
    (lines.flatMap (· ++ [sep])).splitOn sep = lines ++ [[]] := by
  have hjoin : ∀ lines : List (List Char),
      lines.flatMap (· ++ [sep]) = [sep].intercalate (lines ++ [[]]) := by
    intro lines
    induction lines with
    | nil => rfl
    | cons line lines ih =>
      rw [List.flatMap_cons, ih]
      cases lines <;> simp [List.intercalate, List.intersperse]
  rw [hjoin]
  refine List.splitOn_intercalate sep (fun line hline => ?_) (by simp)
  rcases List.mem_append.mp hline with hline | hline
  · exact h line hline
  · simp [List.mem_singleton.mp hline]

variable {w : World} {c : Coord}

/-- The cell that the symbol in a column of a row stands for. -/
def cell (x y : Nat) : Coord := ⟨Int32.ofNat x, Int32.ofNat y⟩

/-- The symbols of a row of the board. -/
def symbols (w : World) (y : Nat) : List Char :=
  (List.range w.grid.layout.width).map fun x => symbol w w.roster (cell x y)

/-- A row of symbols as it is printed, without the end of its line. -/
def line (y : Nat) (symbols : List Char) : List Char :=
  List.replicate (y % 2) ' ' ++ symbols.intersperse ' '

theorem row_eq (w : World) (y : Nat) : row w w.roster y = line y (symbols w y) ++ ['\n'] := by
  rcases Nat.mod_two_eq_zero_or_one y with heven | hodd
  · simp [row, line, symbols, cell, heven]
  · simp [row, line, symbols, cell, hodd]

theorem symbol_mem (w : World) (roster : List Actor) (c : Coord) :
    symbol w roster c ∈ ['@', 'E', '#', '*', '.'] := by
  simp only [symbol, tileSymbol]
  split
  · split <;> decide
  · split
    · split
      · decide
      · split <;> decide
    · decide

theorem count_line {s : Char} (h : s ≠ ' ') (y : Nat) (symbols : List Char) :
    (line y symbols).count s = symbols.count s := by
  rw [line, List.count_append, List.count_replicate, count_intersperse h, if_neg, Nat.zero_add]
  simpa using h.symm

theorem newline_notMem_line (w : World) (y : Nat) : '\n' ∉ line y (symbols w y) := by
  rw [← List.count_eq_zero, count_line (by decide), List.count_eq_zero, symbols, List.mem_map]
  rintro ⟨x, _, hx⟩
  have hsymbol := symbol_mem w w.roster (cell x y)
  rw [hx] at hsymbol
  revert hsymbol
  decide

theorem lines_mapText (w : World) : w.mapText.toList.splitOn '\n' =
    ((List.range w.grid.layout.height).map fun y => line y (symbols w y)) ++ [[]] := by
  have hlines : chars w = ((List.range w.grid.layout.height).map fun y =>
      line y (symbols w y)).flatMap (· ++ ['\n']) := by
    rw [chars, List.flatMap_map]
    exact List.flatMap_congr fun y _ => row_eq w y
  rw [World.mapText, String.toList_ofList, hlines, splitOn_lines]
  simp only [List.mem_map]
  rintro _ ⟨y, _, rfl⟩
  exact newline_notMem_line w y

/-! ### Counting -/

/-- The cells of a board in the order in which they are printed. -/
def cells (l : Layout) : List Coord :=
  (List.range l.height ×ˢ List.range l.width).map fun p => cell p.2 p.1

theorem cell_toInt {l : Layout} {x y : Nat} (hx : x < l.width) (hy : y < l.height) :
    (cell x y).x.toInt = x ∧ (cell x y).y.toInt = y := by
  have := l.width_bounds
  have := l.height_bounds
  exact ⟨Int32.toInt_ofNat_of_lt (by omega), Int32.toInt_ofNat_of_lt (by omega)⟩

theorem contains_cell {l : Layout} {x y : Nat} (hx : x < l.width) (hy : y < l.height) :
    l.contains (cell x y) = true := by
  obtain ⟨hcolumn, hrow⟩ := cell_toInt hx hy
  rw [Layout.contains_iff, hcolumn, hrow]
  omega

theorem mem_cells {l : Layout} : c ∈ cells l ↔ l.contains c = true := by
  simp only [cells, List.mem_map, List.mem_product, List.mem_range, Prod.exists]
  constructor
  · rintro ⟨y, x, ⟨hy, hx⟩, rfl⟩
    exact contains_cell hx hy
  · intro hc
    obtain ⟨_, _, _, _⟩ := Layout.contains_iff.mp hc
    have hx : c.x.toInt.toNat < l.width := by omega
    have hy : c.y.toInt.toNat < l.height := by omega
    obtain ⟨hcolumn, hrow⟩ := cell_toInt hx hy
    refine ⟨c.y.toInt.toNat, c.x.toInt.toNat, ⟨hy, hx⟩, ?_⟩
    cases h : cell c.x.toInt.toNat c.y.toInt.toNat
    rw [h] at hcolumn hrow
    obtain ⟨x, y⟩ := c
    rw [Coord.mk.injEq, ← Int32.toInt_inj, ← Int32.toInt_inj]
    dsimp only at *
    omega

theorem nodup_cells (l : Layout) : (cells l).Nodup := by
  refine List.Nodup.map_on ?_ (List.nodup_range.product List.nodup_range)
  rintro ⟨y, x⟩ hp ⟨y', x'⟩ hp' heq
  simp only [List.mem_product, List.mem_range] at hp hp'
  obtain ⟨hcolumn, hrow⟩ := cell_toInt hp.2 hp.1
  obtain ⟨hcolumn', hrow'⟩ := cell_toInt hp'.2 hp'.1
  dsimp only at heq
  rw [heq] at hcolumn hrow
  rw [Prod.mk.injEq]
  omega

/-- A symbol occurs in the map as often as among the cells of the board. -/
theorem count_mapText {s : Char} (hblank : s ≠ ' ') (hend : s ≠ '\n') (w : World) :
    w.mapText.toList.count s = (cells w.grid.layout).countP fun c => symbol w w.roster c == s := by
  have hrow : ∀ y, (row w w.roster y).count s =
      ((List.range w.grid.layout.width).map (cell · y)).countP (symbol w w.roster · == s) := by
    intro y
    rw [row_eq, List.count_append, count_line hblank, List.count_singleton, if_neg, symbols,
      List.count, List.countP_map, List.countP_map]
    · rfl
    · simpa using hend.symm
  have hcells : cells w.grid.layout = (List.range w.grid.layout.height).flatMap fun y =>
      (List.range w.grid.layout.width).map (cell · y) := by
    simp [cells, SProd.sprod, List.product, List.map_flatMap, Function.comp_def]
  rw [World.mapText, String.toList_ofList, chars, hcells, List.count_flatMap, List.countP_flatMap]
  exact congrArg List.sum (List.map_congr_left fun y _ => hrow y)

/-- If a symbol marks some cells of the board, it occurs once for each of them. -/
theorem count_marks {s : Char} {marked : List Coord} (hblank : s ≠ ' ') (hend : s ≠ '\n')
    (hnodup : marked.Nodup) (hin : ∀ c ∈ marked, w.grid.contains c = true)
    (h : ∀ c, w.grid.contains c = true → (symbol w w.roster c = s ↔ c ∈ marked)) :
    w.mapText.toList.count s = marked.length := by
  rw [count_mapText hblank hend, List.countP_eq_length_filter]
  refine List.Perm.length_eq ((List.perm_ext_iff_of_nodup ((nodup_cells _).filter _) hnodup).mpr ?_)
  intro c
  rw [List.mem_filter, mem_cells, beq_iff_eq]
  constructor
  · rintro ⟨hc, hs⟩
    exact (h c hc).mp hs
  · intro hc
    exact ⟨hin c hc, (h c (hin c hc)).mpr hc⟩

/-! ### Symbols -/

/-- What the symbol of a cell tells. -/
structure Tells (walls : List Coord) (w : World) (c : Coord) (s : Char) : Prop where
  player : s = '@' ↔ ∃ a ∈ w.actors, a.kind = .player ∧ a.coord = c
  other : s = 'E' ↔ ∃ a ∈ w.actors, a.kind = .npc ∧ a.coord = c
  wall : s = '#' ↔ c ∈ walls
  highlight : s = '*' ↔ w.grid.isObstacle c = false ∧ (∀ a ∈ w.actors, a.coord ≠ c) ∧
    w.grid.effect? c = some .moveable
  known : s ∈ ['@', 'E', '#', '*', '.']

end MapText

namespace World.Settled

variable {walls : List Coord} {w : World} {c : Coord} {a b : Actor}

theorem eq_of_coord (h : w.Settled walls) (ha : a ∈ w.actors) (hb : b ∈ w.actors)
    (heq : a.coord = b.coord) : a = b :=
  List.inj_on_of_nodup_map (List.nodup_append.mp h.nodup).2.1 ha hb heq

theorem coord_notMem_walls (h : w.Settled walls) (ha : a ∈ w.actors) : a.coord ∉ walls :=
  fun hwall => (List.nodup_append.mp h.nodup).2.2 _ hwall _ (List.mem_map_of_mem ha) rfl

/-- A cell on which an actor stands shows the actor. -/
theorem tells_actor (h : w.Settled walls) (ha : a ∈ w.actors) :
    MapText.Tells walls w a.coord (if a.kind = .player then '@' else 'E') := by
  have hall : ∀ kind, (∃ b ∈ w.actors, b.kind = kind ∧ b.coord = a.coord) ↔ a.kind = kind := by
    intro kind
    constructor
    · rintro ⟨b, hb, hkind, hcoord⟩
      rw [← h.eq_of_coord hb ha hcoord]
      exact hkind
    · exact fun hkind => ⟨a, ha, hkind, rfl⟩
  have hwall := h.coord_notMem_walls ha
  have htaken : ¬ ∀ b ∈ w.actors, b.coord ≠ a.coord := fun hfree => hfree a ha rfl
  cases hkind : a.kind <;> constructor <;> simp [hall, hkind, hwall, htaken]

/-- Any other cell of the board shows a wall or the tile. -/
theorem tells_tile (h : w.Settled walls) (hc : w.grid.contains c = true)
    (hfree : ∀ a ∈ w.actors, a.coord ≠ c) :
    MapText.Tells walls w c (MapText.tileSymbol w c) := by
  obtain ⟨t, ht⟩ := Grid.contains_iff_tileAt?.mp hc
  have hactors : ∀ kind, ¬ ∃ a ∈ w.actors, a.kind = kind ∧ a.coord = c :=
    fun _ ⟨a, ha, _, hcoord⟩ => hfree a ha hcoord
  have hwall : c ∈ walls ↔ t.isObstacle = true := by
    have hblocked := h.isObstacle hc
    simp only [Grid.isObstacle, ht] at hblocked
    rw [hblocked, taken, List.mem_append, List.mem_map, or_iff_left]
    rintro ⟨a, ha, hcoord⟩
    exact hfree a ha hcoord
  have hobstacle : w.grid.isObstacle c = t.isObstacle := by simp only [Grid.isObstacle, ht]
  have heffect : w.grid.effect? c = some t.effect := by rw [Grid.effect?, ht, Option.map_some]
  simp only [MapText.tileSymbol, ht]
  by_cases hblocked : t.isObstacle = true
  · constructor <;> simp [hblocked, hactors, hwall, hobstacle]
  · by_cases hmoveable : t.effect = .moveable
    · constructor <;> simp [hblocked, hactors, hwall, hobstacle, heffect, hmoveable]
      exact hfree
    · constructor <;> simp [hblocked, hactors, hwall, hobstacle, heffect, hmoveable]

theorem tells_symbol (h : w.Settled walls) (hroster : w.roster = w.actors)
    (hc : w.grid.contains c = true) :
    MapText.Tells walls w c (MapText.symbol w w.roster c) := by
  rw [hroster, MapText.symbol]
  cases hfind : w.actors.find? (·.coord = c) with
  | some a =>
    obtain rfl : a.coord = c := by simpa using List.find?_some hfind
    exact h.tells_actor (List.mem_of_find?_eq_some hfind)
  | none => exact h.tells_tile hc (by simpa using hfind)

/-- The cells of the actors of a kind. -/
theorem count_actors {s : Char} {kind : ActorKind} (h : w.Settled walls)
    (hblank : s ≠ ' ') (hend : s ≠ '\n')
    (hs : ∀ c, w.grid.contains c = true →
      (MapText.symbol w w.roster c = s ↔ ∃ a ∈ w.actors, a.kind = kind ∧ a.coord = c)) :
    w.mapText.toList.count s = (w.actors.map (·.kind)).count kind := by
  have hsome : ((w.actors.filter (·.kind = kind)).map (·.coord)).Sublist (taken walls w) :=
    (List.filter_sublist.map _).trans (List.sublist_append_right _ _)
  rw [MapText.count_marks hblank hend (h.nodup.sublist hsome) fun c hc => h.inside c (hsome.subset hc),
    List.length_map, ← List.countP_eq_length_filter, List.count, List.countP_map]
  · congr 1
  · intro c hc
    rw [hs c hc]
    simp [and_assoc]

end World.Settled

namespace Battle

variable {c : BattleConfig} {seed : UInt64} {b : Battle} {events : List Event}

/-- The printed map is faithful. In every world to which inputs lead from a setup, the map has as many
lines as the board has rows, each of them ended; each begins with one blank if the number of its row
is odd, and has as many symbols as the board has columns, with single blanks between them. The symbol
of a cell tells whether the player, another actor or a wall holds it, and of the free cells which are
highlighted. All through the battle the map shows the player once, and as many others and walls as the
setup has. -/
theorem map_faithful (h : create c seed = .ok (b, events)) (g : Generator)
    (inputs : List TurnInput) :
    let w := (({ b with generator := g } : Battle).play inputs).world
    let text := w.mapText.toList
    (∃ rows : List (List Char), rows.length = c.height ∧
      text.splitOn '\n' = rows.mapIdx (fun y symbols =>
        List.replicate (y % 2) ' ' ++ symbols.intersperse ' ') ++ [[]] ∧
      ∀ (y : Nat) (symbols : List Char), rows[y]? = some symbols → symbols.length = c.width ∧
        ∀ (x : Nat) (s : Char), symbols[x]? = some s →
          MapText.Tells c.obstacles w ⟨Int32.ofNat x, Int32.ofNat y⟩ s) ∧
      text.count '@' = 1 ∧ text.count 'E' = c.npcs.length ∧
      text.count '#' = c.obstacles.length := by
  intro w text
  obtain ⟨hlayout, hreached, hsettled, _⟩ := create_ok h
  have hroster : w.roster = w.actors :=
    (play_reached (b := { b with generator := g }) hreached inputs).sound.numbered.roster
  have hsettled : w.Settled c.obstacles :=
    play_settled (b := { b with generator := g }) hsettled inputs
  have hkinds : w.actors.map (·.kind) = .player :: List.replicate c.npcs.length .npc := by
    rw [← create_kinds h]
    exact play_kinds { b with generator := g } inputs
  have hsame : w.grid.layout = b.world.grid.layout :=
    (play_identities { b with generator := g } inputs).1
  obtain ⟨hwidth, hheight⟩ := Layout.create_ok hlayout
  rw [← hsame] at hwidth hheight
  have htells := fun t (ht : w.grid.contains t = true) => hsettled.tells_symbol hroster ht
  refine ⟨⟨(List.range c.height).map (MapText.symbols w), by simp, ?_, ?_⟩, ?_, ?_, ?_⟩
  · rw [MapText.lines_mapText, hheight]
    congr 1
    apply List.ext_getElem <;> simp [MapText.line]
  · intro y symbols hy
    obtain ⟨_, hrow, rfl⟩ := Option.map_eq_some_iff.mp (List.getElem?_map.symm.trans hy)
    obtain ⟨hlt, rfl⟩ := List.getElem?_eq_some_iff.mp hrow
    rw [List.length_range] at hlt
    refine ⟨by simp [MapText.symbols, hwidth], fun x s hx => ?_⟩
    obtain ⟨_, hcolumn, rfl⟩ := Option.map_eq_some_iff.mp (List.getElem?_map.symm.trans hx)
    obtain ⟨hlt', rfl⟩ := List.getElem?_eq_some_iff.mp hcolumn
    rw [List.length_range] at hlt'
    rw [List.getElem_range, List.getElem_range]
    exact htells _ (MapText.contains_cell hlt' (hheight ▸ hlt))
  · rw [hsettled.count_actors (by decide) (by decide) fun t ht => (htells t ht).player, hkinds]
    simp [List.count_replicate]
  · rw [hsettled.count_actors (by decide) (by decide) fun t ht => (htells t ht).other, hkinds]
    simp
  · exact MapText.count_marks (by decide) (by decide) (List.nodup_append.mp hsettled.nodup).1
      (fun t ht => hsettled.inside t (List.mem_append_left _ ht)) fun t ht => (htells t ht).wall

/-- After a round in which the player gives way and the others move, everyone is still on the map. -/
theorem map_faithful_narrows : create narrows 0 =
      .ok (narrowsBattle, ((World.vacant narrowsBoard).applyAll (setupCommands narrows)).2) ∧
    narrowsBattle.world.mapText = "@ E .\n . # E\n" ∧
    let text := (narrowsBattle.play [.advance, .advance, .advance, .attempt ⟨0, 1⟩ ⟨0, 1⟩, .endTurn,
      .advance, .advance]).world.mapText.toList
    text.count '@' = 1 ∧ text.count 'E' = 2 ∧ text.count '#' = 1 := by
  obtain ⟨_, hcounts⟩ := map_faithful create_narrows (.ofSeed 7) [.advance, .advance, .advance,
    .attempt ⟨0, 1⟩ ⟨0, 1⟩, .endTurn, .advance, .advance]
  exact ⟨create_narrows, by decide +kernel, hcounts⟩

end Battle

end HexSkirmish
