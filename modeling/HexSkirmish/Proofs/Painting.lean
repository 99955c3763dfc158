import HexSkirmish.Proofs.Reach

/-! What it does to a board to paint the movement highlight. The cells within the budget are marked
and listed in the order of their numbers, the mark goes out on all others, and nothing else on the
board is different afterwards. To paint the same highlight again is to do nothing. -/

namespace HexSkirmish.Grid

variable {g : Grid} {o a c : Coord} {budget : Nat}

/-- The listed cells are those of the tiles within the budget. -/
theorem highlight_cells : (g.highlight o budget).2 =
    ((List.range g.layout.tileCount).filter (withinBudget (g.flow o) budget)).filterMap
      g.layout.coordAt? := by
  simp only [highlight, flowOver_refresh]

theorem highlight_stale : (g.highlight o budget).1.stale = false := refresh_stale

theorem highlight_ascending : (g.highlight o budget).2.Pairwise fun a b =>
    ∃ i j, g.layout.index? a = some i ∧ g.layout.index? b = some j ∧ i < j := by
  rw [highlight_cells, List.pairwise_filterMap]
  refine (List.pairwise_lt_range.filter _).imp fun {i j} hlt a ha b hb => ?_
  exact ⟨i, j, Layout.index?_of_coordAt? ha, Layout.index?_of_coordAt? hb, hlt⟩

/-- The cells that are listed are those that carry the mark. -/
theorem mem_highlight_iff_effect : c ∈ (g.highlight o budget).2 ↔
    (g.highlight o budget).1.effect? c = some .moveable := by
  rw [mem_highlight]
  by_cases hc : g.contains c = true
  · rw [effect?_highlight hc, and_iff_right hc]
  · have hnone := tileAt?_eq_none.mpr (Bool.eq_false_iff.mpr hc)
    rw [effect?_highlight_eq, effect?, hnone]
    simp [hc]

/-- A highlight does not change the flow fields. -/
theorem flow_highlight (h : g.Current) : (g.highlight o budget).1.flow a = g.flow a :=
  flow_congr highlight_layout (currentEdges_of_costs h (highlight_current h) highlight_layout
    fun _ => cost?_highlight)

/-- A table that is not stale is not changed by building it again. -/
theorem rebuild_of_fresh (h : g.Current) (hs : g.stale = false) : g.rebuild = g := by
  rw [← refresh_eq_rebuild h]
  simp [refresh, hs]

/-- A highlight that is painted a second time leaves everything as it was after the first. -/
theorem highlight_highlight (h : g.Current) :
    (g.highlight o budget).1.highlight o budget = g.highlight o budget := by
  have hcurrent : (g.highlight o budget).1.Current := highlight_current h
  apply Prod.ext
  · have htiles : ((g.highlight o budget).1.highlight o budget).1.tiles =
        (g.highlight o budget).1.tiles := by
      refine tiles_ext highlight_layout (fun _ => cost?_highlight) fun c => ?_
      rw [effect?_highlight_eq, effect?_highlight_eq, steps_highlight h, Option.map_map]
      congr 1
      funext e
      by_cases hwithin : 1 ≤ g.steps o c ∧ g.steps o c ≤ budget
      · simp [hwithin]
      · by_cases he : e = .moveable <;> simp [hwithin, he]
    calc ((g.highlight o budget).1.highlight o budget).1
        = ((g.highlight o budget).1.highlight o budget).1.rebuild :=
          (rebuild_of_fresh (highlight_current hcurrent) highlight_stale).symm
      _ = (g.highlight o budget).1.rebuild := rebuild_congr highlight_layout htiles
      _ = (g.highlight o budget).1 := rebuild_of_fresh hcurrent highlight_stale
  · rw [highlight_cells, highlight_cells, flow_highlight h, highlight_layout]

/-- Painting is exact. Whatever a board carries and whether or not its edge table is stale, after the
movement highlight was painted around a cell, on the board or off it, a tile is marked if and only if
its number in the cell's flow field lies between one and the budget. The marked cells are listed, in
the order of their numbers. On all other tiles an old mark goes out and any other highlight stays;
no cost changes; the edge table is that of the tiles; and the same highlight painted again gives the
same list and changes nothing. -/
theorem highlight_exact (h : g.Reached) (o : Coord) (budget : Nat) :
    let painted := (g.highlight o budget).1
    let listed := (g.highlight o budget).2
    painted.layout = g.layout ∧
      (∀ c i, g.layout.index? c = some i → (painted.effect? c = some .moveable ↔
        ∃ v, (g.flow o)[i]? = some v ∧ 1 ≤ v ∧ v ≤ budget)) ∧
      (∀ c, c ∈ listed ↔ painted.effect? c = some .moveable) ∧
      (listed.Pairwise fun a b =>
        ∃ i j, g.layout.index? a = some i ∧ g.layout.index? b = some j ∧ i < j) ∧
      (∀ c, painted.effect? c ≠ some .moveable →
        painted.effect? c = (g.effect? c).map fun e => if e = .moveable then .plain else e) ∧
      (∀ c, painted.cost? c = g.cost? c) ∧
      painted.stale = false ∧ painted.edges = .build painted.layout painted.tiles ∧
      painted.highlight o budget = (painted, listed) := by
  intro painted listed
  have hcurrent : painted.Current := highlight_current h.current
  refine ⟨highlight_layout, fun c i hi => ?_, fun c => mem_highlight_iff_effect,
    highlight_ascending, fun c hc => ?_, fun c => cost?_highlight, highlight_stale,
    hcurrent highlight_stale, highlight_highlight h.current⟩
  · rw [effect?_highlight (Layout.contains_of_index? hi), getElem?_flow hi]
    simp only [Option.some.injEq, exists_eq_left']
  · have heffect : painted.effect? c = _ := effect?_highlight_eq
    rw [heffect] at hc ⊢
    by_cases hwithin : 1 ≤ g.steps o c ∧ g.steps o c ≤ budget
    · -- On the board such a tile would be marked.
      cases hnone : g.effect? c with
      | none => rfl
      | some e => simp [hnone, hwithin] at hc
    · simp only [if_neg hwithin]

/-- A row with a stale edge table, another highlight in its middle and an old mark at its end. -/
def overpainted : Grid :=
  (((vacant strip).setCost ⟨2, 0⟩ 5).setEffect ⟨1, 0⟩ .attackable).setEffect ⟨2, 0⟩ .moveable

theorem overpainted_reached : overpainted.Reached :=
  .setEffect _ _ (.setEffect _ _ (.setCost _ _ (.vacant strip)))

/-- With a budget of one step the middle is marked, its other highlight replaced, and the old mark
goes out. -/
theorem highlight_exact_overpainted : overpainted.Reached ∧ overpainted.stale = true ∧
    overpainted.effect? ⟨1, 0⟩ = some .attackable ∧
    (overpainted.highlight ⟨0, 0⟩ 1).2 = [⟨1, 0⟩] ∧
    (overpainted.highlight ⟨0, 0⟩ 1).1.effect? ⟨1, 0⟩ = some .moveable ∧
    (overpainted.highlight ⟨0, 0⟩ 1).1.effect? ⟨2, 0⟩ = some .plain := by
  have hcells : (overpainted.highlight ⟨0, 0⟩ 1).2 = [⟨1, 0⟩] := by decide +kernel
  have hbefore : overpainted.effect? ⟨2, 0⟩ = some .moveable := by decide +kernel
  obtain ⟨_, _, hlisted, _, hothers, _⟩ := highlight_exact overpainted_reached ⟨0, 0⟩ 1
  have hmarked := (hlisted ⟨1, 0⟩).mp (by rw [hcells]; decide)
  have hunlisted : (⟨2, 0⟩ : Coord) ∉ (overpainted.highlight ⟨0, 0⟩ 1).2 := by
    rw [hcells]
    decide
  have hwiped := hothers ⟨2, 0⟩ fun h => hunlisted ((hlisted ⟨2, 0⟩).mpr h)
  rw [hbefore] at hwiped
  exact ⟨overpainted_reached, by decide +kernel, by decide +kernel, hcells, hmarked, hwiped⟩

end HexSkirmish.Grid
