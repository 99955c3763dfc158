import HexSkirmish.Proofs.FlowBuffers

/-! How far a movement highlight reaches. It lists the cells whose number in the flow field lies
between one and the budget, and the number of a cell that cannot be reached is the greatest that a
slot holds. Below that number a budget gives the cells that have a route within it. A budget that is
equal to it gives every cell but the origin, reached or not. -/

namespace HexSkirmish.Grid

variable {g : Grid} {o c : Coord} {budget : Nat}

/-- The list of a highlight holds the cells that it paints. -/
theorem mem_highlight : c ∈ (g.highlight o budget).2 ↔
    g.contains c = true ∧ 1 ≤ g.steps o c ∧ g.steps o c ≤ budget := by
  simp only [highlight, flowOver_refresh, List.mem_filterMap, List.mem_filter, List.mem_range]
  constructor
  · rintro ⟨i, ⟨_, hwithin⟩, hci⟩
    have hi := Layout.index?_of_coordAt? hci
    rw [withinBudget_flow hi, Bool.and_eq_true, decide_eq_true_eq, decide_eq_true_eq] at hwithin
    exact ⟨Layout.contains_of_index? hi, hwithin⟩
  · rintro ⟨hc, hwithin⟩
    obtain ⟨i, hi⟩ := Layout.exists_index? hc
    refine ⟨i, ⟨Layout.index?_lt hi, ?_⟩, Layout.coordAt?_of_index? hi⟩
    rwa [withinBudget_flow hi, Bool.and_eq_true, decide_eq_true_eq, decide_eq_true_eq]

/-- What a highlight reaches. With any budget below the mark of the unreachable cells, and from an
origin on the board or off it, it lists exactly the cells to which a route of at least one step and
of at most so many as the budget leads. With the mark itself for a budget it lists all cells but the
origin, those without a route included. -/
theorem mem_highlight_iff (h : g.Reached) (o : Coord) (budget : Nat) :
    (budget < 4294967295 → ∀ c, c ∈ (g.highlight o budget).2 ↔
      g.contains c = true ∧ (g.route o c).isFound = true ∧
        1 ≤ (g.route o c).length ∧ (g.route o c).length ≤ budget) ∧
    (budget = 4294967295 → ∀ c, c ∈ (g.highlight o budget).2 ↔ g.contains c = true ∧ c ≠ o) := by
  refine ⟨fun hbudget c => ?_, fun hbudget c => ?_⟩
  · rw [mem_highlight, and_congr_right_iff]
    intro hc
    by_cases ho : g.contains o = true
    · exact within_iff_route h.current ho hc hbudget
    · have hne : o ≠ c := fun heq => ho (heq ▸ hc)
      have hoff := steps_off_origin (c := c) (Bool.eq_false_iff.mpr ho)
      rw [hoff, route_off_board hne fun hin => ho hin.1]
      simp only [Route.isFound_missing, Bool.false_eq_true, false_and, iff_false, not_and]
      exact fun _ => Nat.not_le.mpr hbudget
  · rw [mem_highlight, and_congr_right_iff]
    intro hc
    rw [steps_pos_iff h.current hc, and_iff_left_iff_imp]
    exact fun _ => hbudget ▸ steps_le_unreachable h.current hc

/-- A row of three tiles. -/
def strip : Layout := (Layout.create 3 1 ⟨0x3f800000⟩).toOption.getD .standard

/-- A row whose middle tile is a wall. -/
def parted : Grid := (vacant strip).setCost ⟨1, 0⟩ Tile.blockedCost

theorem parted_reached : parted.Reached := .setCost _ _ (.vacant strip)

/-- From one end nothing can be reached, and one step less than the mark gives nothing either; the
mark itself gives the wall and the other end. -/
theorem mem_highlight_iff_parted : parted.Reached ∧
    ⟨2, 0⟩ ∉ (parted.highlight ⟨0, 0⟩ 4294967294).2 ∧
    ⟨1, 0⟩ ∈ (parted.highlight ⟨0, 0⟩ 4294967295).2 := by
  obtain ⟨hbelow, _⟩ := mem_highlight_iff parted_reached ⟨0, 0⟩ 4294967294
  obtain ⟨_, hmark⟩ := mem_highlight_iff parted_reached ⟨0, 0⟩ 4294967295
  have hmissing : (parted.route ⟨0, 0⟩ ⟨2, 0⟩).isFound = false := by decide +kernel
  refine ⟨parted_reached, ?_, (hmark rfl ⟨1, 0⟩).mpr ⟨by decide +kernel, by decide⟩⟩
  rw [hbelow (by decide)]
  simp [hmissing]

/-- A highlight whose budget is the mark lists a wall, to which there is no route. -/
theorem unreachable_highlighted : parted.Reached ∧
    ⟨1, 0⟩ ∈ (parted.highlight ⟨0, 0⟩ 4294967295).2 ∧
    parted.route ⟨0, 0⟩ ⟨1, 0⟩ = .missing ⟨0, 0⟩ ⟨1, 0⟩ :=
  ⟨parted_reached, by decide +kernel, by decide +kernel⟩

end HexSkirmish.Grid
