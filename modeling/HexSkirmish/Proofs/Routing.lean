import HexSkirmish.Proofs.DistanceFields
import HexSkirmish.Proofs.Edges
import HexSkirmish.Proofs.ShortestRoutes

/-! Routes, flow fields and the movement highlight of a board, in terms of walks. All three depend
on the layout and the costs alone, so they see through a stale edge table, and the highlight marks the
tiles whose number in the flow field lies between one and the budget. -/

namespace HexSkirmish

namespace Route

variable {a b : Coord} {ts : List Nat}

@[simp] theorem isFound_found : (found a b ts).isFound = true := rfl

@[simp] theorem isFound_missing : (missing a b).isFound = false := rfl

@[simp] theorem length_found : (found a b ts).length = ts.length := rfl

end Route

namespace Grid

variable {g g' : Grid} {a b c o : Coord} {s t budget : Nat}

/-! ### Routes -/

theorem route_congr (hl : g'.layout = g.layout) (he : g'.currentEdges = g.currentEdges) :
    g'.route a b = g.route a b := by
  simp only [route, hl, he]

theorem route_refresh : g.refresh.route a b = g.route a b :=
  route_congr refresh_layout refresh_currentEdges

theorem route_self : g.route a a = .found a a [] := by simp [route]

/-- Between two cells of the board the search decides whether there is a walk and finds a shortest
one. -/
theorem route_spec (h : g.Current) (hs : g.layout.index? a = some s)
    (ht : g.layout.index? b = some t) (hne : a ≠ b) :
    (∃ ts, g.route a b = .found a b ts ∧ Walk (g.onward s) s ts t ∧
      ts.length < g.layout.tileCount ∧ ∀ us, Walk (g.onward s) s us t → ts.length ≤ us.length) ∨
    g.route a b = .missing a b ∧ ∀ us, ¬ Walk (g.onward s) s us t := by
  have hsize := Layout.index?_lt hs
  have hbound := onward_lt h s
  simp only [route, if_neg hne, hs, ht]
  cases hr : RouteSearch.tiles? (g.currentEdges.onward s) g.layout.tileCount s t with
  | some ts => exact .inl ⟨ts, rfl, RouteSearch.tiles?_some hsize hbound hr⟩
  | none => exact .inr ⟨rfl, RouteSearch.tiles?_none hsize hbound hr⟩

/-- What is known of a route that was found and goes anywhere. -/
theorem route_walk (h : g.Current) (hf : (g.route a b).isFound = true) (hne : a ≠ b) :
    ∃ s t ts, g.layout.index? a = some s ∧ g.layout.index? b = some t ∧ s ≠ t ∧
      g.route a b = .found a b ts ∧ Walk (g.onward s) s ts t ∧
      ts.length < g.layout.tileCount := by
  have hends : ∃ s t, g.layout.index? a = some s ∧ g.layout.index? b = some t := by
    simp only [route, if_neg hne] at hf
    split at hf
    · exact ⟨_, _, by assumption, by assumption⟩
    · cases hf
  obtain ⟨s, t, hs, ht⟩ := hends
  rcases route_spec h hs ht hne with ⟨ts, hr, hw, hlt, _⟩ | ⟨hr, _⟩
  · exact ⟨s, t, ts, hs, ht, fun e => hne (Layout.index?_inj (e ▸ hs) ht), hr, hw, hlt⟩
  · simp [hr] at hf

/-- The goal of a route that goes anywhere is free. -/
theorem isObstacle_of_route (h : g.Current) (hf : (g.route a b).isFound = true) (hne : a ≠ b) :
    g.isObstacle b = false := by
  obtain ⟨s, t, ts, _, ht, hst, _, hw, _⟩ := route_walk h hf hne
  exact isObstacle_of_walk h hw hst.symm ht

theorem route_length_pos (h : g.Current) (hf : (g.route a b).isFound = true) (hne : a ≠ b) :
    0 < (g.route a b).length := by
  obtain ⟨s, t, ts, _, _, hst, hr, hw, _⟩ := route_walk h hf hne
  simpa [hr] using hw.length_pos hst.symm

/-- A route visits no tile twice, so it is shorter than the board is large. -/
theorem route_length_lt (h : g.Current) (hf : (g.route a b).isFound = true) (hne : a ≠ b) :
    (g.route a b).length < g.layout.tileCount := by
  obtain ⟨s, t, ts, _, _, _, hr, _, hlt⟩ := route_walk h hf hne
  simpa [hr] using hlt

/-- A free neighbour is one step away. -/
theorem route_neighbor {d : Direction} (h : g.Current) (ha : g.contains a = true)
    (hn : g.layout.neighbor? a d = some b) (hfree : g.isObstacle b = false) :
    ∃ t, g.route a b = .found a b [t] := by
  obtain ⟨s, hs⟩ := Layout.exists_index? ha
  obtain ⟨t, ht⟩ := Layout.exists_index? (Layout.neighbor?_contains hn)
  have hne : a ≠ b := (Layout.neighbor?_ne hn).symm
  have hstep : Walk (g.onward s) s [t] t :=
    .step ((mem_onward_origin h hs).mpr ⟨d, b, hn, ht, hfree⟩)
  rcases route_spec h hs ht hne with ⟨ts, hr, hw, _, hleast⟩ | ⟨_, hnone⟩
  · have hpos := hw.length_pos fun e => hne (Layout.index?_inj hs (e ▸ ht))
    have hle := hleast _ hstep
    rw [List.length_singleton] at hle
    obtain ⟨u, rfl⟩ := List.length_eq_one_iff.mp (by omega : ts.length = 1)
    exact ⟨u, hr⟩
  · exact absurd hstep (hnone _)

/-! ### Flow fields -/

theorem flow_congr (hl : g'.layout = g.layout) (he : g'.currentEdges = g.currentEdges) :
    g'.flow o = g.flow o := by
  simp only [flow, flowOver, hl, he]

theorem flow_refresh : g.refresh.flow o = g.flow o := flow_congr refresh_layout refresh_currentEdges

@[simp] theorem flow_size : (g.flow o).size = g.layout.tileCount := by
  simp only [flow, flowOver]
  split <;> simp

/-- The number of steps from one cell to another that the flow field of the first one shows. -/
def steps (g : Grid) (o c : Coord) : Nat := g.distanceIn c (g.flow o)

theorem getElem?_flow {i : Nat} (hi : g.layout.index? c = some i) :
    (g.flow o)[i]? = some (g.steps o c) := by
  have hlt : i < (g.flow o).size := flow_size ▸ Layout.index?_lt hi
  simp only [steps, distanceIn, hi, Option.bind_some, Array.getElem?_eq_getElem hlt,
    Option.getD_some]

theorem steps_congr (hl : g'.layout = g.layout) (he : g'.currentEdges = g.currentEdges) :
    g'.steps o c = g.steps o c := by
  simp only [steps, flow_congr hl he, distanceIn, hl]

theorem steps_spec (h : g.Current) (hs : g.layout.index? o = some s)
    (ht : g.layout.index? c = some t) :
    (∃ ts, Walk (g.onward s) s ts t ∧ ts.length < unreachable ∧ g.steps o c = ts.length ∧
      ∀ us, Walk (g.onward s) s us t → ts.length ≤ us.length) ∨
    g.steps o c = unreachable ∧ ∀ us, Walk (g.onward s) s us t → unreachable ≤ us.length := by
  have hfield := FlowSearch.field_spec (show 0 < unreachable by decide) (Layout.index?_lt hs)
    (onward_lt h s) (Layout.index?_lt ht)
  have hflow : g.flow o = FlowSearch.field (g.onward s) unreachable g.layout.tileCount s := by
    simp only [flow, flowOver, hs, onward]
  simp only [steps, distanceIn, ht, Option.bind_some, hflow]
  rcases hfield with ⟨ts, hw, hlt, hv, hleast⟩ | ⟨hv, hnone⟩
  · exact .inl ⟨ts, hw, hlt, by rw [hv]; rfl, hleast⟩
  · exact .inr ⟨by rw [hv]; rfl, hnone⟩

theorem steps_off_origin (h : g.contains o = false) : g.steps o c = unreachable := by
  have hnone : g.layout.index? o = none := by
    rw [← Option.not_isSome_iff_eq_none, Layout.index?_isSome]
    exact Bool.eq_false_iff.mp h
  simp only [steps, distanceIn, flow, flowOver, hnone]
  cases g.layout.index? c with
  | none => rfl
  | some i =>
    simp only [Option.bind_some, Array.getElem?_replicate]
    split <;> rfl

theorem steps_le_unreachable (h : g.Current) (hc : g.contains c = true) :
    g.steps o c ≤ unreachable := by
  by_cases ho : g.contains o = true
  · obtain ⟨s, hs⟩ := Layout.exists_index? ho
    obtain ⟨t, ht⟩ := Layout.exists_index? hc
    rcases steps_spec h hs ht with ⟨ts, _, hlt, hsteps, _⟩ | ⟨hsteps, _⟩
    · exact hsteps ▸ Nat.le_of_lt hlt
    · exact Nat.le_of_eq hsteps
  · exact Nat.le_of_eq (steps_off_origin (Bool.eq_false_iff.mpr ho))

/-- As long as the flow field can hold a number of steps, it agrees with the search for a route on
whether a cell can be reached in so many. -/
theorem steps_le_iff_route (h : g.Current) (hc : g.contains c = true) (hne : o ≠ c) {n : Nat}
    (hn : n < unreachable) :
    g.steps o c ≤ n ↔ (g.route o c).isFound = true ∧ (g.route o c).length ≤ n := by
  obtain ⟨t, ht⟩ := Layout.exists_index? hc
  by_cases ho : g.contains o = true
  · obtain ⟨s, hs⟩ := Layout.exists_index? ho
    rcases route_spec h hs ht hne with ⟨ts, hr, hw, _, hleast⟩ | ⟨hr, hnone⟩ <;>
      rcases steps_spec h hs ht with ⟨us, hw', hlt, hv, hleast'⟩ | ⟨hv, hnone'⟩
    · have := hleast us hw'
      have := hleast' ts hw
      simp [hr, hv, show us.length = ts.length by omega]
    · have := hnone' ts hw
      simp only [hr, hv, Route.isFound_found, Route.length_found, true_and]
      omega
    · exact absurd hw' (hnone us)
    · simp only [hr, hv, Route.isFound_missing, Bool.false_eq_true, false_and, iff_false]
      omega
  · rw [steps_off_origin (Bool.eq_false_iff.mpr ho)]
    constructor
    · omega
    · rintro ⟨hf, _⟩
      obtain ⟨_, _, _, hs, _⟩ := route_walk h hf hne
      exact absurd (Layout.contains_of_index? hs) ho

/-- The number of steps is the length of the route, if it can be held. -/
theorem steps_eq_length (h : g.Current) (hc : g.contains c = true) (hne : o ≠ c)
    (hf : (g.route o c).isFound = true) (hlt : (g.route o c).length < unreachable) :
    g.steps o c = (g.route o c).length := by
  have hle := (steps_le_iff_route h hc hne hlt).mpr ⟨hf, Nat.le_refl _⟩
  have hge := (steps_le_iff_route h hc hne (Nat.lt_of_le_of_lt hle hlt)).mp (Nat.le_refl _)
  exact Nat.le_antisymm hle hge.2

/-- A cell without a route shows the mark of the unreachable ones. -/
theorem unreachable_le_steps (h : g.Current) (hc : g.contains c = true)
    (hmissing : (g.route o c).isFound = false) : unreachable ≤ g.steps o c := by
  have hne : o ≠ c := by
    rintro rfl
    simp [route_self] at hmissing
  refine Nat.le_of_pred_lt (Nat.lt_of_not_le fun hle => ?_)
  have hroute := (steps_le_iff_route h hc hne (Nat.pred_lt (by decide))).mp hle
  simp [hmissing] at hroute

theorem steps_self (h : g.Current) (hc : g.contains c = true) : g.steps c c = 0 := by
  obtain ⟨s, hs⟩ := Layout.exists_index? hc
  rcases steps_spec h hs hs with ⟨ts, _, _, hv, hleast⟩ | ⟨_, hnone⟩
  · have := hleast [] .here
    rw [hv]
    simpa using this
  · exact absurd (hnone [] .here) (by decide)

/-- Only the origin is no step away. -/
theorem steps_pos_iff (h : g.Current) (hc : g.contains c = true) : 1 ≤ g.steps o c ↔ c ≠ o := by
  constructor
  · rintro hpos rfl
    rw [steps_self h hc] at hpos
    cases hpos
  · intro hne
    by_contra hzero
    have hroute := (steps_le_iff_route h hc hne.symm (n := 0) (by decide)).mp (by omega)
    have := route_length_pos h hroute.1 hne.symm
    omega

/-- Both searches agree on which cells of the board are from one to `n` steps away. -/
theorem within_iff_route (h : g.Current) (ho : g.contains o = true) (hc : g.contains c = true)
    {n : Nat} (hn : n < unreachable) : 1 ≤ g.steps o c ∧ g.steps o c ≤ n ↔
      (g.route o c).isFound = true ∧ 0 < (g.route o c).length ∧ (g.route o c).length ≤ n := by
  by_cases hne : o = c
  · subst hne
    simp [steps_self h ho, route_self]
  · have haway : 1 ≤ g.steps o c := (steps_pos_iff h hc).mpr (Ne.symm hne)
    rw [steps_le_iff_route h hc hne hn]
    constructor
    · rintro ⟨_, hf, hle⟩
      exact ⟨hf, route_length_pos h hf hne, hle⟩
    · rintro ⟨hf, _, hle⟩
      exact ⟨haway, hf, hle⟩

/-! ### The movement highlight -/

@[simp] theorem highlight_layout : (g.highlight o budget).1.layout = g.layout := refresh_layout

theorem flowOver_refresh : g.refresh.flowOver g.refresh.edges o = g.flow o := by
  simp only [flowOver, refresh_layout, flow, currentEdges_refresh]

theorem withinBudget_flow {i : Nat} (hi : g.layout.index? c = some i) :
    withinBudget (g.flow o) budget i =
      (decide (1 ≤ g.steps o c) && decide (g.steps o c ≤ budget)) := by
  simp only [withinBudget, getElem?_flow hi]

theorem tileAt?_highlight : (g.highlight o budget).1.tileAt? c =
    ((g.refresh.clearEffects .moveable).tileAt? c).map fun t =>
      if 1 ≤ g.steps o c ∧ g.steps o c ≤ budget then { t with effect := .moveable } else t := by
  have hl : (g.highlight o budget).1.layout = g.layout := highlight_layout
  cases hi : g.layout.index? c with
  | none => simp [tileAt?, hi]
  | some i =>
    rw [tileAt?_of_index? (by rw [hl, hi]), tileAt?_of_index? (by simpa using hi)]
    simp only [highlight, flowOver_refresh, Array.getElem?_mapIdx, withinBudget_flow hi,
      Bool.and_eq_true, decide_eq_true_eq]

theorem cost?_highlight : (g.highlight o budget).1.cost? c = g.cost? c := by
  have hclear := cost?_clearEffects (g := g.refresh) (c := c) .moveable
  rw [cost?_refresh] at hclear
  rw [← hclear, cost?, tileAt?_highlight, cost?, Option.map_map]
  congr 1
  funext t
  simp only [Function.comp_apply]
  split <;> rfl

theorem highlight_current (h : g.Current) : (g.highlight o budget).1.Current :=
  (refresh_current h).of_costs rfl rfl rfl fun c => by rw [cost?_highlight, cost?_refresh]

/-- A highlight does not change the distances that it shows. -/
theorem steps_highlight (h : g.Current) {a b : Coord} :
    (g.highlight o budget).1.steps a b = g.steps a b :=
  steps_congr highlight_layout (currentEdges_of_costs h (highlight_current h) highlight_layout
    fun _ => cost?_highlight)

/-- The movement highlight replaces whatever a tile within the budget carries, and elsewhere goes out
alone. -/
theorem effect?_highlight_eq : (g.highlight o budget).1.effect? c = (g.effect? c).map fun e =>
    if 1 ≤ g.steps o c ∧ g.steps o c ≤ budget then .moveable
    else if e = .moveable then .plain else e := by
  rw [effect?, tileAt?_highlight, tileAt?_clearEffects, tileAt?_refresh, effect?]
  simp only [Option.map_map]
  congr 1
  funext t
  simp only [Function.comp_apply]
  split
  · rfl
  · split <;> rfl

/-- The highlight marks exactly the cells from one to `budget` steps away. -/
theorem effect?_highlight (hc : g.contains c = true) :
    (g.highlight o budget).1.effect? c = some .moveable ↔
      1 ≤ g.steps o c ∧ g.steps o c ≤ budget := by
  obtain ⟨t, ht⟩ := contains_iff_tileAt?.mp hc
  rw [effect?_highlight_eq, effect?, ht]
  by_cases hwithin : 1 ≤ g.steps o c ∧ g.steps o c ≤ budget
  · simp [hwithin]
  · by_cases hmarked : t.effect = .moveable <;> simp [hwithin, hmarked]

end Grid

end HexSkirmish
