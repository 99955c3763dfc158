import HexSkirmish.Proofs.FlowBuffers
import HexSkirmish.Proofs.Places

/-! The searches against the distance that is computed from two cells alone. On a plane with its
shifted rows set straight, no step changes the distance to a cell by more than one, so no way is
shorter than the distance. And a board has no dents: from every cell of it a step that stays on it
comes nearer to any other one. So where nothing stands between, a shortest way is just as long. -/

namespace HexSkirmish

namespace Coord

variable {a b c e : Coord} {d : Direction} {l : Layout}

/-- The greatest of the three cube differences, in numbers of any size. -/
def apart (a b : Coord) : Nat :=
  max (max (a.column - b.column).natAbs (a.y.toInt - b.y.toInt).natAbs)
    (a.column - b.column + (a.y.toInt - b.y.toInt)).natAbs

theorem apart_eq_place (a b : Coord) : a.apart b = a.place.apart b.place := rfl

theorem apart_le_iff {n : Nat} : a.apart b ≤ n ↔
    (a.column - b.column ≤ n ∧ b.column - a.column ≤ n) ∧
      (a.y.toInt - b.y.toInt ≤ n ∧ b.y.toInt - a.y.toInt ≤ n) ∧
      a.column - b.column + (a.y.toInt - b.y.toInt) ≤ n ∧
      b.column - a.column + (b.y.toInt - a.y.toInt) ≤ n :=
  Place.apart_le_iff (p := a.place) (q := b.place)

theorem offset_eq_stride (c : Coord) (d : Direction) : d.offset c.isOddRow =
    (d.stride.1 + (c.y.toInt + d.stride.2) / 2 - c.y.toInt / 2, d.stride.2) :=
  d.offset_row c.y.toInt

theorem distance_self (c : Coord) : c.distance c = 0 := by
  simp [distance]

theorem apart_eq_zero (h : a.apart b = 0) : a = b := by
  rw [apart_eq_place, Place.apart_eq_zero] at h
  exact place_inj.mp h

theorem toAxial_toInt (h : l.contains c = true) :
    c.toAxial.q.toInt = c.column ∧ c.toAxial.r.toInt = c.y.toInt := by
  obtain ⟨hx, hy, hw, hh⟩ := Layout.contains_iff.mp h
  have := l.width_bounds
  have := l.height_bounds
  refine ⟨Int32.toInt_ofIntClamp ?_ ?_, rfl⟩ <;>
    · simp only [Int32.toInt_minValue, Int32.toInt_maxValue]
      omega

theorem apart_lt (ha : l.contains a = true) (hb : l.contains b = true) : a.apart b < countMax := by
  obtain ⟨_, _, _, _⟩ := Layout.contains_iff.mp ha
  obtain ⟨_, _, _, _⟩ := Layout.contains_iff.mp hb
  have := l.width_bounds
  have := l.height_bounds
  refine Nat.lt_of_le_of_lt (m := 3221225470) (apart_le_iff.mpr ?_) (by decide)
  simp only [column]
  omega

/-- On a board the words are wide enough for every difference. -/
theorem distance_eq_apart (ha : l.contains a = true) (hb : l.contains b = true) :
    a.distance b = a.apart b := by
  have hlt := apart_lt ha hb
  obtain ⟨hqa, hra⟩ := toAxial_toInt ha
  obtain ⟨hqb, hrb⟩ := toAxial_toInt hb
  simp only [apart] at hlt ⊢
  simp only [distance, hqa, hra, hqb, hrb]
  omega

theorem ofInts?_of_toInt (c : Coord) : ofInts? c.x.toInt c.y.toInt = some c := by
  have := c.x.le_toInt
  have := c.x.toInt_lt
  have := c.y.le_toInt
  have := c.y.toInt_lt
  simp only [ofInts?, Int32.ofInt_toInt]
  rw [if_pos]
  simp only [Bool.and_eq_true, decide_eq_true_eq]
  omega

end Coord

namespace Layout

variable {l : Layout} {a b c e : Coord} {d : Direction}

/-- The neighbour on a board is where the step on a board without edges leads, if that is on the board. -/
theorem neighbor?_eq_some_iff : l.neighbor? c d = some e ↔
    l.contains e = true ∧ c.place.step d = e.place := by
  have hplace : c.place.step d =
      ⟨c.x.toInt + (d.offset c.isOddRow).1, c.y.toInt + (d.offset c.isOddRow).2⟩ := rfl
  rw [neighbor?, Option.filter_eq_some_iff, and_comm, hplace, Coord.place, Place.mk.injEq]
  refine and_congr_right fun _ => ⟨fun h => ?_, fun h => ?_⟩
  · obtain ⟨hx, hy⟩ := Coord.ofInts?_toInt h
    exact ⟨hx.symm, hy.symm⟩
  · obtain ⟨hx, hy⟩ := h
    rw [Coord.neighbor?, hx, hy, Coord.ofInts?_of_toInt]

theorem neighbor?_stride (h : l.neighbor? c d = some e) :
    e.column = c.column + d.stride.1 ∧ e.y.toInt = c.y.toInt + d.stride.2 := by
  simp only [neighbor?, Coord.neighbor?, Coord.offset_eq_stride, Option.filter_eq_some_iff] at h
  obtain ⟨hx, hy⟩ := Coord.ofInts?_toInt h.1
  refine ⟨?_, hy⟩
  simp only [Coord.column, hx, hy]
  omega

/-- A step that stays on the board can be taken. -/
theorem exists_neighbor? (l : Layout) (c : Coord) (d : Direction)
    (hrow : 0 ≤ c.y.toInt + d.stride.2 ∧ c.y.toInt + d.stride.2 < l.height)
    (hcolumn : 0 ≤ c.column + d.stride.1 + (c.y.toInt + d.stride.2) / 2 ∧
      c.column + d.stride.1 + (c.y.toInt + d.stride.2) / 2 < l.width) :
    ∃ e, l.neighbor? c d = some e := by
  have := l.width_bounds
  have := l.height_bounds
  simp only [Coord.column] at hcolumn
  have hfits : ∃ e, c.neighbor? d = some e := by
    simp only [Coord.neighbor?, Coord.offset_eq_stride, Coord.ofInts?]
    rw [if_pos]
    · exact ⟨_, rfl⟩
    · simp only [Bool.and_eq_true, decide_eq_true_eq]
      omega
  obtain ⟨e, he⟩ := hfits
  refine ⟨e, ?_⟩
  rw [neighbor?, he, Option.filter_some, if_pos]
  simp only [Coord.neighbor?, Coord.offset_eq_stride] at he
  obtain ⟨hx, hy⟩ := Coord.ofInts?_toInt he
  rw [contains_iff, hx, hy]
  omega

/-- A step lowers the distance to a cell by at most one. -/
theorem apart_step (b : Coord) (h : l.neighbor? c d = some e) : c.apart b ≤ e.apart b + 1 := by
  have hbounds := Coord.apart_le_iff.mp (Nat.le_refl (e.apart b))
  obtain ⟨hcolumn, hrow⟩ := neighbor?_stride h
  rw [Coord.apart_le_iff]
  cases d <;> simp only [Direction.stride] at hcolumn hrow <;> omega

/-- A step leads nearer if it stays on the board and leaves less of each cube difference. -/
theorem exists_nearer_of_stride (d : Direction)
    (hrow : 0 ≤ c.y.toInt + d.stride.2 ∧ c.y.toInt + d.stride.2 < l.height)
    (hcolumn : 0 ≤ c.column + d.stride.1 + (c.y.toInt + d.stride.2) / 2 ∧
      c.column + d.stride.1 + (c.y.toInt + d.stride.2) / 2 < l.width)
    (hq : (c.column + d.stride.1 - b.column).natAbs < c.apart b)
    (hr : (c.y.toInt + d.stride.2 - b.y.toInt).natAbs < c.apart b)
    (hs : (c.column + d.stride.1 - b.column + (c.y.toInt + d.stride.2 - b.y.toInt)).natAbs <
      c.apart b) : ∃ e, l.Beside c e ∧ e.apart b + 1 = c.apart b := by
  obtain ⟨e, he⟩ := l.exists_neighbor? c d hrow hcolumn
  have hstep := apart_step b he
  have hnear : e.apart b < c.apart b := by
    obtain ⟨hcolumn', hrow'⟩ := neighbor?_stride he
    rw [← hcolumn', ← hrow'] at hs
    rw [← hcolumn'] at hq
    rw [← hrow'] at hr
    simp only [Coord.apart, Nat.max_lt] at hq hr hs ⊢
    exact ⟨⟨hq, hr⟩, hs⟩
  exact ⟨e, ⟨d, he⟩, by omega⟩

/-- From every cell of a board a step that stays on it comes nearer to any other one. Where the step
to the side would lead over the edge, the row is shifted so that the other step is as good. -/
theorem exists_nearer (hc : l.contains c = true) (hb : l.contains b = true) (hne : c ≠ b) :
    ∃ e, l.Beside c e ∧ e.apart b + 1 = c.apart b := by
  have hfar : ¬ c.apart b ≤ 0 := fun h => hne (Coord.apart_eq_zero (Nat.le_zero.mp h))
  have hbounds := Coord.apart_le_iff.mp (Nat.le_refl (c.apart b))
  obtain ⟨_, _, _, _⟩ := contains_iff.mp hc
  obtain ⟨_, _, _, _⟩ := contains_iff.mp hb
  have hstep := exists_nearer_of_stride (l := l) (c := c) (b := b)
  rcases Int.lt_trichotomy c.y.toInt b.y.toInt with below | level | above
  · by_cases hside : c.column ≤ b.column ∨ c.column - 1 + (c.y.toInt + 1) / 2 < 0
    · apply hstep .southEast <;> simp only [Direction.stride, Coord.column] at * <;> omega
    · apply hstep .southWest <;> simp only [Direction.stride, Coord.column] at * <;> omega
  · rw [Coord.apart_le_iff] at hfar
    simp only [Coord.column, level] at hfar hbounds
    by_cases hside : c.x.toInt < b.x.toInt
    · apply hstep .east <;> simp only [Direction.stride, Coord.column, level] <;> omega
    · apply hstep .west <;> simp only [Direction.stride, Coord.column, level] <;> omega
  · by_cases hside : b.column ≤ c.column ∨ l.width ≤ c.column + 1 + (c.y.toInt - 1) / 2
    · apply hstep .northWest <;> simp only [Direction.stride, Coord.column] at * <;> omega
    · apply hstep .northEast <;> simp only [Direction.stride, Coord.column] at * <;> omega

end Layout

namespace Grid

variable {g : Grid} {a b c : Coord} {ts : List Nat}

/-- A way is at least as long as its ends are apart. -/
theorem Way.apart_le (h : g.Way a ts b) : a.apart b ≤ ts.length := by
  induction h with
  | here => simp [Coord.apart]
  | @step a c b _ _ hbeside _ _ _ ih =>
    obtain ⟨d, hn⟩ := hbeside
    have hstep := Layout.apart_step b hn
    simp only [List.length_cons]
    omega

/-- If nothing stands between a cell and another one, a way leads there without a detour. -/
theorem exists_direct_way (hc : g.contains c = true) (hb : g.contains b = true)
    (hfree : ∀ e, g.contains e = true → e.apart b < c.apart b → g.isObstacle e = false) :
    ∃ ts, g.Way c ts b ∧ ts.length = c.apart b := by
  -- The way is built from its first step, and the distance that is left decreases.
  induction hn : c.apart b generalizing c with
  | zero =>
    obtain rfl := Coord.apart_eq_zero hn
    exact ⟨[], .here c, rfl⟩
  | succ n ih =>
    have hne : c ≠ b := by
      rintro rfl
      simp [Coord.apart] at hn
    obtain ⟨e, hbeside, hnear⟩ := Layout.exists_nearer hc hb hne
    obtain ⟨d, hneighbor⟩ := hbeside
    have he : g.contains e = true := Layout.neighbor?_contains hneighbor
    obtain ⟨t, ht⟩ := Layout.exists_index? he
    obtain ⟨ts, hway, hlen⟩ :=
      ih he (fun f hf hlt => hfree f hf (by omega)) (by omega)
    exact ⟨t :: ts, .step ⟨d, hneighbor⟩ ht (hfree e he (by omega)) hway, by simp [hlen]⟩

/-- A shortest way has no detour if some way has none. -/
theorem Shortest.length_eq {us : List Nat} (h : g.Shortest a ts b) (hus : g.Way a us b)
    (hlen : us.length = a.apart b) : ts.length = a.apart b := by
  have := h.2 us hus
  have := h.1.apart_le
  omega

/-- The searches agree with the distance that is computed from the two cells. On every board a
route is at least as long as the distance. If no tile is blocked but the one where the search starts,
there is a route from it to every other cell; its length is the distance, and so is the number that
the flow field holds there. -/
theorem route_distance (h : g.Reached) :
    (∀ a b, (g.route a b).result = .found → a.distance b ≤ (g.route a b).length) ∧
      ∀ a b, g.contains a = true → g.contains b = true → a ≠ b →
        (∀ c, g.contains c = true → c ≠ a → g.isObstacle c = false) →
        (g.route a b).result = .found ∧ (g.route a b).length = a.distance b ∧
          ∀ i, g.layout.index? b = some i → (g.flow a)[i]? = some (a.distance b) := by
  refine ⟨fun a b hfound => ?_, fun a b ha hb hne hfree => ?_⟩
  · by_cases hne : a = b
    · subst hne
      simp [Coord.distance_self]
    · by_cases hin : g.contains a = true ∧ g.contains b = true
      · rcases route_ways h.current hin.1 hin.2 hne with ⟨ts, hroute, hshortest⟩ | ⟨hroute, _⟩
        · rw [hroute, Coord.distance_eq_apart hin.1 hin.2]
          exact hshortest.1.apart_le
        · rw [hroute] at hfound
          cases hfound
      · rw [route_off_board hne hin] at hfound
        cases hfound
  · rw [Coord.distance_eq_apart ha hb]
    obtain ⟨us, hus, hlen⟩ := exists_direct_way ha hb fun e he hlt =>
      hfree e he fun heq => by simp [heq] at hlt
    rcases route_ways h.current ha hb hne with ⟨ts, hroute, hshortest⟩ | ⟨_, hnone⟩
    · rw [hroute]
      refine ⟨rfl, hshortest.length_eq hus hlen, fun i hi => ?_⟩
      rw [getElem?_flow hi]
      rcases steps_way h.current ha hb with ⟨vs, hshortest', _, hsteps⟩ | ⟨_, hlong⟩
      · rw [hsteps, hshortest'.length_eq hus hlen]
      · have hlt : us.length < unreachable :=
          Nat.lt_of_le_of_lt (Nat.le_of_eq hlen) (Coord.apart_lt ha hb)
        exact absurd (hlong us hus) (Nat.not_le.mpr hlt)
    · exact absurd hus (hnone us)

/-- A board on which only the corner is blocked. -/
def cornered : Grid := (vacant .standard).setCost ⟨0, 0⟩ Tile.blockedCost

theorem cornered_free {c : Coord} (hc : cornered.contains c = true) (hne : c ≠ ⟨0, 0⟩) :
    cornered.isObstacle c = false := by
  have hin : Layout.standard.contains c = true := by simpa [cornered, contains] using hc
  rw [isObstacle_eq_false_iff, cornered, cost?_setCost, if_neg hne, cost?_vacant hin]
  exact ⟨_, rfl, by decide⟩

/-- From the blocked corner it is five steps to the fourth column of the fifth row. -/
theorem route_distance_cornered : cornered.Reached ∧ cornered.isObstacle ⟨0, 0⟩ = true ∧
    (⟨0, 0⟩ : Coord).distance ⟨3, 4⟩ = 5 ∧ (cornered.route ⟨0, 0⟩ ⟨3, 4⟩).result = .found ∧
    (cornered.route ⟨0, 0⟩ ⟨3, 4⟩).length = 5 ∧ (cornered.flow ⟨0, 0⟩)[35]? = some 5 := by
  have hreached : cornered.Reached := .setCost _ _ (.vacant _)
  have hdistance : (⟨0, 0⟩ : Coord).distance ⟨3, 4⟩ = 5 := by decide +kernel
  obtain ⟨_, hopen⟩ := route_distance hreached
  obtain ⟨hfound, hlength, hflow⟩ := hopen ⟨0, 0⟩ ⟨3, 4⟩ (by decide +kernel) (by decide +kernel)
    (by decide) fun c => cornered_free
  have hcorner : cornered.isObstacle ⟨0, 0⟩ = true := by decide +kernel
  exact ⟨hreached, hcorner, hdistance, hfound, hlength.trans hdistance,
    (hflow 35 (by decide +kernel)).trans (congrArg some hdistance)⟩

end Grid

end HexSkirmish
