import HexSkirmish.Proofs.Distances

/-! Routes there and back. A step in the opposite direction leads back, on even and on odd rows and
along the edges of a board, and so a way over free cells can be walked back in as many steps. The
searches begin at different ends and choose among the shortest ways in different orders; still they
agree on whether there is one and on how long it is. -/

namespace HexSkirmish

theorem Direction.stride_opposite (d : Direction) :
    d.opposite.stride = (-d.stride.1, -d.stride.2) := by
  cases d <;> rfl

/-- A cell is determined by its row and its column there. -/
theorem Coord.eq_of_column {c e : Coord} (hcolumn : c.column = e.column)
    (hrow : c.y.toInt = e.y.toInt) : c = e := by
  apply apart_eq_zero
  simp [apart, hcolumn, hrow]

namespace Layout

variable {l : Layout} {c e : Coord} {d : Direction}

/-- The step in the opposite direction leads back. -/
theorem neighbor?_opposite (hc : l.contains c = true) (h : l.neighbor? c d = some e) :
    l.neighbor? e d.opposite = some c := by
  obtain ⟨hcolumn, hrow⟩ := neighbor?_stride h
  obtain ⟨_, _, _, _⟩ := contains_iff.mp hc
  have hbackRow : e.y.toInt + d.opposite.stride.2 = c.y.toInt := by
    rw [Direction.stride_opposite]
    omega
  have hbackColumn : e.column + d.opposite.stride.1 = c.column := by
    rw [Direction.stride_opposite]
    omega
  have hback : ∃ f, l.neighbor? e d.opposite = some f := by
    apply exists_neighbor? <;> rw [hbackRow]
    · omega
    · rw [hbackColumn, Coord.column]
      omega
  obtain ⟨f, hf⟩ := hback
  obtain ⟨hcolumn', hrow'⟩ := neighbor?_stride hf
  rw [hf, Coord.eq_of_column (hcolumn'.trans hbackColumn) (hrow'.trans hbackRow)]

theorem Beside.symm (hc : l.contains c = true) (h : l.Beside c e) : l.Beside e c := by
  obtain ⟨d, hd⟩ := h
  exact ⟨d.opposite, neighbor?_opposite hc hd⟩

end Layout

namespace Grid

variable {g : Grid} {a b : Coord} {ts : List Nat}

/-- A way from a free cell can be walked back. -/
theorem Way.reverse (h : g.Way a ts b) (ha : g.isObstacle a = false) :
    ∃ us, g.Way b us a ∧ us.length = ts.length := by
  induction h with
  | here a => exact ⟨[], .here a, rfl⟩
  | @step a c b t ts hbeside _ hfree _ ih =>
    obtain ⟨us, hback, hlen⟩ := ih hfree
    have hin := contains_of_free ha
    obtain ⟨s, hs⟩ := Layout.exists_index? hin
    exact ⟨us ++ [s], hback.concat (hbeside.symm hin) hs ha, by simp [hlen]⟩

/-- Between free cells the shortest ways back are as long as those there. -/
theorem Shortest.reverse (h : g.Shortest a ts b) (ha : g.isObstacle a = false)
    (hb : g.isObstacle b = false) : ∃ us, g.Shortest b us a ∧ us.length = ts.length := by
  obtain ⟨us, hback, hlen⟩ := h.1.reverse ha
  refine ⟨us, ⟨hback, fun vs hvs => ?_⟩, hlen⟩
  obtain ⟨ws, hagain, hlen'⟩ := hvs.reverse hb
  have := h.2 ws hagain
  omega

theorem Shortest.length_unique {us : List Nat} (h : g.Shortest a ts b) (h' : g.Shortest a us b) :
    ts.length = us.length :=
  Nat.le_antisymm (h.2 us h'.1) (h'.2 ts h.1)

/-- The flow fields of two free cells show the same number for each other. -/
theorem steps_comm (h : g.Current) (ha : g.isObstacle a = false) (hb : g.isObstacle b = false) :
    g.steps a b = g.steps b a := by
  have hina := contains_of_free ha
  have hinb := contains_of_free hb
  rcases steps_way h hina hinb with ⟨ts, hthere, hlt, hsteps⟩ | ⟨hsteps, hlong⟩ <;>
    rcases steps_way h hinb hina with ⟨us, hback, hlt', hsteps'⟩ | ⟨hsteps', hlong'⟩
  · obtain ⟨vs, hshortest, hlen⟩ := hthere.reverse ha hb
    rw [hsteps, hsteps', ← hlen, hshortest.length_unique hback]
  · obtain ⟨vs, hway, hlen⟩ := hthere.1.reverse ha
    have := hlong' vs hway
    omega
  · obtain ⟨vs, hway, hlen⟩ := hback.1.reverse hb
    have := hlong vs hway
    omega
  · rw [hsteps, hsteps']

/-- Routes are reversible. On every board and whether or not its edge table is stale, two different
free cells (which lie on the board, as no place off it is free) either have routes to each other, which
are equally long, or no route in either direction. The flow field of each of them has a slot for the
other one, and the two slots hold the same number. -/
theorem routes_reversible (h : g.Reached) (hne : a ≠ b) (ha : g.isObstacle a = false)
    (hb : g.isObstacle b = false) :
    ((g.route a b).result = .found ↔ (g.route b a).result = .found) ∧
      ((g.route a b).result = .found → (g.route a b).length = (g.route b a).length) ∧
      ∃ s t n, g.layout.index? a = some s ∧ g.layout.index? b = some t ∧
        (g.flow a)[t]? = some n ∧ (g.flow b)[s]? = some n := by
  have hina := contains_of_free ha
  have hinb := contains_of_free hb
  obtain ⟨s, hs⟩ := Layout.exists_index? hina
  obtain ⟨t, ht⟩ := Layout.exists_index? hinb
  have hfields : ∃ s t n, g.layout.index? a = some s ∧ g.layout.index? b = some t ∧
      (g.flow a)[t]? = some n ∧ (g.flow b)[s]? = some n :=
    ⟨s, t, g.steps a b, hs, ht, getElem?_flow ht, by
      rw [getElem?_flow hs, steps_comm h.current ha hb]⟩
  rcases route_ways h.current hina hinb hne with ⟨ts, hthere, hshortest⟩ | ⟨hthere, hnone⟩ <;>
    rcases route_ways h.current hinb hina hne.symm with ⟨us, hback, hshortest'⟩ | ⟨hback, hnone'⟩
  · obtain ⟨vs, hreverse, hlen⟩ := hshortest.reverse ha hb
    rw [hthere, hback]
    exact ⟨⟨fun _ => rfl, fun _ => rfl⟩,
      fun _ => hlen.symm.trans (hreverse.length_unique hshortest'), hfields⟩
  · obtain ⟨vs, hway, _⟩ := hshortest.1.reverse ha
    exact absurd hway (hnone' vs)
  · obtain ⟨vs, hway, _⟩ := hshortest'.1.reverse hb
    exact absurd hway (hnone vs)
  · rw [hthere, hback]
    exact ⟨⟨nofun, nofun⟩, nofun, hfields⟩

/-- Past the wall the search goes over tile 10 there and over tile 2 back, three steps each way. -/
theorem routes_reversible_walled : walled.Reached ∧ (⟨0, 1⟩ : Coord) ≠ ⟨3, 0⟩ ∧
    walled.isObstacle ⟨0, 1⟩ = false ∧ walled.isObstacle ⟨3, 0⟩ = false ∧
    walled.route ⟨0, 1⟩ ⟨3, 0⟩ = .found ⟨0, 1⟩ ⟨3, 0⟩ [9, 10, 3] ∧
    walled.route ⟨3, 0⟩ ⟨0, 1⟩ = .found ⟨3, 0⟩ ⟨0, 1⟩ [2, 9, 8] ∧
    (walled.route ⟨0, 1⟩ ⟨3, 0⟩).length = (walled.route ⟨3, 0⟩ ⟨0, 1⟩).length ∧
    ∃ n, (walled.flow ⟨0, 1⟩)[3]? = some n ∧ (walled.flow ⟨3, 0⟩)[8]? = some n := by
  have hne : (⟨0, 1⟩ : Coord) ≠ ⟨3, 0⟩ := by decide
  have hstart : walled.isObstacle ⟨0, 1⟩ = false := by decide +kernel
  have hgoal : walled.isObstacle ⟨3, 0⟩ = false := by decide +kernel
  have hthere : walled.route ⟨0, 1⟩ ⟨3, 0⟩ = .found ⟨0, 1⟩ ⟨3, 0⟩ [9, 10, 3] := by decide +kernel
  have hback : walled.route ⟨3, 0⟩ ⟨0, 1⟩ = .found ⟨3, 0⟩ ⟨0, 1⟩ [2, 9, 8] := by decide +kernel
  obtain ⟨_, hlength, s, t, n, hs, ht, hthereField, hbackField⟩ :=
    routes_reversible walled_reached hne hstart hgoal
  obtain rfl : 8 = s := Option.some.inj (hs ▸ (by decide +kernel : some 8 = _))
  obtain rfl : 3 = t := Option.some.inj (ht ▸ (by decide +kernel : some 3 = _))
  refine ⟨walled_reached, hne, hstart, hgoal, hthere, hback, hlength ?_, n, hthereField, hbackField⟩
  rw [hthere]
  rfl

end Grid

end HexSkirmish
