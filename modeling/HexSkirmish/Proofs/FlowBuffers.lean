import HexSkirmish.Proofs.Ways

/-! Flow fields written in place. The caller brings a buffer, which is refused and left as it was
unless it has one slot for each tile, and is otherwise overwritten: first with the limit, then by the
search. What it held before does not matter, and in the end its slots hold the distances over the
tiles as they are. -/

namespace HexSkirmish.Grid

variable {g : Grid} {o c : Coord} {i : Nat} {buffer : Array Nat}

/-- Writes the flow field into a buffer, and gives the buffer as it is afterwards. -/
def writeFlow (g : Grid) (origin : Coord) (buffer : Array Nat) :
    Except GridError Unit × Array Nat :=
  match g.checkSize buffer.size with
  | .error e => (.error e, buffer)
  | .ok () =>
    let cleared := buffer.map fun _ => unreachable
    match g.layout.index? origin with
    | none => (.ok (), cleared)
    | some o =>
      let search := FlowSearch.flood (g.currentEdges.onward o) unreachable g.layout.tileCount
        ⟨cleared.setIfInBounds o 0, [o]⟩
      (.ok (), search.distances)

/-- A buffer of the right size comes to hold the flow field that is made without one. -/
theorem writeFlow_eq : g.writeFlow o buffer =
    match g.flowInto o buffer with
    | .ok field => (.ok (), field)
    | .error e => (.error e, buffer) := by
  by_cases hsize : buffer.size = g.layout.tileCount
  · have hcheck : g.checkSize buffer.size = .ok () := by simp [checkSize, hsize]
    have hcleared : (buffer.map fun _ => unreachable) =
        Array.replicate g.layout.tileCount unreachable := by rw [Array.map_const', hsize]
    simp only [writeFlow, flowInto, hcheck, hcleared, Except.map, flow, flowOver]
    cases g.layout.index? o <;> rfl
  · simp [writeFlow, flowInto, checkSize, hsize, Except.map]

/-- From a cell of the board to another one the flow field holds the length of a shortest way. One
that is too long to be counted counts as none. -/
theorem steps_way (h : g.Current) (ho : g.contains o = true) (hc : g.contains c = true) :
    (∃ ts, g.Shortest o ts c ∧ ts.length < unreachable ∧ g.steps o c = ts.length) ∨
      g.steps o c = unreachable ∧ ∀ ts, g.Way o ts c → unreachable ≤ ts.length := by
  obtain ⟨s, hs⟩ := Layout.exists_index? ho
  obtain ⟨t, ht⟩ := Layout.exists_index? hc
  have hways : ∀ ts, Walk (g.onward s) s ts t ↔ g.Way o ts c := fun _ => walk_iff_way h hs ht
  have hspec := steps_spec h hs ht
  simp only [hways] at hspec
  rcases hspec with ⟨ts, hway, hlt, hsteps, hleast⟩ | hnone
  · exact .inl ⟨ts, ⟨hway, hleast⟩, hlt, hsteps⟩
  · exact .inr hnone

/-- The flow field is the map of exact distances, on every board and whether or not its edge table is
stale. A buffer with another number of slots than the board has tiles is refused with both numbers
and left as it was. Otherwise, and whatever it held before, each slot comes to hold the number of
steps to its tile: none for the origin, and for any other tile the length of a shortest way that
32 bits can tell from the mark of the unreachable ones. An origin off the board reaches nothing. -/
theorem flow_exact (h : g.Reached) (o : Coord) (buffer : Array Nat) :
    (buffer.size ≠ g.layout.tileCount → g.writeFlow o buffer =
      (.error (.flowFieldSize g.layout.tileCount buffer.size), buffer)) ∧
    (buffer.size = g.layout.tileCount → ∃ field, g.writeFlow o buffer = (.ok (), field) ∧
      field.size = g.layout.tileCount ∧
      (∀ i, g.layout.index? o = some i → field[i]? = some 0) ∧
      (g.contains o = true → ∀ c i, c ≠ o → g.layout.index? c = some i →
        (∃ ts, g.Shortest o ts c ∧ ts.length < 4294967295 ∧ field[i]? = some ts.length) ∨
          field[i]? = some 4294967295 ∧ ∀ ts, g.Way o ts c → 4294967295 ≤ ts.length) ∧
      (g.contains o = false → ∀ i < g.layout.tileCount, field[i]? = some 4294967295)) := by
  constructor
  · intro hsize
    simp [writeFlow, checkSize, hsize]
  · intro hsize
    refine ⟨g.flow o, ?_, flow_size, fun i hi => ?_, fun ho c i _ hi => ?_, fun ho i hi => ?_⟩
    · simp [writeFlow_eq, flowInto, checkSize, hsize, Except.map]
    · rw [getElem?_flow hi, steps_self h.current (Layout.contains_of_index? hi)]
    · rw [getElem?_flow hi]
      rcases steps_way h.current ho (Layout.contains_of_index? hi) with
        ⟨ts, hshortest, hlt, hsteps⟩ | ⟨hsteps, hnone⟩
      · exact .inl ⟨ts, hshortest, hlt, congrArg some hsteps⟩
      · exact .inr ⟨congrArg some hsteps, hnone⟩
    · obtain ⟨c, hc⟩ := Layout.exists_coordAt? hi
      rw [getElem?_flow (Layout.index?_of_coordAt? hc), steps_off_origin ho]
      rfl

theorem walled_way : walled.Way ⟨0, 0⟩ [8, 9, 2] ⟨2, 0⟩ := by
  refine .step (c := ⟨0, 1⟩) ⟨.southEast, by decide +kernel⟩ (by decide +kernel)
    (by decide +kernel) ?_
  refine .step (c := ⟨1, 1⟩) ⟨.east, by decide +kernel⟩ (by decide +kernel) (by decide +kernel) ?_
  exact .step (c := ⟨2, 0⟩) ⟨.northEast, by decide +kernel⟩ (by decide +kernel)
    (by decide +kernel) (.here _)

/-- Over the wall's stale table, a buffer full of nines comes to hold a way's length behind it. -/
theorem flow_exact_walled : walled.Reached ∧ ∃ field ts,
    walled.writeFlow ⟨0, 0⟩ (Array.replicate 64 9) = (.ok (), field) ∧ field[0]? = some 0 ∧
      walled.Shortest ⟨0, 0⟩ ts ⟨2, 0⟩ ∧ field[2]? = some ts.length := by
  obtain ⟨_, hfills⟩ := flow_exact walled_reached ⟨0, 0⟩ (Array.replicate 64 9)
  obtain ⟨field, hwritten, _, horigin, hslots, _⟩ := hfills (by decide +kernel)
  rcases hslots (by decide +kernel) ⟨2, 0⟩ 2 (by decide) (by decide +kernel) with
    ⟨ts, hshortest, _, hslot⟩ | ⟨_, hnone⟩
  · exact ⟨walled_reached, field, ts, hwritten, horigin 0 (by decide +kernel), hshortest, hslot⟩
  · exact absurd (hnone _ walled_way) (by decide)

end HexSkirmish.Grid
