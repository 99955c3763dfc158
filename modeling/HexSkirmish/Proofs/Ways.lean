import HexSkirmish.Proofs.Routing

/-! Routes as the rules of the board have them. A way leads from a cell to a neighbouring one, to a
neighbour of that one, and so on, over tiles of the board that are free; the cell where it begins
may be blocked. The walks of the searches are the same ways by their numbers, so the route between
two cells is found if and only if there is a way, and no way is shorter. -/

namespace HexSkirmish.Grid

variable {g : Grid} {a b c : Coord} {s t u : Nat} {ts us : List Nat}

/-- Boards to which the operations on boards lead. Their edge tables may be stale. -/
inductive Reached : Grid → Prop
  | vacant (l : Layout) : Reached (vacant l)
  | setCost {g : Grid} (c : Coord) (cost : UInt16) : Reached g → Reached (g.setCost c cost)
  | rebuild {g : Grid} : Reached g → Reached g.rebuild
  | refresh {g : Grid} : Reached g → Reached g.refresh
  | setEffect {g : Grid} (c : Coord) (e : TileEffect) : Reached g → Reached (g.setEffect c e)
  | clearEffects {g : Grid} (e : TileEffect) : Reached g → Reached (g.clearEffects e)
  | highlight {g : Grid} (o : Coord) (budget : Nat) : Reached g → Reached (g.highlight o budget).1

theorem Reached.current (h : g.Reached) : g.Current := by
  induction h with
  | vacant l => exact vacant_current l
  | setCost c cost _ ih => exact setCost_current ih
  | rebuild _ _ => exact rebuild_current
  | refresh _ ih => exact refresh_current ih
  | setEffect c e _ ih => exact setEffect_current ih
  | clearEffects e _ ih => exact clearEffects_current ih
  | highlight o budget _ ih => exact highlight_current ih

/-- The tiles of a way from a cell, without the cell's own, and the cell where it ends. -/
inductive Way (g : Grid) : Coord → List Nat → Coord → Prop
  | here (a : Coord) : Way g a [] a
  | step {a c b : Coord} {t : Nat} {ts : List Nat} (beside : g.layout.Beside a c)
      (number : g.layout.index? c = some t) (free : g.isObstacle c = false)
      (rest : Way g c ts b) : Way g a (t :: ts) b

/-- A way than which no other is shorter. -/
def Shortest (g : Grid) (a : Coord) (ts : List Nat) (b : Coord) : Prop :=
  g.Way a ts b ∧ ∀ us, g.Way a us b → ts.length ≤ us.length

theorem Way.concat (h : g.Way a ts c) (hbeside : g.layout.Beside c b)
    (ht : g.layout.index? b = some t) (hfree : g.isObstacle b = false) :
    g.Way a (ts ++ [t]) b := by
  induction h with
  | here => exact .step hbeside ht hfree (.here b)
  | step hfirst hnumber hopen _ ih => exact .step hfirst hnumber hopen (ih hbeside)

/-! ### Ways and walks -/

theorem way_of_walk (h : g.Current) (hs : g.layout.index? a = some s)
    (hwalk : Walk (g.onward s) s ts t) (ht : g.layout.index? b = some t) : g.Way a ts b := by
  induction hwalk generalizing b with
  | here =>
    obtain rfl := Layout.index?_inj hs ht
    exact .here a
  | on _ hv ih =>
    obtain ⟨c, _, hc, _⟩ := beside_of_onward h hv
    obtain ⟨_, e, hbeside, he, hfree⟩ := (mem_onward_iff h hc).mp hv
    obtain rfl := Layout.index?_inj he ht
    exact (ih hc).concat hbeside he hfree

/-- A walk that has come to a cell which can be left goes on along any way from there. -/
theorem walk_append_way (h : g.Current) (hway : g.Way c ts b) (hwalk : Walk (g.onward s) s us u)
    (hc : g.layout.index? c = some u) (hleave : u = s ∨ g.isObstacle c = false)
    (ht : g.layout.index? b = some t) : Walk (g.onward s) s (us ++ ts) t := by
  induction hway generalizing us u with
  | here =>
    obtain rfl := Option.some.inj (hc.symm.trans ht)
    simpa using hwalk
  | @step c e b v ts hbeside hv hfree _ ih =>
    have hstep := hwalk.on ((mem_onward_iff h hc).mpr ⟨hleave, e, hbeside, hv, hfree⟩)
    simpa using ih hstep hv (.inr hfree) ht

theorem walk_iff_way (h : g.Current) (hs : g.layout.index? a = some s)
    (ht : g.layout.index? b = some t) : Walk (g.onward s) s ts t ↔ g.Way a ts b :=
  ⟨fun hwalk => way_of_walk h hs hwalk ht,
    fun hway => walk_append_way h hway .here hs (.inl rfl) ht⟩

/-! ### Routes -/

/-- Between two cells of the board the route is a shortest way, unless there is no way. -/
theorem route_ways (h : g.Current) (ha : g.contains a = true) (hb : g.contains b = true)
    (hne : a ≠ b) : (∃ ts, g.route a b = .found a b ts ∧ g.Shortest a ts b) ∨
      g.route a b = .missing a b ∧ ∀ ts, ¬ g.Way a ts b := by
  obtain ⟨s, hs⟩ := Layout.exists_index? ha
  obtain ⟨t, ht⟩ := Layout.exists_index? hb
  have hways : ∀ ts, Walk (g.onward s) s ts t ↔ g.Way a ts b := fun _ => walk_iff_way h hs ht
  have hspec := route_spec h hs ht hne
  simp only [hways] at hspec
  rcases hspec with ⟨ts, hroute, hway, _, hleast⟩ | hnone
  · exact .inl ⟨ts, hroute, hway, hleast⟩
  · exact .inr hnone

/-- There is no route from or to a place off the board. -/
theorem route_off_board (hne : a ≠ b) (h : ¬ (g.contains a = true ∧ g.contains b = true)) :
    g.route a b = .missing a b := by
  rw [contains, contains, ← Layout.index?_isSome, ← Layout.index?_isSome] at h
  simp only [route, if_neg hne]
  split
  · rename_i hs ht
    simp [hs, ht] at h
  · rfl

/-- The search for a route is sound, complete and shortest, on every board and whether or not its
edge table is stale. From one cell to another it finds a route if and only if both lie on the board
and there is a way; the tiles that it gives are such a way, and none is shorter. If there is none it
gives no tiles, and in any case it names the two cells that it was asked for. -/
theorem route_shortest (h : g.Reached) (hne : a ≠ b) :
    ((g.route a b).result = .found ↔
        g.contains a = true ∧ g.contains b = true ∧ ∃ ts, g.Way a ts b) ∧
      ((g.route a b).result = .found → g.Shortest a (g.route a b).tiles b) ∧
      ((g.route a b).result = .missing → (g.route a b).tiles = []) ∧
      (g.route a b).start = a ∧ (g.route a b).goal = b := by
  by_cases hin : g.contains a = true ∧ g.contains b = true
  · rcases route_ways h.current hin.1 hin.2 hne with ⟨ts, hroute, hshortest⟩ | ⟨hroute, hnone⟩
    · rw [hroute]
      exact ⟨⟨fun _ => ⟨hin.1, hin.2, ts, hshortest.1⟩, fun _ => rfl⟩, fun _ => hshortest, nofun,
        rfl, rfl⟩
    · rw [hroute]
      exact ⟨⟨nofun, fun ⟨_, _, ts, hway⟩ => absurd hway (hnone ts)⟩, nofun, fun _ => rfl, rfl, rfl⟩
  · rw [route_off_board hne hin]
    exact ⟨⟨nofun, fun ⟨ha, hb, _⟩ => absurd ⟨ha, hb⟩ hin⟩, nofun, fun _ => rfl, rfl, rfl⟩

/-- A wall beside a cell that is itself blocked. The edge table does not show them yet. -/
def walled : Grid :=
  ((vacant .standard).setCost ⟨0, 0⟩ Tile.blockedCost).setCost ⟨1, 0⟩ Tile.blockedCost

theorem walled_reached : walled.Reached := .setCost _ _ (.setCost _ _ (.vacant .standard))

/-- The way around the wall has three tiles, and no way is shorter. -/
theorem route_shortest_walled : walled.Reached ∧ (⟨0, 0⟩ : Coord) ≠ ⟨2, 0⟩ ∧
    walled.stale = true ∧ walled.isObstacle ⟨0, 0⟩ = true ∧
    walled.Shortest ⟨0, 0⟩ [8, 9, 2] ⟨2, 0⟩ := by
  have hne : (⟨0, 0⟩ : Coord) ≠ ⟨2, 0⟩ := by decide
  have hroute : walled.route ⟨0, 0⟩ ⟨2, 0⟩ = .found ⟨0, 0⟩ ⟨2, 0⟩ [8, 9, 2] := by decide +kernel
  obtain ⟨_, hshortest, _⟩ := route_shortest walled_reached hne
  rw [hroute] at hshortest
  exact ⟨walled_reached, hne, by decide +kernel, by decide +kernel, hshortest rfl⟩

end HexSkirmish.Grid
