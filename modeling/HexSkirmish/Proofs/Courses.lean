import HexSkirmish.Proofs.Precedence
import HexSkirmish.Proofs.Ways

/-! Ways read as sequences of directions. Different directions lead to different cells, so that
every way has one reading. The directions of a step are the digits by which a search tries the steps,
and among readings of one length the numeral decides as the lexicographic order does. Hence of
several shortest ways the search finds the one that turns first to the direction that comes first. -/

namespace HexSkirmish

namespace Direction

theorem index_lt (d : Direction) : d.index < 6 := by cases d <;> decide

theorem ofIndex_index (d : Direction) : ofIndex d.index = d := by cases d <;> rfl

theorem index_inj {d e : Direction} (h : d.index = e.index) : d = e := by
  rw [← ofIndex_index d, h, ofIndex_index]

theorem offset_inj {odd : Bool} {d e : Direction} (h : d.offset odd = e.offset odd) : d = e := by
  cases odd <;> cases d <;> cases e <;> simp_all [offset]

theorem all_ascending : all.Pairwise fun d e => d.index < e.index := by decide

/-- Where two sequences part, the first one takes the direction with the smaller index. -/
def Earlier (ds es : List Direction) : Prop := List.Lex (· < ·) (ds.map index) (es.map index)

/-- The numeral to which the directions extend another one. -/
def numeralFrom (n : Nat) (ds : List Direction) : Nat :=
  ds.foldl (fun n d => appendDigit n d.index) n

@[simp] theorem numeralFrom_nil (n : Nat) : numeralFrom n [] = n := rfl

@[simp] theorem numeralFrom_cons (n : Nat) (d : Direction) (ds : List Direction) :
    numeralFrom n (d :: ds) = numeralFrom (appendDigit n d.index) ds := rfl

@[simp] theorem numeralFrom_concat (n : Nat) (ds : List Direction) (d : Direction) :
    numeralFrom n (ds ++ [d]) = appendDigit (numeralFrom n ds) d.index := by
  simp [numeralFrom]

/-- Digits that come later do not make up for an earlier difference. -/
theorem numeralFrom_lt {m n : Nat} {ds es : List Direction} (h : m < n)
    (hlen : ds.length = es.length) : numeralFrom m ds < numeralFrom n es := by
  induction ds generalizing m n es with
  | nil =>
    obtain rfl := List.length_eq_zero_iff.mp hlen.symm
    exact h
  | cons d ds ih =>
    cases es with
    | nil => cases hlen
    | cons e es =>
      rw [numeralFrom_cons, numeralFrom_cons]
      exact ih (appendDigit_lt h d.index_lt) (by simpa using hlen)

theorem eq_or_earlier {n : Nat} {ds es : List Direction} (hlen : ds.length = es.length)
    (h : numeralFrom n ds ≤ numeralFrom n es) : es = ds ∨ Earlier ds es := by
  induction ds generalizing n es with
  | nil => exact .inl (List.length_eq_zero_iff.mp hlen.symm)
  | cons d ds ih =>
    cases es with
    | nil => cases hlen
    | cons e es =>
      have hlen' : ds.length = es.length := by simpa using hlen
      rcases Nat.lt_trichotomy d.index e.index with hlt | heq | hgt
      · exact .inr (.rel hlt)
      · obtain rfl := index_inj heq
        rcases ih hlen' h with rfl | hearlier
        · exact .inl rfl
        · exact .inr (.cons hearlier)
      · have := numeralFrom_lt (appendDigit_lt_of_digit (n := n) hgt) hlen'.symm
        simp only [numeralFrom_cons] at h
        omega

end Direction

theorem Layout.direction_unique {l : Layout} {c e : Coord} {d d' : Direction}
    (h : l.neighbor? c d = some e) (h' : l.neighbor? c d' = some e) : d = d' := by
  simp only [neighbor?, Option.filter_eq_some_iff] at h h'
  obtain ⟨hx, hy⟩ := Coord.ofInts?_toInt h.1
  obtain ⟨hx', hy'⟩ := Coord.ofInts?_toInt h'.1
  have hoffset : d.offset c.isOddRow = d'.offset c.isOddRow := Prod.ext (by omega) (by omega)
  exact Direction.offset_inj hoffset

namespace EdgeTable

variable {l : Layout} {tiles : Array Tile} {i j o : Nat} {d : Direction}

/-- The index of the direction from a tile to one beside it. -/
def heading (l : Layout) (i j : Nat) : Nat :=
  Direction.all.findIdx fun d => decide (adjacent? l i d = some j)

theorem heading_eq (h : adjacent? l i d = some j) : heading l i j = d.index := by
  have hunique : ∀ d', adjacent? l i d' = some j ↔ d' = d := by
    intro d'
    constructor
    · intro h'
      obtain ⟨c, hc⟩ := Layout.exists_coordAt? (adjacent?_lt h).1
      have hi := Layout.index?_of_coordAt? hc
      obtain ⟨e, hn, he⟩ := (adjacent?_iff hi).mp h
      obtain ⟨e', hn', he'⟩ := (adjacent?_iff hi).mp h'
      obtain rfl := Layout.index?_inj he he'
      exact Layout.direction_unique hn' hn
    · rintro rfl
      exact h
  simp only [heading, hunique]
  cases d <;> rfl

theorem exits_ascending :
    ((build l tiles).exits i).Pairwise fun j k => heading l i j < heading l i k := by
  by_cases hi : i < tiles.size
  · have hslots : (build l tiles).slots[i]? = some (slotsOf l tiles i) := by simp [build, hi]
    simp only [exits, hslots, Option.getD_some, slotsOf, List.filterMap_map]
    refine Direction.all_ascending.filterMap _ fun d e hlt j hj k hk => ?_
    simp only [Function.comp_apply, id, Option.filter_eq_some_iff] at hj hk
    rwa [heading_eq hj.1, heading_eq hk.1]
  · have hslots : (build l tiles).slots[i]? = none := by simp [build, hi]
    simp [exits, hslots]

theorem onward_ascending :
    ((build l tiles).onward o i).Pairwise fun j k => heading l i j < heading l i k := by
  simp only [onward, neighbors]
  split
  · exact exits_ascending
  · split
    · exact exits_ascending
    · exact .nil

end EdgeTable

namespace Grid

variable {g : Grid} {a b c e : Coord} {s t u n : Nat} {ts us : List Nat} {ds es : List Direction}

theorem onward_graded (h : g.Current) (s : Nat) :
    Graded (g.onward s) (EdgeTable.heading g.layout) := by
  rw [onward, currentEdges_eq h]
  refine ⟨fun u v hv => ?_, fun u => EdgeTable.onward_ascending⟩
  obtain ⟨_, d, hd, _⟩ := (EdgeTable.mem_onward_build g.size_eq).mp hv
  rw [EdgeTable.heading_eq hd]
  exact d.index_lt

/-- A way from a cell, read as its directions: these, the tiles, and the cell where it ends. -/
inductive Course (g : Grid) : Coord → List Direction → List Nat → Coord → Prop
  | here (a : Coord) : Course g a [] [] a
  | step {a c b : Coord} {d : Direction} {ds : List Direction} {t : Nat} {ts : List Nat}
      (neighbor : g.layout.neighbor? a d = some c) (number : g.layout.index? c = some t)
      (free : g.isObstacle c = false) (rest : Course g c ds ts b) :
      Course g a (d :: ds) (t :: ts) b

theorem Course.concat {d : Direction} (h : g.Course a ds ts c)
    (hneighbor : g.layout.neighbor? c d = some b) (ht : g.layout.index? b = some t)
    (hfree : g.isObstacle b = false) : g.Course a (ds ++ [d]) (ts ++ [t]) b := by
  induction h with
  | here => exact .step hneighbor ht hfree (.here b)
  | step hfirst hnumber hopen _ ih => exact .step hfirst hnumber hopen (ih hneighbor)

theorem Course.way (h : g.Course a ds ts b) : g.Way a ts b := by
  induction h with
  | here => exact .here _
  | step hneighbor hnumber hfree _ ih => exact .step ⟨_, hneighbor⟩ hnumber hfree ih

theorem Course.length_eq (h : g.Course a ds ts b) : ds.length = ts.length := by
  induction h with
  | here => rfl
  | step _ _ _ _ ih => simp [ih]

/-- A way has one reading. -/
theorem Course.unique (h : g.Course a ds ts b) (h' : g.Course a es ts c) : es = ds := by
  induction h generalizing es with
  | here =>
    cases h'
    rfl
  | step hneighbor hnumber _ _ ih =>
    cases h' with
    | step hneighbor' hnumber' _ hrest' =>
      obtain rfl := Layout.index?_inj hnumber hnumber'
      rw [Layout.direction_unique hneighbor' hneighbor, ih hrest']

/-! ### Courses and treks -/

/-- The digit of a step in a direction is the index of the direction. -/
theorem heading_neighbor {d : Direction} (hc : g.layout.index? c = some u)
    (hn : g.layout.neighbor? c d = some e) (he : g.layout.index? e = some t) :
    EdgeTable.heading g.layout u t = d.index :=
  EdgeTable.heading_eq ((EdgeTable.adjacent?_iff hc).mpr ⟨e, hn, he⟩)

theorem course_of_trek (h : g.Current) (hs : g.layout.index? a = some s)
    (htrek : Trek (g.onward s) (EdgeTable.heading g.layout) s ts n t)
    (ht : g.layout.index? b = some t) :
    ∃ ds, g.Course a ds ts b ∧ Direction.numeralFrom 0 ds = n := by
  induction htrek generalizing b with
  | here =>
    obtain rfl := Layout.index?_inj hs ht
    exact ⟨[], .here a, rfl⟩
  | on _ hv ih =>
    obtain ⟨c, _, hc, _⟩ := beside_of_onward h hv
    obtain ⟨_, e, ⟨d, hn⟩, he, hfree⟩ := (mem_onward_iff h hc).mp hv
    obtain rfl := Layout.index?_inj he ht
    obtain ⟨ds, hcourse, hnumeral⟩ := ih hc
    exact ⟨ds ++ [d], hcourse.concat hn he hfree, by
      rw [Direction.numeralFrom_concat, hnumeral, heading_neighbor hc hn he]⟩

/-- A trek that has come to a cell which can be left goes on along any course from there. -/
theorem trek_append_course (h : g.Current) (hcourse : g.Course c ds ts b)
    (htrek : Trek (g.onward s) (EdgeTable.heading g.layout) s us n u)
    (hc : g.layout.index? c = some u) (hleave : u = s ∨ g.isObstacle c = false)
    (ht : g.layout.index? b = some t) :
    Trek (g.onward s) (EdgeTable.heading g.layout) s (us ++ ts) (Direction.numeralFrom n ds) t := by
  induction hcourse generalizing us u n with
  | here =>
    obtain rfl := Option.some.inj (hc.symm.trans ht)
    simpa using htrek
  | @step c e b d ds v ts hn hv hfree _ ih =>
    have hstep := htrek.on ((mem_onward_iff h hc).mpr ⟨hleave, e, ⟨d, hn⟩, hv, hfree⟩)
    rw [heading_neighbor hc hn hv] at hstep
    simpa using ih hstep hv (.inr hfree) ht

/-! ### Routes -/

theorem route_eq_search (hs : g.layout.index? a = some s) (ht : g.layout.index? b = some t)
    (hne : a ≠ b) : g.route a b =
      match RouteSearch.tiles? (g.onward s) g.layout.tileCount s t with
      | some ts => .found a b ts
      | none => .missing a b := by
  simp only [route, if_neg hne, hs, ht]
  rfl

/-- The route that is found between two cells is a shortest way, and of all shortest ways it has the
first reading in lexicographic order: where another one parts from it, that one takes a direction
with a greater index. -/
theorem route_lex_first (h : g.Reached) (hne : a ≠ b) (hfound : (g.route a b).result = .found) :
    g.Shortest a (g.route a b).tiles b ∧
      ∃ ds, (∀ es, g.Course a es (g.route a b).tiles b ↔ es = ds) ∧
        ∀ us es, g.Shortest a us b → g.Course a es us b → es = ds ∨ Direction.Earlier ds es := by
  obtain ⟨s, t, _, hs, ht, _⟩ := route_walk h.current (by simp [Route.isFound, hfound]) hne
  have hsize := Layout.index?_lt hs
  have hbound := onward_lt h.current s
  cases hsearch : RouteSearch.tiles? (g.onward s) g.layout.tileCount s t with
  | none =>
    rw [route_eq_search hs ht hne, hsearch] at hfound
    cases hfound
  | some ts =>
    have hroute : g.route a b = .found a b ts := by rw [route_eq_search hs ht hne, hsearch]
    obtain ⟨hwalk, _, hshort⟩ := RouteSearch.tiles?_some hsize hbound hsearch
    obtain ⟨_, htrek, hleast⟩ :=
      RouteSearch.tiles?_least (onward_graded h.current s) hsize hbound hsearch
    have hshortest : g.Shortest a ts b := ⟨(walk_iff_way h.current hs ht).mp hwalk,
      fun us hus => hshort us ((walk_iff_way h.current hs ht).mpr hus)⟩
    obtain ⟨ds, hcourse, rfl⟩ := course_of_trek h.current hs htrek ht
    rw [hroute]
    refine ⟨hshortest, ds, fun es => ⟨hcourse.unique, fun e => e ▸ hcourse⟩, ?_⟩
    intro us es hus hes
    have hlen : ds.length = es.length := by
      rw [hcourse.length_eq, hes.length_eq]
      exact Nat.le_antisymm (hshortest.2 us hus.1) (hus.2 ts hshortest.1)
    have htrek' := trek_append_course h.current hes .here hs (.inl rfl) ht
    exact Direction.eq_or_earlier hlen (hleast _ _ htrek')

/-- Two ways lead around the wall in three steps. -/
theorem walled_course : walled.Course ⟨0, 0⟩ [.southEast, .east, .southEast] [8, 9, 18] ⟨2, 2⟩ ∧
    walled.Course ⟨0, 0⟩ [.southEast, .southEast, .east] [8, 17, 18] ⟨2, 2⟩ := by
  constructor
  · refine .step (c := ⟨0, 1⟩) (by decide +kernel) (by decide +kernel) (by decide +kernel) ?_
    refine .step (c := ⟨1, 1⟩) (by decide +kernel) (by decide +kernel) (by decide +kernel) ?_
    exact .step (by decide +kernel) (by decide +kernel) (by decide +kernel) (.here _)
  · refine .step (c := ⟨0, 1⟩) (by decide +kernel) (by decide +kernel) (by decide +kernel) ?_
    refine .step (c := ⟨1, 2⟩) (by decide +kernel) (by decide +kernel) (by decide +kernel) ?_
    exact .step (by decide +kernel) (by decide +kernel) (by decide +kernel) (.here _)

/-- The route is the one that goes east first. -/
theorem route_lex_first_walled : walled.Reached ∧ (⟨0, 0⟩ : Coord) ≠ ⟨2, 2⟩ ∧
    (walled.route ⟨0, 0⟩ ⟨2, 2⟩).result = .found ∧
    walled.Course ⟨0, 0⟩ [.southEast, .east, .southEast] (walled.route ⟨0, 0⟩ ⟨2, 2⟩).tiles ⟨2, 2⟩ ∧
    Direction.Earlier [.southEast, .east, .southEast] [.southEast, .southEast, .east] := by
  have hne : (⟨0, 0⟩ : Coord) ≠ ⟨2, 2⟩ := by decide
  have hroute : walled.route ⟨0, 0⟩ ⟨2, 2⟩ = .found ⟨0, 0⟩ ⟨2, 2⟩ [8, 9, 18] := by decide +kernel
  have hfound : (walled.route ⟨0, 0⟩ ⟨2, 2⟩).result = .found := by rw [hroute]; rfl
  obtain ⟨hcourse, hother⟩ := walled_course
  obtain ⟨hshortest, ds, hread, hfirst⟩ := route_lex_first walled_reached hne hfound
  have htiles : (walled.route ⟨0, 0⟩ ⟨2, 2⟩).tiles = [8, 9, 18] := by rw [hroute]; rfl
  rw [htiles] at hshortest hread ⊢
  obtain rfl := (hread _).mp hcourse
  have hrival : walled.Shortest ⟨0, 0⟩ [8, 17, 18] ⟨2, 2⟩ := ⟨hother.way, hshortest.2⟩
  exact ⟨walled_reached, hne, hfound, hcourse, (hfirst _ _ hrival hother).resolve_left (by decide)⟩

end Grid

end HexSkirmish
