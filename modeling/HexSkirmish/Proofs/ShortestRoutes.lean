import HexSkirmish.Grid.RouteSearch
import HexSkirmish.Proofs.Frontier

/-! The search for a route is sound, complete and shortest: if it ends with a list of tiles, they
are a walk to the goal and no walk is shorter, and otherwise no walk leads there. The levels of the
frontier are not stored by this search; they accompany it in the proof only. -/

namespace HexSkirmish.RouteSearch

/-- The stored tiles are those of a frontier, each with a tile taken before it. -/
structure Remembers (onward : Nat → List Nat) (size o : Nat) (level : Nat → Nat)
    (done waiting : List Nat) (cameFrom : Array (Option Nat)) : Prop where
  new_iff : ∀ t, cameFrom[t]? = some none ↔ t < size ∧ t ∉ done ++ waiting
  via : ∀ t ∈ done ++ waiting, t ≠ o →
    ∃ p ∈ done, cameFrom[t]? = some (some p) ∧ t ∈ onward p ∧ level t = level p + 1

variable {onward : Nat → List Nat} {size o tile next : Nat} {level : Nat → Nat}
  {done waiting later : List Nat} {cameFrom : Array (Option Nat)}

theorem Remembers.mem_iff (h : Remembers onward size o level done waiting cameFrom)
    (hbelow : ∀ t ∈ done ++ waiting, t < size) (hsize : cameFrom.size = size) (t : Nat) :
    (cameFrom[t]?.join.isSome = true) ↔ t ∈ done ++ waiting := by
  have hn := h.new_iff t
  by_cases ht : t < size
  · have hlt : t < cameFrom.size := by omega
    rw [Array.getElem?_eq_getElem hlt] at hn ⊢
    cases hc : cameFrom[t] with
    | none => simpa [hc, ht] using hn
    | some p =>
      have : t ∈ done ++ waiting := by
        by_contra hm
        simp [hc, ht, hm] at hn
      simp [this]
  · have : t ∉ done ++ waiting := fun hm => ht (hbelow t hm)
    simp [Array.getElem?_eq_none (by omega : cameFrom.size ≤ t), this]

/-- What one turn does for one new neighbour. -/
theorem Remembers.reach (h : Remembers onward size o level done waiting cameFrom)
    (hm : tile ∈ done) (hv : next ∈ onward tile) (hnew : cameFrom[next]? = some none) :
    Remembers onward size o (raise level tile next) done
      (waiting ++ [next]) (cameFrom.setIfInBounds next (some tile)) := by
  obtain ⟨hlt, hnm⟩ := (h.new_iff next).mp hnew
  have hne : ∀ p ∈ done, p ≠ next := fun p hp e => hnm (List.mem_append_left _ (e ▸ hp))
  have hin : next < cameFrom.size := (Array.getElem?_eq_some_iff.mp hnew).1
  refine ⟨?_, ?_⟩
  · intro t
    rw [← List.append_assoc, List.mem_append, List.mem_singleton, Array.getElem?_setIfInBounds]
    by_cases ht : next = t
    · simp [ht, ht ▸ hin]
    · have hn := h.new_iff t
      rw [if_neg ht, hn]
      simp [Ne.symm ht]
  · intro t ht hto
    rw [← List.append_assoc, List.mem_append, List.mem_singleton] at ht
    by_cases e : t = next
    · subst e
      exact ⟨tile, hm, by simp [hin], hv, by rw [raise_self, raise_of_ne (hne tile hm)]⟩
    · obtain ⟨p, hp, hc, hvp, hl⟩ := h.via t (ht.resolve_right e) hto
      refine ⟨p, hp, ?_, hvp, by rw [raise_of_ne e, raise_of_ne (hne p hp), hl]⟩
      rw [Array.getElem?_setIfInBounds, if_neg (Ne.symm e), hc]

private abbrev anyLevel : Nat → Prop := fun _ => True

/-- What holds before a turn and is kept by every single neighbour holds after the turn. -/
theorem spread_induction (tile : Nat) {P : List Nat → Array (Option Nat) → List Nat → Prop}
    (hreach : ∀ waiting cameFrom next later, cameFrom[next]? = some none →
      P waiting cameFrom (next :: later) →
      P (waiting ++ [next]) (cameFrom.setIfInBounds next (some tile)) later)
    (hskip : ∀ waiting cameFrom next later, cameFrom[next]? ≠ some none →
      P waiting cameFrom (next :: later) → P waiting cameFrom later)
    (todo : List Nat) : ∀ waiting cameFrom, P waiting cameFrom todo →
      P (waiting ++ (spread tile todo cameFrom).2) (spread tile todo cameFrom).1 [] := by
  induction todo with
  | nil =>
    intro waiting cameFrom h
    simpa [spread] using h
  | cons next later ih =>
    intro waiting cameFrom h
    by_cases hnew : cameFrom[next]? = some none
    · simpa [spread, hnew] using ih _ _ (hreach waiting cameFrom next later hnew h)
    · simpa [spread, hnew] using ih _ _ (hskip waiting cameFrom next later hnew h)

theorem spread_spec (todo : List Nat) : ∀ (level : Nat → Nat) (waiting : List Nat)
    (cameFrom : Array (Option Nat)), (∀ v ∈ todo, v < size) → cameFrom.size = size →
    Scanning onward size o anyLevel level done waiting tile todo →
    Remembers onward size o level done waiting cameFrom →
    ∃ level', Scanning onward size o anyLevel level' done
        (waiting ++ (spread tile todo cameFrom).2) tile [] ∧
      Remembers onward size o level' done (waiting ++ (spread tile todo cameFrom).2)
        (spread tile todo cameFrom).1 ∧
      (spread tile todo cameFrom).1.size = size := by
  intro level waiting cameFrom hbound hs hscan hrem
  have hspread := spread_induction tile
    (P := fun waiting cameFrom todo => (∀ v ∈ todo, v < size) ∧ ∃ level',
      Scanning onward size o anyLevel level' done waiting tile todo ∧
        Remembers onward size o level' done waiting cameFrom ∧ cameFrom.size = size)
    ?_ ?_ todo waiting cameFrom ⟨hbound, level, hscan, hrem, hs⟩
  · exact hspread.2
  · rintro waiting cameFrom next later hnew ⟨hbound, level, hscan, hrem, hs⟩
    obtain ⟨hnext, hnm⟩ := (hrem.new_iff next).mp hnew
    exact ⟨fun v hv => hbound v (List.mem_cons_of_mem _ hv), _, hscan.reach hnext hnm,
      hrem.reach hscan.taken (hscan.onwards next (by simp)) hnew, by simpa using hs⟩
  · rintro waiting cameFrom next later hnew ⟨hbound, level, hscan, hrem, hs⟩
    have hold : next ∈ done ++ waiting := by
      by_contra hnm
      exact hnew ((hrem.new_iff next).mpr ⟨hbound next (by simp), hnm⟩)
    exact ⟨fun v hv => hbound v (List.mem_cons_of_mem _ hv), level, hscan.skip fun _ => hold, hrem,
      hs⟩

/-- A search between two turns. -/
structure Searching (onward : Nat → List Nat) (size o : Nat) (level : Nat → Nat)
    (done : List Nat) (s : RouteSearch) : Prop where
  frontier : Frontier onward size o anyLevel level done s.waiting
  remembers : Remembers onward size o level done s.waiting s.cameFrom
  size_eq : s.cameFrom.size = size

/-- A search that has stopped, because nothing waits or the goal comes next. -/
structure Stopped (onward : Nat → List Nat) (size o goal : Nat) (level : Nat → Nat)
    (done : List Nat) (s : RouteSearch) : Prop
    extends Searching onward size o level done s where
  ended : s.waiting = [] ∨ s.waiting.head? = some goal

theorem Searching.first (ho : o < size) :
    Searching onward size o (fun _ => 0) [] (start size o) where
  frontier := .first ho rfl
  size_eq := by simp [start]
  remembers := by
    refine ⟨?_, ?_⟩
    · intro t
      rw [start, Array.getElem?_setIfInBounds]
      by_cases ht : o = t
      · simp [← ht, ho]
      · simp [ht, Ne.symm ht, Array.getElem?_replicate]
    · intro t ht hto
      exact absurd (List.mem_singleton.mp ht) hto

/-- The tile that is taken has been reached like all others. -/
theorem Remembers.take {rest : List Nat}
    (h : Remembers onward size o level done (tile :: rest) cameFrom) :
    Remembers onward size o level (done ++ [tile]) rest cameFrom := by
  refine ⟨by simpa using h.new_iff, ?_⟩
  intro t ht hto
  obtain ⟨p, hp, hc⟩ := h.via t (by simpa using ht) hto
  exact ⟨p, List.mem_append_left _ hp, hc⟩

theorem Searching.turn {rest : List Nat} (hbound : ∀ u, ∀ v ∈ onward u, v < size)
    (h : Searching onward size o level done ⟨cameFrom, tile :: rest⟩) :
    ∃ level', Searching onward size o level' (done ++ [tile])
      ⟨(spread tile (onward tile) cameFrom).1,
        rest ++ (spread tile (onward tile) cameFrom).2⟩ := by
  obtain ⟨level', hscan, hkept, hs⟩ := spread_spec (onward tile) level rest cameFrom
    (hbound tile) h.size_eq h.frontier.take h.remembers.take
  exact ⟨level', hscan.finish, hkept, hs⟩

/-- What every turn keeps holds when the search stops, if there are turns enough for all tiles. -/
theorem seek_induction (onward : Nat → List Nat) (goal : Nat) {P : List Nat → RouteSearch → Prop}
    (hroom : ∀ done s, P done s → (done ++ s.waiting).length ≤ size)
    (hturn : ∀ done tile rest cameFrom, P done ⟨cameFrom, tile :: rest⟩ →
      P (done ++ [tile]) ⟨(spread tile (onward tile) cameFrom).1,
        rest ++ (spread tile (onward tile) cameFrom).2⟩) (n : Nat) :
    ∀ done s, size ≤ done.length + n → P done s → ∃ done', P done' (seek onward goal n s) ∧
      ((seek onward goal n s).waiting = [] ∨ (seek onward goal n s).waiting.head? = some goal) := by
  induction n with
  | zero =>
    intro done s hn h
    have hlen := hroom done s h
    rw [List.length_append] at hlen
    have hnone : s.waiting = [] := List.length_eq_zero_iff.mp (by omega)
    exact ⟨done, h, .inl hnone⟩
  | succ n ih =>
    intro done s hn h
    obtain ⟨cameFrom, waiting⟩ := s
    cases waiting with
    | nil => exact ⟨done, h, .inl rfl⟩
    | cons tile rest =>
      by_cases hgoal : tile = goal
      · have hstop : seek onward goal (n + 1) ⟨cameFrom, tile :: rest⟩ =
            ⟨cameFrom, tile :: rest⟩ := by
          simp [seek, hgoal]
        rw [hstop]
        exact ⟨done, h, .inr (by simp [hgoal])⟩
      · simpa [seek, hgoal] using ih _ _ (by simp; omega) (hturn done tile rest cameFrom h)

theorem run_stopped (goal : Nat) (ho : o < size) (hbound : ∀ u, ∀ v ∈ onward u, v < size) :
    ∃ level done, Stopped onward size o goal level done (run onward size o goal) := by
  obtain ⟨done, ⟨level, hsearch⟩, hended⟩ := seek_induction onward goal
    (P := fun done s => ∃ level, Searching onward size o level done s)
    (fun _ _ ⟨_, h⟩ => h.frontier.length_le) (fun _ _ _ _ ⟨_, h⟩ => h.turn hbound) size []
    (start size o) (by simp) ⟨_, .first ho⟩
  exact ⟨level, done, hsearch, hended⟩

/-- What walking back from a tile gives, by the steps that it goes back over. There are as many of
them as the level of the tile says. -/
theorem trail_induction {P : List Nat → Nat → Prop}
    (hr : Remembers onward size o level done waiting cameFrom) (hhere : P [] o)
    (hon : ∀ ts p t, t ∈ done ++ waiting → t ≠ o → p ∈ done → cameFrom[t]? = some (some p) →
      t ∈ onward p → level t = level p + 1 → P ts p → P (ts ++ [t]) t) (n : Nat) :
    ∀ (t : Nat) (ahead : List Nat), t ∈ done ++ waiting → level t ≤ n →
    ∃ ts, trail cameFrom o (n + 1) t ahead = ts ++ ahead ∧ P ts t := by
  have horigin : ∀ n ahead, ∃ ts, trail cameFrom o (n + 1) o ahead = ts ++ ahead ∧ P ts o :=
    fun _ _ => ⟨[], by simp [trail], hhere⟩
  induction n with
  | zero =>
    intro t ahead ht hl
    by_cases hto : t = o
    · exact hto ▸ horigin 0 ahead
    · obtain ⟨p, _, _, _, hlevel⟩ := hr.via t ht hto
      omega
  | succ n ih =>
    intro t ahead ht hl
    by_cases hto : t = o
    · exact hto ▸ horigin (n + 1) ahead
    · obtain ⟨p, hp, hc, hv, hlevel⟩ := hr.via t ht hto
      obtain ⟨ts, htrail, hP⟩ := ih p (t :: ahead) (List.mem_append_left _ hp) (by omega)
      refine ⟨ts ++ [t], ?_, hon ts p t ht hto hp hc hv hlevel hP⟩
      rw [trail, if_neg hto, hc]
      simpa using htrail

/-- Walking back from a tile takes as many steps as its level says, and gives a walk to it. -/
theorem trail_spec (hd : Discovery onward size o level (done ++ waiting))
    (hr : Remembers onward size o level done waiting cameFrom) (n : Nat) :
    ∀ (t : Nat) (ahead : List Nat), t ∈ done ++ waiting → level t ≤ n →
    ∃ ts, trail cameFrom o (n + 1) t ahead = ts ++ ahead ∧ Walk onward o ts t ∧
      ts.length = level t := by
  refine trail_induction (P := fun ts t => Walk onward o ts t ∧ ts.length = level t) hr
    ⟨.here, by simp [hd.start]⟩ ?_ n
  rintro ts p t - - - - hv hlevel ⟨hwalk, hlen⟩
  exact ⟨hwalk.on hv, by simp [hlen, hlevel]⟩

/-- A route that is found is a shortest walk. -/
theorem tiles?_some {goal : Nat} (ho : o < size) (hbound : ∀ u, ∀ v ∈ onward u, v < size)
    {ts : List Nat} (h : tiles? onward size o goal = some ts) :
    Walk onward o ts goal ∧ ts.length < size ∧
      ∀ us, Walk onward o us goal → ts.length ≤ us.length := by
  obtain ⟨level, done, hstop⟩ := run_stopped goal ho hbound
  obtain ⟨⟨hf, hr, hs⟩, hover⟩ := hstop
  simp only [tiles?] at h
  split at h
  · rename_i hreached
    have hmem := (hr.mem_iff hf.below hs goal).mp hreached
    have hlt := hf.level_lt hmem
    obtain ⟨us, htrail, hwalk, hlen⟩ :=
      trail_spec hf.toDiscovery hr (size - 1) goal [] hmem (by omega)
    rw [Nat.sub_add_cancel (by omega), List.append_nil] at htrail
    obtain rfl : us = ts := by rw [← htrail]; exact Option.some.inj h
    refine ⟨hwalk, by omega, ?_⟩
    intro vs hvs
    rw [hlen]
    rcases hover with hnone | hhead
    · rw [hnone] at hf
      exact (hf.covers_of_done (fun _ => id) hvs trivial).2
    · obtain ⟨rest, hcons⟩ := List.head?_eq_some_iff.mp hhead
      rw [hcons] at hf
      exact hf.covers_of_front (fun _ => id) hvs trivial
  · cases h

/-- If no route is found, no walk leads to the goal. -/
theorem tiles?_none {goal : Nat} (ho : o < size) (hbound : ∀ u, ∀ v ∈ onward u, v < size)
    (h : tiles? onward size o goal = none) (us : List Nat) : ¬ Walk onward o us goal := by
  intro hus
  obtain ⟨level, done, hstop⟩ := run_stopped goal ho hbound
  obtain ⟨⟨hf, hr, hs⟩, hover⟩ := hstop
  simp only [tiles?] at h
  split at h
  · cases h
  · rename_i hreached
    rw [hr.mem_iff hf.below hs goal] at hreached
    rcases hover with hnone | hhead
    · rw [hnone] at hf hreached
      exact hreached (List.mem_append_left _ (hf.covers_of_done (fun _ => id) hus trivial).1)
    · exact hreached (List.mem_append_right _ (List.mem_of_mem_head? hhead))

end HexSkirmish.RouteSearch
