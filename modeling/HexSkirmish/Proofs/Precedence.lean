import HexSkirmish.Proofs.ShortestRoutes
import Mathlib.Logic.Function.Basic

/-! Which of several shortest walks the search for a route finds. Every step has a digit, and the
steps from a tile are tried in the order of their digits. The digits of a walk make a numeral in
base six. The invariant is that tiles are reached in the order of their numerals: the tile taken last
has the greatest numeral of those taken, so that every step on from it makes a greater one than any
step before. Hence each tile is reached by the walk with the least numeral of all. -/

namespace HexSkirmish

/-- A numeral with one more digit behind it. Digits count from one, as no walk is to have the
numeral of a longer one. -/
def appendDigit (n d : Nat) : Nat := 6 * n + d + 1

section

variable {m n d e : Nat}

theorem lt_appendDigit : n < appendDigit n d := by
  unfold appendDigit
  omega

theorem appendDigit_lt (h : m < n) (hd : d < 6) : appendDigit m d < appendDigit n e := by
  unfold appendDigit
  omega

theorem appendDigit_lt_of_digit (h : d < e) : appendDigit n d < appendDigit n e := by
  unfold appendDigit
  omega

theorem appendDigit_le (h : m ≤ n) : appendDigit m d ≤ appendDigit n d := by
  unfold appendDigit
  omega

end

/-- The tiles of a walk from `o`, its numeral, and the tile where it ends. -/
inductive Trek (onward : Nat → List Nat) (digit : Nat → Nat → Nat) (o : Nat) :
    List Nat → Nat → Nat → Prop
  | here : Trek onward digit o [] 0 o
  | on {ts : List Nat} {n u v : Nat} : Trek onward digit o ts n u → v ∈ onward u →
      Trek onward digit o (ts ++ [v]) (appendDigit n (digit u v)) v

/-- The steps from each tile have different digits of base six and are tried in their order. -/
structure Graded (onward : Nat → List Nat) (digit : Nat → Nat → Nat) : Prop where
  small : ∀ u, ∀ v ∈ onward u, digit u v < 6
  ascending : ∀ u, (onward u).Pairwise fun v w => digit u v < digit u w

namespace RouteSearch

/-- The tiles in the order of their discovery have ascending numerals, each made from that of the
tile before it. -/
structure Ascent (onward : Nat → List Nat) (digit : Nat → Nat → Nat) (o : Nat) (rank : Nat → Nat)
    (done waiting : List Nat) (cameFrom : Array (Option Nat)) : Prop where
  origin : o ∈ done ++ waiting
  start : rank o = 0
  ascending : (done ++ waiting).Pairwise fun t u => rank t < rank u
  via : ∀ t ∈ done ++ waiting, t ≠ o → ∃ p ∈ done, cameFrom[t]? = some (some p) ∧ t ∈ onward p ∧
    rank t = appendDigit (rank p) (digit p t)

/-- A search between two turns: no step from a tile that was taken makes a smaller numeral. -/
structure Ranked (onward : Nat → List Nat) (digit : Nat → Nat → Nat) (o : Nat) (rank : Nat → Nat)
    (done waiting : List Nat) (cameFrom : Array (Option Nat)) : Prop
    extends Ascent onward digit o rank done waiting cameFrom where
  closed : ∀ u ∈ done, ∀ v ∈ onward u,
    v ∈ done ++ waiting ∧ rank v ≤ appendDigit (rank u) (digit u v)

/-- A search in the middle of a turn: the steps to come make greater numerals than all so far. -/
structure Ranking (onward : Nat → List Nat) (digit : Nat → Nat → Nat) (o : Nat) (rank : Nat → Nat)
    (done waiting : List Nat) (cameFrom : Array (Option Nat)) (tile : Nat) (todo : List Nat) : Prop
    extends Ascent onward digit o rank done waiting cameFrom where
  taken : tile ∈ done
  onwards : ∀ v ∈ todo, v ∈ onward tile
  order : todo.Pairwise fun v w => digit tile v < digit tile w
  span : ∀ t ∈ done ++ waiting, ∀ v ∈ todo, rank t < appendDigit (rank tile) (digit tile v)
  closed : ∀ u ∈ done, ∀ v ∈ onward u, (u = tile ∧ v ∈ todo) ∨
    v ∈ done ++ waiting ∧ rank v ≤ appendDigit (rank u) (digit u v)

variable {onward : Nat → List Nat} {digit : Nat → Nat → Nat} {size o tile next : Nat}
  {level rank : Nat → Nat} {done waiting rest later : List Nat} {cameFrom : Array (Option Nat)}

theorem Ascent.grow (h : Ascent onward digit o rank done waiting cameFrom) (htile : tile ∈ done)
    (hv : next ∈ onward tile) (hin : next < cameFrom.size) (hnew : next ∉ done ++ waiting)
    (hspan : ∀ t ∈ done ++ waiting, rank t < appendDigit (rank tile) (digit tile next)) :
    Ascent onward digit o (Function.update rank next (appendDigit (rank tile) (digit tile next)))
      done (waiting ++ [next]) (cameFrom.setIfInBounds next (some tile)) := by
  have hne : ∀ t ∈ done ++ waiting, t ≠ next := fun t ht e => hnew (e ▸ ht)
  have hkeep : ∀ t ∈ done ++ waiting, Function.update rank next
      (appendDigit (rank tile) (digit tile next)) t = rank t :=
    fun t ht => Function.update_of_ne (hne t ht) _ _
  refine ⟨?_, (hkeep o h.origin).trans h.start, ?_, ?_⟩
  · rw [← List.append_assoc]
    exact List.mem_append_left _ h.origin
  · rw [← List.append_assoc, List.pairwise_append]
    refine ⟨?_, by simp, ?_⟩
    · exact h.ascending.imp_of_mem fun ht hu hlt => by rwa [hkeep _ ht, hkeep _ hu]
    · intro t ht u hu
      rw [List.mem_singleton.mp hu, Function.update_self, hkeep t ht]
      exact hspan t ht
  · intro t ht hto
    rw [← List.append_assoc, List.mem_append, List.mem_singleton] at ht
    by_cases e : t = next
    · subst e
      refine ⟨tile, htile, by simp [hin], hv, ?_⟩
      rw [Function.update_self, hkeep tile (List.mem_append_left _ htile)]
    · obtain ⟨p, hp, hc, hvp, hrank⟩ := h.via t (ht.resolve_right e) hto
      refine ⟨p, hp, ?_, hvp, ?_⟩
      · rw [Array.getElem?_setIfInBounds, if_neg (Ne.symm e), hc]
      · rw [Function.update_of_ne e, hkeep p (List.mem_append_left _ hp), hrank]

/-- The tile that is taken has a greater numeral than those taken before, and so has whatever is
reached from it. -/
theorem Ranked.take (hgraded : Graded onward digit)
    (h : Ranked onward digit o rank done (tile :: rest) cameFrom) :
    Ranking onward digit o rank (done ++ [tile]) rest cameFrom tile (onward tile) where
  origin := by simpa using h.origin
  start := h.start
  ascending := by simpa using h.ascending
  via := by
    intro t ht hto
    obtain ⟨p, hp, hc⟩ := h.via t (by simpa using ht) hto
    exact ⟨p, List.mem_append_left _ hp, hc⟩
  taken := by simp
  onwards := fun _ hv => hv
  order := hgraded.ascending tile
  span := by
    intro t ht v _
    obtain ⟨_, _, hlt⟩ := List.pairwise_append.mp h.ascending
    by_cases hto : t = o
    · rw [hto, h.start]
      exact Nat.lt_of_le_of_lt (Nat.zero_le _) lt_appendDigit
    · obtain ⟨p, hp, _, hvp, hrank⟩ := h.via t (by simpa using ht) hto
      rw [hrank]
      exact appendDigit_lt (hlt p hp tile (by simp)) (hgraded.small p t hvp)
  closed := by
    intro u hu v hv
    rcases List.mem_append.mp hu with hu | hu
    · simpa using Or.inr (h.closed u hu v hv)
    · exact .inl ⟨List.mem_singleton.mp hu, List.mem_singleton.mp hu ▸ hv⟩

namespace Ranking

/-- A neighbour that was reached before has a smaller numeral than this step would give it. -/
theorem skip (h : Ranking onward digit o rank done waiting cameFrom tile (next :: later))
    (hold : next ∈ done ++ waiting) :
    Ranking onward digit o rank done waiting cameFrom tile later where
  toAscent := h.toAscent
  taken := h.taken
  onwards := fun v hv => h.onwards v (List.mem_cons_of_mem _ hv)
  order := h.order.of_cons
  span := fun t ht v hv => h.span t ht v (List.mem_cons_of_mem _ hv)
  closed := by
    intro u hu v hv
    rcases h.closed u hu v hv with ⟨rfl, hm⟩ | hr
    · rcases List.mem_cons.mp hm with rfl | hm
      · exact .inr ⟨hold, Nat.le_of_lt (h.span v hold v (by simp))⟩
      · exact .inl ⟨rfl, hm⟩
    · exact .inr hr

theorem reach (h : Ranking onward digit o rank done waiting cameFrom tile (next :: later))
    (hin : next < cameFrom.size) (hnew : next ∉ done ++ waiting) :
    Ranking onward digit o
      (Function.update rank next (appendDigit (rank tile) (digit tile next))) done
      (waiting ++ [next]) (cameFrom.setIfInBounds next (some tile)) tile later := by
  have hgrown := h.grow h.taken (h.onwards next (by simp)) hin hnew
    fun t ht => h.span t ht next (by simp)
  have hkeep : ∀ t ∈ done ++ waiting, Function.update rank next
      (appendDigit (rank tile) (digit tile next)) t = rank t :=
    fun t ht => Function.update_of_ne (fun e : t = next => hnew (e ▸ ht)) _ _
  have htile := hkeep tile (List.mem_append_left _ h.taken)
  refine ⟨hgrown, h.taken, fun v hv => h.onwards v (List.mem_cons_of_mem _ hv), h.order.of_cons, ?_,
    ?_⟩
  · intro t ht v hv
    rw [← List.append_assoc] at ht
    rw [htile]
    rcases List.mem_append.mp ht with ht | ht
    · rw [hkeep t ht]
      exact h.span t ht v (List.mem_cons_of_mem _ hv)
    · rw [List.mem_singleton.mp ht, Function.update_self]
      exact appendDigit_lt_of_digit (List.rel_of_pairwise_cons h.order hv)
  · intro u hu v hv
    rw [← List.append_assoc, hkeep u (List.mem_append_left _ hu)]
    rcases h.closed u hu v hv with ⟨rfl, hm⟩ | ⟨hr, hle⟩
    · rcases List.mem_cons.mp hm with rfl | hm
      · exact .inr ⟨by simp, Nat.le_of_eq (Function.update_self ..)⟩
      · exact .inl ⟨rfl, hm⟩
    · exact .inr ⟨List.mem_append_left _ hr, by rw [hkeep v hr]; exact hle⟩

theorem finish (h : Ranking onward digit o rank done waiting cameFrom tile []) :
    Ranked onward digit o rank done waiting cameFrom where
  toAscent := h.toAscent
  closed := by
    intro u hu v hv
    rcases h.closed u hu v hv with ⟨_, hm⟩ | hr
    · exact absurd hm (by simp)
    · exact hr

end Ranking

theorem Ranked.first : Ranked onward digit o (fun _ => 0) [] [o] (start size o).cameFrom where
  origin := by simp
  start := rfl
  ascending := by simp
  via := fun t ht hto => absurd (List.mem_singleton.mp ht) hto
  closed := by simp

/-- A turn keeps the order. What was reached before is known from what the tiles remember. -/
theorem Ranked.turn (hgraded : Graded onward digit) (hbound : ∀ u, ∀ v ∈ onward u, v < size)
    (hrem : Remembers onward size o level done (tile :: rest) cameFrom)
    (h : Ranked onward digit o rank done (tile :: rest) cameFrom) :
    ∃ rank', Ranked onward digit o rank' (done ++ [tile])
      (rest ++ (spread tile (onward tile) cameFrom).2)
      (spread tile (onward tile) cameFrom).1 := by
  have hspread := spread_induction tile
    (P := fun waiting cameFrom todo => (∀ v ∈ todo, v < size) ∧
      (∃ level, Remembers onward size o level (done ++ [tile]) waiting cameFrom) ∧
      ∃ rank, Ranking onward digit o rank (done ++ [tile]) waiting cameFrom tile todo)
    ?_ ?_ (onward tile) rest cameFrom ⟨hbound tile, ⟨level, hrem.take⟩, rank, h.take hgraded⟩
  · obtain ⟨_, _, rank', hranking⟩ := hspread
    exact ⟨rank', hranking.finish⟩
  · rintro waiting cameFrom next later hnew ⟨hbound, ⟨level, hrem⟩, rank, hranking⟩
    obtain ⟨_, hnm⟩ := (hrem.new_iff next).mp hnew
    have hin : next < cameFrom.size := (Array.getElem?_eq_some_iff.mp hnew).1
    exact ⟨fun v hv => hbound v (List.mem_cons_of_mem _ hv),
      ⟨_, hrem.reach hranking.taken (hranking.onwards next (by simp)) hnew⟩,
      _, hranking.reach hin hnm⟩
  · rintro waiting cameFrom next later hnew ⟨hbound, ⟨level, hrem⟩, rank, hranking⟩
    have hold : next ∈ done ++ [tile] ++ waiting := by
      by_contra hnm
      exact hnew ((hrem.new_iff next).mpr ⟨hbound next (by simp), hnm⟩)
    exact ⟨fun v hv => hbound v (List.mem_cons_of_mem _ hv), ⟨level, hrem⟩, rank,
      hranking.skip hold⟩

theorem run_ranked (goal : Nat) (hgraded : Graded onward digit) (ho : o < size)
    (hbound : ∀ u, ∀ v ∈ onward u, v < size) :
    ∃ level rank done, Stopped onward size o goal level done (run onward size o goal) ∧
      Ranked onward digit o rank done (run onward size o goal).waiting
        (run onward size o goal).cameFrom := by
  have hseek := seek_induction onward goal
    (P := fun done s => ∃ level rank, Searching onward size o level done s ∧
      Ranked onward digit o rank done s.waiting s.cameFrom)
    (fun _ _ ⟨_, _, h, _⟩ => h.frontier.length_le) ?_ size [] (start size o) (by simp)
    ⟨_, _, .first ho, .first⟩
  · obtain ⟨done, ⟨level, rank, hsearch, hranked⟩, hended⟩ := hseek
    exact ⟨level, rank, done, ⟨hsearch, hended⟩, hranked⟩
  · rintro done tile rest cameFrom ⟨level, rank, hsearch, hranked⟩
    obtain ⟨level', hsearch'⟩ := hsearch.turn hbound
    obtain ⟨rank', hranked'⟩ := hranked.turn hgraded hbound hsearch.remembers
    exact ⟨level', rank', hsearch', hranked'⟩

/-- A walk to a tile that has not a numeral as small passes through the tiles that wait. -/
theorem Ranked.covers (h : Ranked onward digit o rank done waiting cameFrom) {ts : List Nat}
    {n t : Nat} (htrek : Trek onward digit o ts n t) :
    (t ∈ done ++ waiting ∧ rank t ≤ n) ∨ ∃ f ∈ waiting, rank f < n := by
  induction htrek with
  | here => exact .inl ⟨h.origin, Nat.le_of_eq h.start⟩
  | @on ts n u v _ hv ih =>
    rcases ih with ⟨hu, hle⟩ | ⟨f, hf, hlt⟩
    · rcases List.mem_append.mp hu with hu | hu
      · obtain ⟨hreached, hstep⟩ := h.closed u hu v hv
        exact .inl ⟨hreached, Nat.le_trans hstep (appendDigit_le hle)⟩
      · exact .inr ⟨u, hu, Nat.lt_of_le_of_lt hle lt_appendDigit⟩
    · exact .inr ⟨f, hf, Nat.lt_trans hlt lt_appendDigit⟩

/-- When a search has stopped, no walk to its goal has a smaller numeral than the goal. -/
theorem Ranked.least (h : Ranked onward digit o rank done waiting cameFrom) {goal : Nat}
    (hended : waiting = [] ∨ waiting.head? = some goal) {ts : List Nat} {n : Nat}
    (htrek : Trek onward digit o ts n goal) : rank goal ≤ n := by
  rcases h.covers htrek with ⟨_, hle⟩ | ⟨f, hf, hlt⟩
  · exact hle
  · rcases hended with hnone | hhead
    · rw [hnone] at hf
      exact absurd hf (by simp)
    · obtain ⟨rest, rfl⟩ := List.head?_eq_some_iff.mp hhead
      obtain ⟨_, hsorted, _⟩ := List.pairwise_append.mp h.ascending
      rcases List.mem_cons.mp hf with rfl | hf
      · exact Nat.le_of_lt hlt
      · exact Nat.le_of_lt (Nat.lt_trans (List.rel_of_pairwise_cons hsorted hf) hlt)

/-- Of all walks to the goal, the route that is found has the least numeral. -/
theorem tiles?_least (hgraded : Graded onward digit) (ho : o < size)
    (hbound : ∀ u, ∀ v ∈ onward u, v < size) {goal : Nat} {ts : List Nat}
    (h : tiles? onward size o goal = some ts) :
    ∃ n, Trek onward digit o ts n goal ∧ ∀ us m, Trek onward digit o us m goal → n ≤ m := by
  obtain ⟨level, rank, done, ⟨⟨hf, hr, hs⟩, hended⟩, hranked⟩ :=
    run_ranked goal hgraded ho hbound
  simp only [tiles?] at h
  split at h
  · rename_i hreached
    have hmem := (hr.mem_iff hf.below hs goal).mp hreached
    have hlt := hf.level_lt hmem
    have hback := trail_induction (P := fun ts t => Trek onward digit o ts (rank t) t) hr
      (hranked.start.symm ▸ .here) ?_ (size - 1) goal [] hmem (by omega)
    · obtain ⟨us, htrail, htrek⟩ := hback
      rw [Nat.sub_add_cancel (by omega), List.append_nil] at htrail
      obtain rfl : us = ts := by rw [← htrail]; exact Option.some.inj h
      exact ⟨rank goal, htrek, fun _ _ hother => hranked.least hended hother⟩
    · rintro ts p t ht hto - hc hv - htrek
      obtain ⟨q, _, hcq, _, hrank⟩ := hranked.via t ht hto
      obtain rfl : p = q := Option.some.inj (Option.some.inj (hc.symm.trans hcq))
      exact hrank ▸ htrek.on hv
  · cases h

end RouteSearch

end HexSkirmish
