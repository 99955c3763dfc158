import HexSkirmish.Grid.FlowSearch
import HexSkirmish.Proofs.Frontier

/-! A flow field holds the length of a shortest walk to every tile, up to its limit. A tile accepts
an offer once only, although the search would let it accept better ones later: offers come in
ascending order, which is what the frontier is for. Tiles at the limit or beyond are never
reached, as an offer of the limit is refused by all. -/

namespace HexSkirmish.FlowSearch

/-- The reached tiles hold their levels, which are below the limit, and all others the limit. -/
structure Holds (limit size : Nat) (level : Nat → Nat) (done waiting : List Nat)
    (distances : Array Nat) : Prop where
  held : ∀ t ∈ done ++ waiting, distances[t]? = some (level t) ∧ level t < limit
  unheld : ∀ t, t < size → t ∉ done ++ waiting → distances[t]? = some limit

variable {onward : Nat → List Nat} {limit size o tile next : Nat} {level : Nat → Nat}
  {done waiting : List Nat} {distances : Array Nat}

private abbrev belowLimit (limit : Nat) : Nat → Prop := fun n => n < limit

/-- What one turn does for one tile that accepts its offer. -/
theorem Holds.reach (h : Holds limit size level done waiting distances)
    (hin : next < distances.size) (hnm : next ∉ done ++ waiting) (hfit : level tile + 1 < limit) :
    Holds limit size (raise level tile next) done
      (waiting ++ [next]) (distances.setIfInBounds next (level tile + 1)) := by
  refine ⟨?_, ?_⟩
  · intro t ht
    rw [← List.append_assoc, List.mem_append, List.mem_singleton] at ht
    by_cases e : t = next
    · subst e
      simp [hin, hfit, raise_self]
    · rw [Array.getElem?_setIfInBounds, if_neg (Ne.symm e)]
      rw [raise_of_ne e]
      exact h.held t (ht.resolve_right e)
  · intro t ht hm
    rw [← List.append_assoc, List.mem_append, List.mem_singleton, not_or] at hm
    rw [Array.getElem?_setIfInBounds, if_neg (Ne.symm hm.2)]
    exact h.unheld t ht hm.1

theorem spread_spec (todo : List Nat) : ∀ (level : Nat → Nat) (waiting : List Nat)
    (distances : Array Nat), (∀ v ∈ todo, v < size) → distances.size = size →
    Scanning onward size o (belowLimit limit) level done waiting tile todo →
    Holds limit size level done waiting distances →
    ∃ level', Scanning onward size o (belowLimit limit) level' done
        (waiting ++ (spread (min (level tile + 1) limit) todo distances).2) tile [] ∧
      Holds limit size level' done
        (waiting ++ (spread (min (level tile + 1) limit) todo distances).2)
        (spread (min (level tile + 1) limit) todo distances).1 ∧
      (spread (min (level tile + 1) limit) todo distances).1.size = size := by
  induction todo with
  | nil =>
    intro level waiting distances _ hs hscan hh
    exact ⟨level, by simpa [spread] using hscan, by simpa [spread] using hh, hs⟩
  | cons next later ih =>
    intro level waiting distances hbound hs hscan hh
    have hnext := hbound next (by simp)
    have hlater : ∀ v ∈ later, v < size := fun v hv => hbound v (List.mem_cons_of_mem _ hv)
    by_cases hm : next ∈ done ++ waiting
    · -- reached before, and then by no more steps than are offered now
      obtain ⟨hheld, hlt⟩ := hh.held next hm
      have hspan := hscan.span next hm
      have hkeep : ¬ min (level tile + 1) limit < level next := by omega
      simp only [spread, hheld, Option.any_some, hkeep, decide_false, Bool.false_eq_true, if_false]
      exact ih level waiting distances hlater hs (hscan.skip fun _ => hm) hh
    · have hfresh := hh.unheld next hnext hm
      by_cases hfit : level tile + 1 < limit
      · have hmin : min (level tile + 1) limit = level tile + 1 := by omega
        have hgrown := hscan.reach hnext hm
        have htile : tile ≠ next := fun e => hm (List.mem_append_left _ (e ▸ hscan.taken))
        have hkept := hh.reach (by omega) hm hfit
        have := ih _ _ _ hlater (by simpa using hs) hgrown hkept
        simpa [spread, hfresh, hfit, hmin, raise_of_ne htile] using this
      · have hmin : min (level tile + 1) limit = limit := by omega
        have := ih level waiting distances hlater hs (hscan.skip fun hf => absurd hf hfit) hh
        simpa [spread, hfresh, hmin] using this

theorem spread_size (steps : Nat) (todo : List Nat) (distances : Array Nat) :
    (spread steps todo distances).1.size = distances.size := by
  induction todo generalizing distances with
  | nil => rfl
  | cons next later ih =>
    unfold spread
    split <;> simp [ih]

theorem flood_size (n : Nat) (s : FlowSearch) :
    (flood onward limit n s).distances.size = s.distances.size := by
  induction n generalizing s with
  | zero => rfl
  | succ n ih =>
    unfold flood
    split
    · rfl
    · simp [ih, spread_size]

@[simp] theorem field_size : (field onward limit size o).size = size := by
  simp [field, flood_size, start]

theorem Holds.first (hlimit : 0 < limit) (ho : o < size) :
    Holds limit size (fun _ => 0) [] [o] (start limit size o).distances := by
  refine ⟨?_, ?_⟩
  · intro t ht
    obtain rfl := List.mem_singleton.mp ht
    simp [start, ho, hlimit]
  · intro t ht hm
    have hne : ¬ o = t := fun e => hm (by simp [e])
    simp [start, hne, ht]

/-- The tile that is taken holds its level like all others. -/
theorem Holds.take {rest : List Nat} (h : Holds limit size level done (tile :: rest) distances) :
    Holds limit size level (done ++ [tile]) rest distances :=
  ⟨by simpa using h.held, by simpa using h.unheld⟩

/-- A search between two turns. -/
structure Flooding (onward : Nat → List Nat) (limit size o : Nat) (level : Nat → Nat)
    (done : List Nat) (s : FlowSearch) : Prop where
  frontier : Frontier onward size o (belowLimit limit) level done s.waiting
  holds : Holds limit size level done s.waiting s.distances
  size_eq : s.distances.size = size

theorem Flooding.first (hlimit : 0 < limit) (ho : o < size) :
    Flooding onward limit size o (fun _ => 0) [] (start limit size o) where
  frontier := .first ho rfl
  holds := .first hlimit ho
  size_eq := by simp [start]

theorem Flooding.turn {rest : List Nat} (hbound : ∀ u, ∀ v ∈ onward u, v < size)
    (h : Flooding onward limit size o level done ⟨distances, tile :: rest⟩) :
    distances[tile]? = some (level tile) ∧
      ∃ level', Flooding onward limit size o level' (done ++ [tile])
        ⟨(spread (min (level tile + 1) limit) (onward tile) distances).1,
          rest ++ (spread (min (level tile + 1) limit) (onward tile) distances).2⟩ := by
  obtain ⟨level', hscan, hkept, hs⟩ := spread_spec (onward tile) level rest distances
    (hbound tile) h.size_eq h.frontier.take h.holds.take
  exact ⟨(h.holds.held tile (by simp)).1, level', hscan.finish, hkept, hs⟩

theorem flood_done (hbound : ∀ u, ∀ v ∈ onward u, v < size) (n : Nat) :
    ∀ (level : Nat → Nat) (done : List Nat) (s : FlowSearch), size ≤ done.length + n →
    Flooding onward limit size o level done s →
    ∃ level' done', Frontier onward size o (belowLimit limit) level' done' [] ∧
      Holds limit size level' done' [] (flood onward limit n s).distances := by
  induction n with
  | zero =>
    intro level done s hn ⟨hf, hh, _⟩
    have hlen := hf.length_le
    rw [List.length_append] at hlen
    have hnone : s.waiting = [] := List.length_eq_zero_iff.mp (by omega)
    rw [hnone] at hf hh
    exact ⟨level, done, hf, hh⟩
  | succ n ih =>
    intro level done s hn h
    obtain ⟨distances, waiting⟩ := s
    cases waiting with
    | nil => exact ⟨level, done, h.frontier, h.holds⟩
    | cons tile rest =>
      obtain ⟨hheld, level', hnext⟩ := h.turn hbound
      simpa [flood, hheld] using ih level' (done ++ [tile]) ⟨_, _⟩ (by simp; omega) hnext

theorem field_done (hlimit : 0 < limit) (ho : o < size)
    (hbound : ∀ u, ∀ v ∈ onward u, v < size) :
    ∃ level done, Frontier onward size o (belowLimit limit) level done [] ∧
      Holds limit size level done [] (field onward limit size o) :=
  flood_done hbound size (fun _ => 0) [] _ (by simp) (.first hlimit ho)

/-- The number of a tile is the length of a shortest walk to it if that is below the limit, and the
limit if no walk or only longer ones lead there. -/
theorem field_spec (hlimit : 0 < limit) (ho : o < size) (hbound : ∀ u, ∀ v ∈ onward u, v < size)
    {t : Nat} (ht : t < size) :
    (∃ ts, Walk onward o ts t ∧ ts.length < limit ∧
      (field onward limit size o)[t]? = some ts.length ∧
      ∀ us, Walk onward o us t → ts.length ≤ us.length) ∨
    (field onward limit size o)[t]? = some limit ∧
      ∀ us, Walk onward o us t → limit ≤ us.length := by
  obtain ⟨level, done, hf, hh⟩ := field_done hlimit ho hbound
  have hdown : ∀ n, belowLimit limit (n + 1) → belowLimit limit n := fun n h => by
    simp only [belowLimit] at h ⊢
    omega
  by_cases hm : t ∈ done ++ []
  · obtain ⟨ts, hw, hlen⟩ := hf.walked t hm
    obtain ⟨hheld, hlt⟩ := hh.held t hm
    refine .inl ⟨ts, hw, by omega, by rw [hheld, hlen], ?_⟩
    intro us hus
    by_cases hfit : us.length < limit
    · have := (hf.covers_of_done hdown hus hfit).2
      omega
    · omega
  · refine .inr ⟨hh.unheld t ht hm, ?_⟩
    intro us hus
    by_contra hlt
    have := (hf.covers_of_done hdown hus (Nat.lt_of_not_le hlt)).1
    exact hm (by simpa using this)

end HexSkirmish.FlowSearch
