import Mathlib.Data.List.Nodup
import Mathlib.Data.List.Perm.Subperm

/-! Breadth-first search, apart from how its tiles are stored. The tiles that were reached stand in
the order of their discovery: first those that were taken, then those that still wait. Each has a
level, and the invariant says that a walk of that many steps leads to it and that no shorter walk
was overlooked. A search may stop counting at a limit: only levels that satisfy `fits` are recorded,
and every level below one that fits must fit as well. -/

namespace HexSkirmish

/-- The tiles of a walk from `o`, without `o`, and the tile where it ends. -/
inductive Walk (onward : Nat → List Nat) (o : Nat) : List Nat → Nat → Prop
  | here : Walk onward o [] o
  | on {ts : List Nat} {u v : Nat} :
      Walk onward o ts u → v ∈ onward u → Walk onward o (ts ++ [v]) v

namespace Walk

variable {onward : Nat → List Nat} {o t : Nat} {ts : List Nat}

theorem step (h : t ∈ onward o) : Walk onward o [t] t := .on .here h

theorem length_pos (h : Walk onward o ts t) (hne : t ≠ o) : 0 < ts.length := by
  cases h with
  | here => exact absurd rfl hne
  | on _ _ => simp

end Walk

/-- There are no more different tiles than the board has. -/
theorem length_le_of_below {size : Nat} {tiles : List Nat} (hnodup : tiles.Nodup)
    (hbelow : ∀ t ∈ tiles, t < size) : tiles.length ≤ size := by
  have hs : tiles ⊆ List.range size := fun t ht => List.mem_range.mpr (hbelow t ht)
  simpa using (List.subperm_of_subset hnodup hs).length_le

/-- Distinct tiles in the order of their discovery, with the number of steps that reached them. -/
structure Discovery (onward : Nat → List Nat) (size o : Nat) (level : Nat → Nat)
    (tiles : List Nat) : Prop where
  nodup : tiles.Nodup
  below : ∀ t ∈ tiles, t < size
  origin : o ∈ tiles
  start : level o = 0
  sorted : tiles.Pairwise fun t u => level t ≤ level u
  early : ∀ (i t : Nat), tiles[i]? = some t → level t ≤ i
  walked : ∀ t ∈ tiles, ∃ ts, Walk onward o ts t ∧ ts.length = level t

/-- The levels once a new tile is reached from another one. -/
def raise (level : Nat → Nat) (u v : Nat) : Nat → Nat :=
  fun t => if t = v then level u + 1 else level t

theorem raise_self {level : Nat → Nat} {u v : Nat} : raise level u v v = level u + 1 := if_pos rfl

theorem raise_of_ne {level : Nat → Nat} {u v t : Nat} (h : t ≠ v) : raise level u v t = level t :=
  if_neg h

theorem raise_of_mem {level : Nat → Nat} {u v t : Nat} {tiles : List Nat} (ht : t ∈ tiles)
    (hnew : v ∉ tiles) : raise level u v t = level t :=
  raise_of_ne fun e => hnew (e ▸ ht)

namespace Discovery

variable {onward : Nat → List Nat} {size o : Nat} {level : Nat → Nat} {tiles : List Nat}

theorem first (ho : o < size) (hl : level o = 0) : Discovery onward size o level [o] where
  nodup := by simp
  below := by simpa using ho
  origin := by simp
  start := hl
  sorted := by simp
  early := by
    intro i t h
    cases i with
    | zero =>
      obtain rfl : o = t := by simpa using h
      omega
    | succ i => simp at h
  walked := by
    intro t h
    obtain rfl := List.mem_singleton.mp h
    exact ⟨[], .here, hl.symm⟩

theorem length_le (h : Discovery onward size o level tiles) : tiles.length ≤ size :=
  length_le_of_below h.nodup h.below

theorem level_lt (h : Discovery onward size o level tiles) {t : Nat} (ht : t ∈ tiles) :
    level t < size := by
  obtain ⟨i, hi⟩ := List.getElem?_of_mem ht
  obtain ⟨hlt, _⟩ := List.getElem?_eq_some_iff.mp hi
  have := h.early i t hi
  have := h.length_le
  omega

/-- A new tile next to one that was reached is put at the end. -/
theorem grow (h : Discovery onward size o level tiles) {u v : Nat} (hu : u ∈ tiles)
    (hv : v ∈ onward u) (hsize : v < size) (hnew : v ∉ tiles)
    (hspan : ∀ t ∈ tiles, level t ≤ level u + 1) :
    Discovery onward size o (raise level u v) (tiles ++ [v]) where
  nodup := by
    rw [List.nodup_append]
    refine ⟨h.nodup, by simp, ?_⟩
    intro t ht w hw e
    exact hnew (List.mem_singleton.mp hw ▸ e ▸ ht)
  below := by
    intro t ht
    rcases List.mem_append.mp ht with ht | ht
    · exact h.below t ht
    · exact List.mem_singleton.mp ht ▸ hsize
  origin := List.mem_append_left _ h.origin
  start := (raise_of_mem h.origin hnew).trans h.start
  sorted := by
    rw [List.pairwise_append]
    refine ⟨?_, by simp, ?_⟩
    · exact h.sorted.imp_of_mem fun ht hw hle => by
        rwa [raise_of_mem ht hnew, raise_of_mem hw hnew]
    · intro t ht w hw
      rw [List.mem_singleton.mp hw, raise_self, raise_of_mem ht hnew]
      exact hspan t ht
  early := by
    intro i t hi
    rcases Nat.lt_or_ge i tiles.length with hlt | hge
    · rw [List.getElem?_append_left hlt] at hi
      rw [raise_of_mem (List.mem_of_getElem? hi) hnew]
      exact h.early i t hi
    · rw [List.getElem?_append_right hge] at hi
      have hlast := List.mem_singleton.mp (List.mem_of_getElem? hi)
      obtain ⟨j, hj⟩ := List.getElem?_of_mem hu
      obtain ⟨hjlt, _⟩ := List.getElem?_eq_some_iff.mp hj
      have := h.early j u hj
      rw [hlast, raise_self]
      omega
  walked := by
    intro t ht
    rcases List.mem_append.mp ht with ht | ht
    · obtain ⟨ts, hw, hl⟩ := h.walked t ht
      exact ⟨ts, hw, by rw [raise_of_mem ht hnew, hl]⟩
    · obtain ⟨ts, hw, hl⟩ := h.walked u hu
      obtain rfl := List.mem_singleton.mp ht
      exact ⟨ts ++ [t], hw.on hv, by simp [raise_self, hl]⟩

end Discovery

/-- A search between two turns. -/
structure Frontier (onward : Nat → List Nat) (size o : Nat) (fits : Nat → Prop)
    (level : Nat → Nat) (done waiting : List Nat) : Prop
    extends Discovery onward size o level (done ++ waiting) where
  span : ∀ f ∈ waiting.head?, ∀ t ∈ waiting, level t ≤ level f + 1
  closed : ∀ u ∈ done, ∀ v ∈ onward u, fits (level u + 1) →
    v ∈ done ++ waiting ∧ level v ≤ level u + 1

/-- A search in the middle of a turn: the neighbours `todo` of the tile last taken are left. -/
structure Scanning (onward : Nat → List Nat) (size o : Nat) (fits : Nat → Prop)
    (level : Nat → Nat) (done waiting : List Nat) (tile : Nat) (todo : List Nat) : Prop
    extends Discovery onward size o level (done ++ waiting) where
  taken : tile ∈ done
  onwards : ∀ v ∈ todo, v ∈ onward tile
  span : ∀ t ∈ done ++ waiting, level t ≤ level tile + 1
  closed : ∀ u ∈ done, ∀ v ∈ onward u, fits (level u + 1) →
    (u = tile ∧ v ∈ todo) ∨ v ∈ done ++ waiting ∧ level v ≤ level u + 1

section

variable {onward : Nat → List Nat} {size o tile next : Nat} {fits : Nat → Prop}
  {level : Nat → Nat} {done waiting rest later : List Nat}

namespace Frontier

theorem first (ho : o < size) (hl : level o = 0) : Frontier onward size o fits level [] [o] where
  toDiscovery := .first ho hl
  span := by
    intro f hf t ht
    obtain rfl : o = f := by simpa using hf
    rw [List.mem_singleton.mp ht]
    omega
  closed := by simp

theorem take (h : Frontier onward size o fits level done (tile :: rest)) :
    Scanning onward size o fits level (done ++ [tile]) rest tile (onward tile) where
  toDiscovery := by simpa using h.toDiscovery
  taken := by simp
  onwards := fun _ hv => hv
  span := by
    intro t ht
    obtain ⟨_, _, hle⟩ := List.pairwise_append.mp h.sorted
    simp only [List.append_assoc, List.singleton_append, List.mem_append] at ht
    rcases ht with ht | ht
    · have := hle t ht tile (by simp)
      omega
    · exact h.span tile (by simp) t ht
  closed := by
    intro u hu v hv hf
    rcases List.mem_append.mp hu with hu | hu
    · simpa using Or.inr (h.closed u hu v hv hf)
    · exact .inl ⟨List.mem_singleton.mp hu, List.mem_singleton.mp hu ▸ hv⟩

/-- A walk to a tile that was not reached in so many steps passes through the tiles that wait. -/
theorem covers (h : Frontier onward size o fits level done waiting)
    (hfits : ∀ n, fits (n + 1) → fits n) {ts : List Nat} {t : Nat} (hw : Walk onward o ts t)
    (hf : fits ts.length) :
    (t ∈ done ++ waiting ∧ level t ≤ ts.length) ∨ ∃ f ∈ waiting, level f < ts.length := by
  have hdown : ∀ {m n}, m ≤ n → fits n → fits m := by
    intro m n hle
    induction hle with
    | refl => exact id
    | step _ ih => exact fun hn => ih (hfits _ hn)
  induction hw with
  | here => exact .inl ⟨h.origin, by simp [h.start]⟩
  | @on ts u v _ hv ih =>
    simp only [List.length_append, List.length_singleton] at hf ⊢
    rcases ih (hfits _ hf) with ⟨hu, hle⟩ | ⟨f, hm, hlt⟩
    · rcases List.mem_append.mp hu with hu | hu
      · obtain ⟨hreached, hstep⟩ := h.closed u hu v hv (hdown (by omega) hf)
        exact .inl ⟨hreached, by omega⟩
      · exact .inr ⟨u, hu, by omega⟩
    · exact .inr ⟨f, hm, by omega⟩

/-- When nothing waits, every tile to which a walk leads was reached by a shortest one. -/
theorem covers_of_done (h : Frontier onward size o fits level done [])
    (hfits : ∀ n, fits (n + 1) → fits n) {ts : List Nat} {t : Nat} (hw : Walk onward o ts t)
    (hf : fits ts.length) : t ∈ done ∧ level t ≤ ts.length := by
  rcases h.covers hfits hw hf with h | ⟨f, hm, _⟩
  · simpa using h
  · exact absurd hm (by simp)

/-- So was the tile that is about to be taken. -/
theorem covers_of_front (h : Frontier onward size o fits level done (tile :: rest))
    (hfits : ∀ n, fits (n + 1) → fits n) {ts : List Nat} (hw : Walk onward o ts tile)
    (hf : fits ts.length) : level tile ≤ ts.length := by
  rcases h.covers hfits hw hf with ⟨_, hle⟩ | ⟨f, hm, hlt⟩
  · exact hle
  · obtain ⟨_, hsorted, _⟩ := List.pairwise_append.mp h.sorted
    rcases List.mem_cons.mp hm with rfl | hm
    · omega
    · have := List.rel_of_pairwise_cons hsorted hm
      omega

end Frontier

namespace Scanning

/-- A neighbour that was reached before, or whose level would not fit, is passed over. -/
theorem skip (h : Scanning onward size o fits level done waiting tile (next :: later))
    (hold : fits (level tile + 1) → next ∈ done ++ waiting) :
    Scanning onward size o fits level done waiting tile later where
  toDiscovery := h.toDiscovery
  taken := h.taken
  onwards := fun v hv => h.onwards v (List.mem_cons_of_mem _ hv)
  span := h.span
  closed := by
    intro u hu v hv hf
    rcases h.closed u hu v hv hf with ⟨rfl, hm⟩ | hr
    · rcases List.mem_cons.mp hm with rfl | hm
      · exact .inr ⟨hold hf, h.span _ (hold hf)⟩
      · exact .inl ⟨rfl, hm⟩
    · exact .inr hr

/-- A new neighbour is one step further away than the tile taken, and waits behind the others. -/
theorem reach (h : Scanning onward size o fits level done waiting tile (next :: later))
    (hsize : next < size) (hnew : next ∉ done ++ waiting) :
    Scanning onward size o fits (raise level tile next) done (waiting ++ [next]) tile later := by
  have hkeep : ∀ t ∈ done ++ waiting, raise level tile next t = level t :=
    fun t ht => raise_of_mem ht hnew
  have htile := hkeep tile (List.mem_append_left _ h.taken)
  have hgrown := h.toDiscovery.grow (List.mem_append_left _ h.taken) (h.onwards next (by simp))
    hsize hnew h.span
  rw [List.append_assoc] at hgrown
  refine ⟨hgrown, h.taken, fun v hv => h.onwards v (List.mem_cons_of_mem _ hv), ?_, ?_⟩
  · intro t ht
    rw [← List.append_assoc] at ht
    rcases List.mem_append.mp ht with ht | ht
    · rw [hkeep t ht, htile]
      exact h.span t ht
    · apply Nat.le_of_eq
      rw [List.mem_singleton.mp ht, raise_self, htile]
  · intro u hu v hv hf
    have hul := hkeep u (List.mem_append_left _ hu)
    rw [hul] at hf ⊢
    rw [← List.append_assoc]
    rcases h.closed u hu v hv hf with ⟨rfl, hm⟩ | ⟨hr, hle⟩
    · rcases List.mem_cons.mp hm with rfl | hm
      · exact .inr ⟨by simp, Nat.le_of_eq raise_self⟩
      · exact .inl ⟨rfl, hm⟩
    · exact .inr ⟨List.mem_append_left _ hr, by rw [hkeep v hr]; exact hle⟩

/-- The turn is over when no neighbour is left. -/
theorem finish (h : Scanning onward size o fits level done waiting tile []) :
    Frontier onward size o fits level done waiting where
  toDiscovery := h.toDiscovery
  span := by
    intro f hf t ht
    obtain ⟨_, _, hle⟩ := List.pairwise_append.mp h.sorted
    have := hle tile h.taken f (List.mem_of_mem_head? hf)
    have := h.span t (List.mem_append_right _ ht)
    omega
  closed := by
    intro u hu v hv hf
    rcases h.closed u hu v hv hf with ⟨_, hm⟩ | hr
    · exact absurd hm (by simp)
    · exact hr

end Scanning

end

end HexSkirmish
