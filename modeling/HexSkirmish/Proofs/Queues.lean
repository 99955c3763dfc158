import HexSkirmish.Proofs.Addresses
import HexSkirmish.Proofs.FlowBuffers
import HexSkirmish.Proofs.Slots

/-! The two searches as loops over a queue, which count no turns and stop by themselves. Every access to
an array is checked here, and every tile that ever waits or is taken is written down. A tile waits once
at most, so the loops end, no access lies outside an array, and what they leave behind is what the
searches with a number of turns leave behind. The walk back from the goal of a route ends too, as each
tile remembers one that was reached in fewer steps. -/

namespace HexSkirmish

/-- A turn for one of the tiles that are left leaves one turn less. -/
theorem turns_left {size tile : Nat} {done rest : List Nat}
    (hroom : (done ++ tile :: rest).length ≤ size) :
    size - done.length = (size - (done ++ [tile]).length) + 1 := by
  simp only [List.length_append, List.length_cons, List.length_nil] at hroom ⊢
  omega

/-! ### Searches through a queue -/

/-- A search that keeps a mark for each tile. A tile that is taken offers a mark to the tiles to which it
leads, and those that accept it wait in turn. -/
structure QueueSearch (α : Type) where
  onward? : Nat → Option (List Nat)
  offer? : Nat → Array α → Option α
  accepts : α → α → Bool
  stop : Nat → Bool

namespace QueueSearch

/-- A search between two turns, with all the tiles that have waited and all that were taken so far. -/
structure Moment (α : Type) where
  marks : Array α
  waiting : List Nat
  queued : List Nat
  taken : List Nat
  halted : Bool

/-- The first moment, at which only the origin waits. -/
def Moment.first {α : Type} (marks : Array α) (origin : Nat) : Moment α :=
  ⟨marks, [origin], [origin], [], false⟩

/-- No tile has waited twice, all are tiles of the board, and they are taken in the order in which they
came to wait. -/
structure Moment.Orderly {α : Type} (size : Nat) (m : Moment α) : Prop where
  once : m.queued.Nodup
  below : ∀ t ∈ m.queued, t < size
  order : m.queued = m.taken ++ m.waiting
  size_eq : m.marks.size = size

theorem Moment.Orderly.length_taken_le {α : Type} {size : Nat} {m : Moment α} (h : m.Orderly size) :
    m.taken.length ≤ size := by
  have hqueued := length_le_of_below h.once h.below
  rw [h.order, List.length_append] at hqueued
  omega

variable {α : Type} (w : QueueSearch α)

/-- Offers a mark to tiles, and lists those that accept it. Fails if one of them has no mark. -/
def offerAll? (mark : α) : List Nat → Array α → Option (Array α × List Nat)
  | [], marks => some (marks, [])
  | next :: later, marks => do
    let held ← marks[next]?
    if w.accepts mark held then
      let (marks, reached) ← offerAll? mark later (marks.setIfInBounds next mark)
      return (marks, next :: reached)
    else offerAll? mark later marks

def turn? (tile : Nat) (marks : Array α) : Option (Array α × List Nat) := do
  let todo ← w.onward? tile
  let mark ← w.offer? tile marks
  w.offerAll? mark todo marks

/-- Takes the tile that waits longest. Halts if there is none or if it is the one to stop at. -/
def step? (m : Moment α) : Option (Moment α) :=
  match m.waiting with
  | [] => some { m with halted := true }
  | tile :: rest =>
    if w.stop tile then
      some { m with waiting := rest, taken := m.taken ++ [tile], halted := true }
    else do
      let (marks, reached) ← w.turn? tile m.marks
      return ⟨marks, rest ++ reached, m.queued ++ reached, m.taken ++ [tile], false⟩

/-- The moment after so many steps, or the one at which the search halted before. -/
def after? : Nat → Moment α → Option (Moment α)
  | 0, m => some m
  | n + 1, m => if m.halted then some m else (w.step? m).bind (after? n)

/-- What holds between two turns and is kept by each of them. It leaves room for every tile once. -/
structure Keeps (size : Nat) (P : List Nat → List Nat → Array α → Prop) : Prop where
  room : ∀ taken waiting marks, P taken waiting marks →
    (taken ++ waiting).Nodup ∧ (∀ t ∈ taken ++ waiting, t < size) ∧ marks.size = size
  turn : ∀ taken tile rest marks, P taken (tile :: rest) marks → w.stop tile = false →
    ∃ marks' reached, w.turn? tile marks = some (marks', reached) ∧
      P (taken ++ [tile]) (rest ++ reached) marks'

/-- How a search ends: nothing waits, or the tile to stop at comes next. -/
def Ends (P : List Nat → List Nat → Array α → Prop) (marks : Array α) : Prop :=
  ∃ taken waiting, P taken waiting marks ∧ ∀ tile ∈ waiting.head?, w.stop tile = true

variable {w} {size : Nat} {P : List Nat → List Nat → Array α → Prop} {m : Moment α}

theorem after?_halted (h : m.halted = true) (n : Nat) : w.after? n m = some m := by
  cases n <;> simp [after?, h]

/-- A search that has not halted, and what holds of it. -/
structure Moment.Goes (P : List Nat → List Nat → Array α → Prop) (m : Moment α) : Prop where
  going : m.halted = false
  order : m.queued = m.taken ++ m.waiting
  holds : P m.taken m.waiting m.marks

theorem Keeps.orderly (h : w.Keeps size P) (hm : m.Goes P) : m.Orderly size := by
  obtain ⟨hnodup, hbelow, hsize⟩ := h.room _ _ _ hm.holds
  exact ⟨hm.order ▸ hnodup, hm.order ▸ hbelow, hm.order, hsize⟩

/-- No access of a step fails. The search halts with it or has taken one tile more. -/
theorem Keeps.exists_step (h : w.Keeps size P) (hm : m.Goes P) :
    ∃ m', w.step? m = some m' ∧ m'.Orderly size ∧
      (m'.halted = true ∧ w.Ends P m'.marks ∨
        m'.Goes P ∧ m'.taken.length = m.taken.length + 1) := by
  obtain ⟨hqueued, hbelow, horder, hsize⟩ := h.orderly hm
  have hP := hm.holds
  obtain ⟨marks, waiting, queued, taken, halted⟩ := m
  cases waiting with
  | nil =>
    exact ⟨⟨marks, [], queued, taken, true⟩, rfl, ⟨hqueued, hbelow, horder, hsize⟩,
      .inl ⟨rfl, taken, [], hP, by simp⟩⟩
  | cons tile rest =>
    have hnext : queued = (taken ++ [tile]) ++ rest := by simpa using horder
    by_cases hstop : w.stop tile = true
    · exact ⟨⟨marks, rest, queued, taken ++ [tile], true⟩, by simp [step?, hstop],
        ⟨hqueued, hbelow, hnext, hsize⟩, .inl ⟨rfl, taken, tile :: rest, hP, by simpa using hstop⟩⟩
    · obtain ⟨marks', reached, hturn, hP'⟩ := h.turn taken tile rest marks hP (by simpa using hstop)
      have hgoes : Moment.Goes P
          ⟨marks', rest ++ reached, queued ++ reached, taken ++ [tile], false⟩ :=
        ⟨rfl, by simp [hnext], hP'⟩
      exact ⟨_, by simp [step?, hstop, hturn], h.orderly hgoes, .inr ⟨hgoes, by simp⟩⟩

/-- After any number of steps no access has failed, and after more steps than there are tiles left the
search has halted. -/
theorem Keeps.exists_after (h : w.Keeps size P) (n : Nat) : ∀ m : Moment α, m.Goes P →
    ∃ m', w.after? n m = some m' ∧ m'.Orderly size ∧
      (size < m.taken.length + n → m'.halted = true) ∧ (m'.halted = true → w.Ends P m'.marks) := by
  -- A step that does not halt takes one tile more, and no more can be taken than there are.
  induction n with
  | zero =>
    intro m hm
    have horderly := h.orderly hm
    have hfew := horderly.length_taken_le
    exact ⟨m, rfl, horderly, fun hlate => by omega, fun hhalted => by simp [hm.going] at hhalted⟩
  | succ n ih =>
    intro m hm
    obtain ⟨m₁, hstep, horderly, ⟨hhalted, hends⟩ | ⟨hgoes, hlen⟩⟩ := h.exists_step hm
    · exact ⟨m₁, by simp [after?, hm.going, hstep, after?_halted hhalted], horderly,
        fun _ => hhalted, fun _ => hends⟩
    · obtain ⟨m', hafter, horderly, hlate, hends⟩ := ih m₁ hgoes
      exact ⟨m', by simpa [after?, hm.going, hstep] using hafter, horderly,
        fun hn => hlate (by omega), hends⟩

theorem Keeps.exists_after_first {marks : Array α} {o : Nat} (h : w.Keeps size P) (hP : P [] [o] marks)
    (n : Nat) : ∃ m, w.after? n (.first marks o) = some m ∧ m.Orderly size ∧
      m.taken.length ≤ size ∧ (size < n → m.halted = true) ∧
      (m.halted = true → w.Ends P m.marks) := by
  obtain ⟨m, hafter, horderly, hlate, hends⟩ := h.exists_after n (.first marks o) ⟨rfl, rfl, hP⟩
  exact ⟨m, hafter, horderly, horderly.length_taken_le, by simpa [Moment.first] using hlate, hends⟩

/-- Offers to tiles that have a mark do not fail, and are what the same offers are without the checks. -/
theorem offerAll?_eq {mark : α} {spread : List Nat → Array α → Array α × List Nat}
    (hnil : ∀ marks, spread [] marks = (marks, []))
    (hcons : ∀ next later marks held, marks[next]? = some held → spread (next :: later) marks =
      if w.accepts mark held then
        ((spread later (marks.setIfInBounds next mark)).1,
          next :: (spread later (marks.setIfInBounds next mark)).2)
      else spread later marks) (todo : List Nat) :
    ∀ marks : Array α, (∀ v ∈ todo, v < marks.size) →
      w.offerAll? mark todo marks = some (spread todo marks) := by
  induction todo with
  | nil =>
    intro marks _
    rw [offerAll?, hnil]
  | cons next later ih =>
    intro marks hbelow
    have hnext : next < marks.size := hbelow next (by simp)
    have hlater : ∀ v ∈ later, v < marks.size := fun v hv => hbelow v (List.mem_cons_of_mem _ hv)
    have hread : marks[next]? = some marks[next] := Array.getElem?_eq_getElem hnext
    simp only [offerAll?, hread, Option.bind_eq_bind, Option.bind_some]
    rw [hcons next later marks _ hread]
    by_cases haccepts : w.accepts mark marks[next] = true
    · have hrest := ih (marks.setIfInBounds next mark) (by simpa using hlater)
      simp [haccepts, hrest]
    · simp [haccepts, ih marks hlater]

end QueueSearch

/-! ### The edge table with its accesses checked -/

namespace EdgeTable

variable {l : Layout} {tiles : Array Tile} {o i : Nat}

/-- Where a search goes on from a tile: to the slots below the mark for no neighbour. Fails if the table
has no row for the tile. -/
def onward? (e : EdgeTable) (origin i : Nat) : Option (List Nat) := do
  let slots ← e.slotNumbers? i
  let free ← e.passable[i]?
  return if i = origin ∨ free = true then slots.filter fun j => decide (j < e.noNeighbor) else []

theorem onward?_build (hsize : tiles.size = l.tileCount) (hi : i < l.tileCount) :
    (build l tiles).onward? o i = some ((build l tiles).onward o i) := by
  have hpassable : (build l tiles).passable[i]? = some (isPassable tiles i) := by
    simp [build, isPassable, hsize, hi]
  have hexits : (build l tiles).slotNumbers? i = some _ := slotNumbers?_build (hsize ▸ hi)
  rw [onward?, onward, neighbors, isOpen_build, exits_build hsize, hpassable, hexits]
  by_cases ho : i = o <;> simp [ho]

end EdgeTable

/-! ### Routes -/

namespace RouteSearch

variable {onward? : Nat → Option (List Nat)} {onward : Nat → List Nat} {size o goal t : Nat}
  {level : Nat → Nat} {done waiting ts : List Nat} {cameFrom : Array (Option Nat)}

/-- The loop over the queue: a tile accepts to remember another one if it does not remember any. -/
def loop (onward? : Nat → Option (List Nat)) (goal : Nat) : QueueSearch (Option Nat) where
  onward? := onward?
  offer? tile _ := some (some tile)
  accepts _ held := held.isNone
  stop tile := tile == goal

theorem loop_turn? {tile : Nat} (honward : onward? tile = some (onward tile))
    (hbelow : ∀ v ∈ onward tile, v < cameFrom.size) :
    (loop onward? goal).turn? tile cameFrom = some (spread tile (onward tile) cameFrom) := by
  have hoffers : (loop onward? goal).offerAll? (some tile) (onward tile) cameFrom =
      some (spread tile (onward tile) cameFrom) := by
    refine QueueSearch.offerAll?_eq (fun _ => rfl) ?_ (onward tile) cameFrom hbelow
    intro next later marks held hheld
    simp [spread, loop, hheld]
  simpa [QueueSearch.turn?, loop, honward] using hoffers

/-- What is left of the search from here on leads to where the whole of it leads. -/
def Going (onward : Nat → List Nat) (size o goal : Nat) (done waiting : List Nat)
    (cameFrom : Array (Option Nat)) : Prop :=
  (∃ level, Searching onward size o level done ⟨cameFrom, waiting⟩) ∧
    seek onward goal (size - done.length) ⟨cameFrom, waiting⟩ = run onward size o goal

theorem loop_keeps (honward : ∀ u < size, onward? u = some (onward u))
    (hbound : ∀ u, ∀ v ∈ onward u, v < size) :
    (loop onward? goal).Keeps size (Going onward size o goal) where
  room := fun _ _ _ ⟨⟨_, h⟩, _⟩ => ⟨h.frontier.nodup, h.frontier.below, h.size_eq⟩
  turn := by
    rintro done tile rest cameFrom ⟨⟨level, h⟩, hrun⟩ hstop
    have htile : tile < size := h.frontier.below tile (by simp)
    have hgoal : tile ≠ goal := by simpa [loop] using hstop
    refine ⟨_, _, loop_turn? (honward tile htile) (h.size_eq ▸ hbound tile), h.turn hbound, ?_⟩
    rw [turns_left h.frontier.length_le] at hrun
    simpa [seek, hgoal] using hrun

theorem going_first (ho : o < size) :
    Going onward size o goal [] [o] (start size o).cameFrom :=
  ⟨⟨_, .first ho⟩, rfl⟩

theorem seek_ended {s : RouteSearch} (h : ∀ tile ∈ s.waiting.head?, tile = goal) (n : Nat) :
    seek onward goal n s = s := by
  obtain ⟨cameFrom, waiting⟩ := s
  cases waiting with
  | nil => cases n <;> rfl
  | cons tile rest =>
    have hgoal : tile = goal := h tile (by simp)
    cases n <;> simp [seek, hgoal]

theorem loop_ends (h : (loop onward? goal).Ends (Going onward size o goal) cameFrom) :
    ∃ level done waiting, Searching onward size o level done ⟨cameFrom, waiting⟩ ∧
      (run onward size o goal).cameFrom = cameFrom := by
  obtain ⟨done, waiting, ⟨⟨level, hsearch⟩, hrun⟩, hlast⟩ := h
  refine ⟨level, done, waiting, hsearch, ?_⟩
  rw [← hrun, seek_ended (by simpa [loop] using hlast)]

/-! ### The walk back -/

/-- The tiles from which the walk back goes on, from a tile to the origin: each remembers the one to
which the walk goes from there. -/
inductive Retraced (cameFrom : Array (Option Nat)) (o : Nat) : Nat → List Nat → Prop
  | home : Retraced cameFrom o o []
  | back {cursor before : Nat} {ts : List Nat} (away : cursor ≠ o)
      (read : cameFrom[cursor]? = some (some before)) (rest : Retraced cameFrom o before ts) :
      Retraced cameFrom o cursor (cursor :: ts)

theorem Retraced.lt_size (h : Retraced cameFrom o t ts) : ∀ i ∈ ts, i < cameFrom.size := by
  induction h with
  | home => simp
  | back _ hread _ ih =>
    intro i hi
    rcases List.mem_cons.mp hi with rfl | hi
    · exact (Array.getElem?_eq_some_iff.mp hread).1
    · exact ih i hi

/-- The walk back from a tile over some steps, which are listed in the order in which the route makes
them. -/
structure Returns (cameFrom : Array (Option Nat)) (o : Nat) (level : Nat → Nat) (us : List Nat)
    (t : Nat) : Prop where
  retraced : Retraced cameFrom o t us.reverse
  once : (o :: us).Nodup
  upTo : ∀ u ∈ o :: us, level u ≤ level t
  length_eq : us.length = level t

/-- The level falls with each step back, so the walk comes to no tile twice. -/
theorem Returns.on {us : List Nat} {before : Nat} (h : Returns cameFrom o level us before)
    (haway : t ≠ o) (hread : cameFrom[t]? = some (some before)) (hlevel : level t = level before + 1) :
    Returns cameFrom o level (us ++ [t]) t := by
  have hnew : t ∉ o :: us := fun hm => by
    have := h.upTo t hm
    omega
  refine ⟨by simpa using h.retraced.back haway hread, ?_, fun u hu => ?_, by simp [h.length_eq, hlevel]⟩
  · rw [← List.cons_append]
    exact List.nodup_append.mpr ⟨h.once, by simp, fun u hu v hv e =>
      hnew (List.mem_singleton.mp hv ▸ e ▸ hu)⟩
  · rcases List.mem_append.mp (show u ∈ (o :: us) ++ [t] from hu) with hu | hu
    · have := h.upTo u hu
      omega
    · rw [List.mem_singleton.mp hu]

theorem trail_retraced (hr : Remembers onward size o level done waiting cameFrom)
    (hstart : level o = 0) (n : Nat) (ht : t ∈ done ++ waiting) (hn : level t ≤ n) :
    ∃ ts, Retraced cameFrom o t ts ∧ (ts ++ [o]).Nodup ∧ ts.length ≤ n ∧
      trail cameFrom o (n + 1) t [] = ts.reverse := by
  have hhome : Returns cameFrom o level [] o := ⟨.home, by simp, by simp, by simp [hstart]⟩
  obtain ⟨us, htrail, hreturns⟩ := trail_induction hr hhome
    (fun _ _ _ _ haway _ hread _ hlevel h => h.on haway hread hlevel) n t [] ht hn
  refine ⟨us.reverse, hreturns.retraced, ?_, ?_, by simpa using htrail⟩
  · rw [← List.reverse_cons]
    exact List.nodup_reverse.mpr hreturns.once
  · rw [List.length_reverse, hreturns.length_eq]
    exact hn

/-- What the search leaves at the goal decides: it is unmarked and there is no route, or the walk back
from it ends at the origin and is the route, read backwards. -/
theorem loop_result (hgoal : goal < size)
    (h : (loop onward? goal).Ends (Going onward size o goal) cameFrom) :
    (cameFrom[goal]? = some none ∧ tiles? onward size o goal = none) ∨
      ∃ before ts, cameFrom[goal]? = some (some before) ∧ Retraced cameFrom o goal ts ∧
        (ts ++ [o]).Nodup ∧ (∀ i ∈ ts, i < size) ∧ ts.length ≤ size - 1 ∧
        tiles? onward size o goal = some ts.reverse := by
  obtain ⟨level, done, waiting, ⟨hf, hr, hsize⟩, hrun⟩ := loop_ends h
  have hlt : goal < cameFrom.size := by simpa [hsize] using hgoal
  have hread : cameFrom[goal]? = some cameFrom[goal] := Array.getElem?_eq_getElem hlt
  cases hmark : cameFrom[goal] with
  | none =>
    rw [hmark] at hread
    exact .inl ⟨hread, by simp [tiles?, hrun, hread]⟩
  | some before =>
    rw [hmark] at hread
    have hreached : goal ∈ done ++ waiting :=
      (hr.mem_iff hf.below hsize goal).mp (by simp [hread])
    have hlevel := hf.level_lt hreached
    obtain ⟨ts, hback, hnodup, hlen, htrail⟩ :=
      trail_retraced hr hf.start (size - 1) hreached (by omega)
    rw [Nat.sub_add_cancel (by omega)] at htrail
    exact .inr ⟨before, ts, hread, hback, hnodup, hsize ▸ hback.lt_size, hlen,
      by simp [tiles?, hrun, hread, htrail]⟩

end RouteSearch

/-! ### Flow fields -/

namespace FlowSearch

variable {onward? : Nat → Option (List Nat)} {onward : Nat → List Nat} {limit size o : Nat}
  {distances : Array Nat}

/-- The loop over the queue: a tile accepts fewer steps than it holds. -/
def loop (onward? : Nat → Option (List Nat)) (limit : Nat) : QueueSearch Nat where
  onward? := onward?
  offer? tile distances := distances[tile]?.map fun held => min (held + 1) limit
  accepts steps held := decide (steps < held)
  stop _ := false

theorem loop_turn? {tile held : Nat} (honward : onward? tile = some (onward tile))
    (hheld : distances[tile]? = some held) (hbelow : ∀ v ∈ onward tile, v < distances.size) :
    (loop onward? limit).turn? tile distances =
      some (spread (min (held + 1) limit) (onward tile) distances) := by
  have hoffers : (loop onward? limit).offerAll? (min (held + 1) limit) (onward tile) distances =
      some (spread (min (held + 1) limit) (onward tile) distances) := by
    refine QueueSearch.offerAll?_eq (fun _ => rfl) ?_ (onward tile) distances hbelow
    intro next later distances held' hheld'
    simp [spread, loop, hheld']
  simpa [QueueSearch.turn?, loop, honward, hheld] using hoffers

/-- What is left of the search from here on leads to where the whole of it leads. -/
def Going (onward : Nat → List Nat) (limit size o : Nat) (done waiting : List Nat)
    (distances : Array Nat) : Prop :=
  (∃ level, Flooding onward limit size o level done ⟨distances, waiting⟩) ∧
    (flood onward limit (size - done.length) ⟨distances, waiting⟩).distances =
      field onward limit size o

theorem loop_keeps (honward : ∀ u < size, onward? u = some (onward u))
    (hbound : ∀ u, ∀ v ∈ onward u, v < size) :
    (loop onward? limit).Keeps size (Going onward limit size o) where
  room := fun _ _ _ ⟨⟨_, h⟩, _⟩ => ⟨h.frontier.nodup, h.frontier.below, h.size_eq⟩
  turn := by
    rintro done tile rest distances ⟨⟨level, h⟩, hrun⟩ -
    have htile : tile < size := h.frontier.below tile (by simp)
    obtain ⟨hheld, hnext⟩ := h.turn hbound
    refine ⟨_, _, loop_turn? (honward tile htile) hheld (h.size_eq ▸ hbound tile), hnext, ?_⟩
    rw [turns_left h.frontier.length_le] at hrun
    simpa [flood, hheld] using hrun

theorem going_first (hlimit : 0 < limit) (ho : o < size) :
    Going onward limit size o [] [o] (start limit size o).distances :=
  ⟨⟨_, .first hlimit ho⟩, rfl⟩

theorem loop_result (h : (loop onward? limit).Ends (Going onward limit size o) distances) :
    distances = field onward limit size o := by
  obtain ⟨done, waiting, ⟨-, hrun⟩, hlast⟩ := h
  have hnone : waiting = [] := List.head?_eq_none_iff.mp
    (Option.eq_none_iff_forall_not_mem.mpr fun tile ht => Bool.false_ne_true (hlast tile ht))
  rw [← hrun, hnone]
  cases size - done.length <;> rfl

end FlowSearch

/-! ### Boards -/

namespace Grid

open QueueSearch

variable {g : Grid} {a b : Coord} {s t : Nat} {buffer : Array Nat}

/-- The search for a route from one tile to another after so many steps. -/
def routeAfter? (g : Grid) (s t n : Nat) : Option (Moment (Option Nat)) :=
  (RouteSearch.loop (g.currentEdges.onward? s) t).after? n
    (.first (RouteSearch.start g.currentEdges.tileCount s).cameFrom s)

/-- The search that writes the flow field of a tile into a buffer, after so many steps. -/
def flowAfter? (g : Grid) (s : Nat) (buffer : Array Nat) (n : Nat) : Option (Moment Nat) :=
  (FlowSearch.loop (g.currentEdges.onward? s) unreachable).after? n
    (.first ((buffer.map fun _ => unreachable).setIfInBounds s 0) s)

theorem currentEdges_tileCount (h : g.Current) : g.currentEdges.tileCount = g.layout.tileCount := by
  rw [currentEdges_eq h, ← g.size_eq]
  exact EdgeTable.noNeighbor_build

theorem onward?_eq (h : g.Current) (o : Nat) :
    ∀ u < g.layout.tileCount, g.currentEdges.onward? o u = some (g.onward o u) := by
  intro u hu
  rw [onward, currentEdges_eq h]
  exact EdgeTable.onward?_build g.size_eq hu

theorem routeAfter?_spec (h : g.Current) (hs : g.layout.index? a = some s)
    (ht : g.layout.index? b = some t) (hne : a ≠ b) (n : Nat) :
    ∃ m, g.routeAfter? s t n = some m ∧ m.Orderly g.layout.tileCount ∧
      m.taken.length ≤ g.layout.tileCount ∧ (g.layout.tileCount < n → m.halted = true) ∧
      (m.halted = true → (m.marks[t]? = some none ∧ g.route a b = .missing a b) ∨
        ∃ before ts, m.marks[t]? = some (some before) ∧ RouteSearch.Retraced m.marks s t ts ∧
          (ts ++ [s]).Nodup ∧ (∀ i ∈ ts, i < g.layout.tileCount) ∧
          ts.length ≤ g.layout.tileCount - 1 ∧ g.route a b = .found a b ts.reverse) := by
  have hkeeps : (RouteSearch.loop (g.currentEdges.onward? s) t).Keeps g.layout.tileCount
      (RouteSearch.Going (g.onward s) g.layout.tileCount s t) :=
    RouteSearch.loop_keeps (onward?_eq h s) (onward_lt h s)
  obtain ⟨m, hafter, horderly, hfew, hlate, hends⟩ :=
    hkeeps.exists_after_first (RouteSearch.going_first (Layout.index?_lt hs)) n
  rw [routeAfter?, currentEdges_tileCount h]
  refine ⟨m, hafter, horderly, hfew, hlate, fun hhalted => ?_⟩
  rw [route_eq_search hs ht hne]
  rcases RouteSearch.loop_result (Layout.index?_lt ht) (hends hhalted) with
    ⟨hmark, htiles⟩ | ⟨before, ts, hmark, hback, honce, hbelow, hlen, htiles⟩
  · exact .inl ⟨hmark, by rw [htiles]⟩
  · exact .inr ⟨before, ts, hmark, hback, honce, hbelow, hlen, by rw [htiles]⟩

theorem flowAfter?_spec (h : g.Current) (hs : g.layout.index? a = some s)
    (hsize : buffer.size = g.layout.tileCount) (n : Nat) :
    ∃ m, g.flowAfter? s buffer n = some m ∧ m.Orderly g.layout.tileCount ∧
      m.taken.length ≤ g.layout.tileCount ∧ (g.layout.tileCount < n → m.halted = true) ∧
      (m.halted = true → g.writeFlow a buffer = (.ok (), m.marks)) := by
  have hkeeps : (FlowSearch.loop (g.currentEdges.onward? s) unreachable).Keeps g.layout.tileCount
      (FlowSearch.Going (g.onward s) unreachable g.layout.tileCount s) :=
    FlowSearch.loop_keeps (onward?_eq h s) (onward_lt h s)
  obtain ⟨m, hafter, horderly, hfew, hlate, hends⟩ :=
    hkeeps.exists_after_first (FlowSearch.going_first (by decide) (Layout.index?_lt hs)) n
  have hcleared : (buffer.map fun _ => unreachable).setIfInBounds s 0 =
      (FlowSearch.start unreachable g.layout.tileCount s).distances := by
    rw [Array.map_const', hsize, FlowSearch.start]
  rw [flowAfter?, hcleared]
  refine ⟨m, hafter, horderly, hfew, hlate, fun hhalted => ?_⟩
  rw [FlowSearch.loop_result (hends hhalted), writeFlow_eq]
  simp [flowInto, checkSize, hsize, Except.map, flow, flowOver, hs, onward]

/-- The searches end and stay inside their arrays, on every board and whether or not its edge table is
stale. Between two cells of the board, the loop of the search for a route and that of the flow field can
make any number of steps, and no access to the edge table or to a mark fails. No tile waits twice, all
that wait are tiles of the board, and no more are taken than there are; once more steps were made than
that, the loop has halted. If the goal of a route is unmarked then, there is no route; otherwise the walk
back from it finds at each tile another one, comes to the start after fewer steps than there are tiles,
meets no tile twice, and what it met is the route. The flow field is what the marks are then. No tile has
the greatest word of 64 bits for its number, which could stand for an unmarked one. -/
theorem searches_halt (h : g.Reached) :
    g.currentEdges.tileCount = g.layout.tileCount ∧
      g.layout.tileCount < 18446744073709551615 ∧
      (∀ a b s t n, a ≠ b → g.layout.index? a = some s → g.layout.index? b = some t →
        ∃ m, g.routeAfter? s t n = some m ∧ m.Orderly g.layout.tileCount ∧
          m.taken.length ≤ g.layout.tileCount ∧ (g.layout.tileCount < n → m.halted = true) ∧
          (m.halted = true → (m.marks[t]? = some none ∧ g.route a b = .missing a b) ∨
            ∃ before ts, m.marks[t]? = some (some before) ∧ RouteSearch.Retraced m.marks s t ts ∧
              (ts ++ [s]).Nodup ∧ (∀ i ∈ ts, i < g.layout.tileCount) ∧
              ts.length ≤ g.layout.tileCount - 1 ∧ g.route a b = .found a b ts.reverse)) ∧
      (∀ a s buffer n, g.layout.index? a = some s → buffer.size = g.layout.tileCount →
        ∃ m, g.flowAfter? s buffer n = some m ∧ m.Orderly g.layout.tileCount ∧
          m.taken.length ≤ g.layout.tileCount ∧ (g.layout.tileCount < n → m.halted = true) ∧
          (m.halted = true → g.writeFlow a buffer = (.ok (), m.marks))) := by
  have hle := g.layout.tileCount_le
  exact ⟨currentEdges_tileCount h.current, by omega,
    fun a b s t n hne hs ht => routeAfter?_spec h.current hs ht hne n,
    fun a s buffer n hs hsize => flowAfter?_spec h.current hs hsize n⟩

/-- Around the wall, a way of three tiles is retraced from its goal. -/
theorem searches_halt_walled : walled.Reached ∧ ∃ m, walled.routeAfter? 0 2 65 = some m ∧
    m.halted = true ∧ m.queued.Nodup ∧ RouteSearch.Retraced m.marks 0 2 [2, 9, 8] := by
  have hroute : walled.route ⟨0, 0⟩ ⟨2, 0⟩ = .found ⟨0, 0⟩ ⟨2, 0⟩ [8, 9, 2] := by decide +kernel
  obtain ⟨_, _, hroutes, _⟩ := searches_halt walled_reached
  obtain ⟨m, hafter, horderly, _, hlate, hresult⟩ := hroutes ⟨0, 0⟩ ⟨2, 0⟩ 0 2 65 (by decide)
    (by decide +kernel) (by decide +kernel)
  have hhalted : m.halted = true := hlate (by decide +kernel)
  refine ⟨walled_reached, m, hafter, hhalted, horderly.once, ?_⟩
  rcases hresult hhalted with ⟨_, hmissing⟩ | ⟨_, ts, _, hback, _, _, _, hfound⟩
  · exact absurd (hroute.symm.trans hmissing) (by decide)
  · have htiles : ts.reverse = [8, 9, 2] := congrArg Route.tiles (hfound.symm.trans hroute)
    obtain rfl : ts = [2, 9, 8] := List.reverse_eq_iff.mp htiles
    exact hback

end Grid

end HexSkirmish
