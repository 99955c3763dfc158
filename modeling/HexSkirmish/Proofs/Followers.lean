import HexSkirmish.Locomotion
import HexSkirmish.Proofs.Numbering
import HexSkirmish.Proofs.Traversals
import Mathlib.Data.List.Induction
import Mathlib.Data.List.Nodup

/-! Actors on their way. Whatever events are handled and however time passes, no actor is on two ways
at once, and every way has points enough for a place on it to be read off. A way that is not
replaced comes to its end once: in the frame that brings the time spent on it up to what the whole
way takes. -/

namespace HexSkirmish

/-! ### Places on a way -/

namespace Follower

variable {f : Follower} {perTile : Duration} {i : Nat}

/-- The place at some progress, with every reading of a point checked. -/
def placeAt? (f : Follower) (progress : Float32) : Option Point :=
  let segment := min (Single.truncate progress).toNat (f.waypoints.length - 1 - 1)
  f.waypoints[segment]?.bind fun a =>
    f.waypoints[segment + 1]?.map fun b =>
      a.lerp b (Single.clamp (progress - Float32.ofNat segment) 0 1)

/-- The place after the time spent so far, with every reading of a point checked. -/
def place? (f : Follower) (perTile : Duration) : Option Point :=
  if perTile.nanos = 0 ∨ f.hasArrived perTile then f.waypoints[f.waypoints.length - 1]?
  else f.placeAt? (f.elapsed.asSeconds / perTile.asSeconds)

theorem getElem?_waypoints (h : i < f.waypoints.length) :
    f.waypoints[i]? = some (f.waypoint i) := by
  simp [waypoint, h]

theorem placeAt?_eq (h : 2 ≤ f.waypoints.length) (progress : Float32) :
    f.placeAt? progress =
      let segment := min (Single.truncate progress).toNat (f.waypoints.length - 1 - 1)
      some ((f.waypoint segment).lerp (f.waypoint (segment + 1))
        (Single.clamp (progress - Float32.ofNat segment) 0 1)) := by
  have hsegment : min (Single.truncate progress).toNat (f.waypoints.length - 1 - 1) + 1 <
      f.waypoints.length := by omega
  simp only [placeAt?, getElem?_waypoints hsegment,
    getElem?_waypoints (Nat.lt_of_succ_lt hsegment), Option.bind_some, Option.map_some]

/-- On a way of two points or more no reading fails. -/
theorem place?_eq (h : 2 ≤ f.waypoints.length) (perTile : Duration) :
    f.place? perTile = some (f.position perTile) := by
  have hlast : f.waypoints.length - 1 < f.waypoints.length := by omega
  simp only [place?, position]
  split
  · exact getElem?_waypoints hlast
  · exact placeAt?_eq h _

/-- Who has arrived is at the last point. -/
theorem position_of_arrived (h : f.hasArrived perTile = true) :
    f.position perTile = f.waypoints.getLast?.getD ⟨0, 0⟩ := by
  rw [position, if_pos (.inr h), waypoint, List.getLast?_eq_getElem?]

end Follower

namespace Locomotion

variable {l : Locomotion} {layout : Layout} {actor other : ActorId} {origin goal : Coord}
  {route : Route} {points : List Point} {event : Event} {events : List Event} {perTile : Duration}

/-! ### The points of a route -/

/-- The points of a route are the centres of its cells, after that of the cell where it begins. -/
theorem waypoints?_eq (layout : Layout) (origin : Coord) (route : Route) :
    waypoints? layout origin route =
      if route.isFound = false ∨ route.tiles = [] then none
      else (route.tiles.mapM layout.coordAt?).map fun cells =>
        (origin :: cells).map layout.center := by
  have hpoints : route.tiles.mapM layout.centerAt? =
      (route.tiles.mapM layout.coordAt?).map (List.map layout.center) :=
    mapM_map_eq layout.coordAt? layout.center route.tiles
  simp only [waypoints?, Bool.or_eq_true, Bool.not_eq_true', List.isEmpty_iff, hpoints,
    Option.map_map]
  rfl

/-- A route gives points if it was found, goes anywhere and stays on the board. -/
theorem waypoints?_eq_some_iff : waypoints? layout origin route = some points ↔
    route.isFound = true ∧ route.tiles ≠ [] ∧
      ∃ cells, route.tiles.map layout.coordAt? = cells.map some ∧
        points = (origin :: cells).map layout.center := by
  rw [waypoints?_eq]
  split
  · rename_i hbad
    simp only [reduceCtorEq, false_iff, not_and]
    rcases hbad with hmissing | hempty
    · simp [hmissing]
    · simp [hempty]
  · rename_i hgood
    simp only [not_or, Bool.not_eq_false] at hgood
    simp only [Option.map_eq_some_iff, mapM_eq_some_iff, hgood, ne_eq, not_false_eq_true, true_and]
    exact exists_congr fun cells => and_congr_right fun _ => eq_comm

theorem waypoints?_length (h : waypoints? layout origin route = some points) :
    points.length = route.tiles.length + 1 ∧ 2 ≤ points.length := by
  obtain ⟨_, htiles, cells, hcells, rfl⟩ := waypoints?_eq_some_iff.mp h
  have hlength : route.tiles.length = cells.length := by simpa using congrArg List.length hcells
  have hpos := List.length_pos_iff.mpr htiles
  simp only [List.map_cons, List.length_cons, List.length_map]
  omega

/-- Routes that were not found, go nowhere or leave the board give none. -/
theorem waypoints?_eq_none_iff : waypoints? layout origin route = none ↔
    route.isFound = false ∨ route.tiles = [] ∨ ∃ i ∈ route.tiles, layout.tileCount ≤ i := by
  have hcell : ∀ i, layout.coordAt? i = none ↔ layout.tileCount ≤ i := by
    intro i
    simp [Layout.coordAt?]
  rw [waypoints?_eq]
  split
  · simp only [true_iff]
    tauto
  · simp only [Option.map_eq_none_iff, mapM_eq_none_iff, hcell]
    tauto

/-! ### Events and calls -/

/-- Whether an event sets an actor on a way. -/
def Starts (layout : Layout) (actor : ActorId) (event : Event) : Prop :=
  ∃ origin goal route points, event = .moved actor origin goal route ∧
    waypoints? layout origin route = some points

theorem handleEvent_moved (l : Locomotion) (goal : Coord)
    (h : waypoints? layout origin route = some points) :
    l.handleEvent layout (.moved actor origin goal route) = l.follow actor points := by
  simp only [handleEvent, h]

/-- An event sets an actor on a way or changes nothing. -/
theorem handleEvent_cases (l : Locomotion) (layout : Layout) (event : Event) :
    (∃ actor points, Starts layout actor event ∧ 2 ≤ points.length ∧
      l.handleEvent layout event = l.follow actor points) ∨
    l.handleEvent layout event = l := by
  cases event with
  | moved actor origin goal route =>
    cases hpoints : waypoints? layout origin route with
    | some points =>
      exact .inl ⟨actor, points, ⟨origin, goal, route, points, rfl, hpoints⟩,
        (waypoints?_length hpoints).2, handleEvent_moved l goal hpoints⟩
    | none => exact .inr (by simp only [handleEvent, hpoints])
  | _ => exact .inr rfl

theorem handle_append (l : Locomotion) (layout : Layout) (first second : List Event) :
    l.handle layout (first ++ second) = (l.handle layout first).handle layout second :=
  List.foldl_append

/-- What is done with those on their way: they are told of events on a board, or time passes. -/
inductive Call where
  | handle (layout : Layout) (events : List Event)
  | advance (time : Duration)

def call (l : Locomotion) : Call → Locomotion × List PositionUpdate
  | .handle layout events => (l.handle layout events, [])
  | .advance time => l.advance time

/-- Calls one after the other, and everything that they report. -/
def perform (l : Locomotion) : List Call → Locomotion × List PositionUpdate
  | [] => (l, [])
  | c :: rest =>
    let (next, updates) := l.call c
    let (last, later) := next.perform rest
    (last, updates ++ later)

theorem perform_cons (c : Call) (rest : List Call) : l.perform (c :: rest) =
    (((l.call c).1.perform rest).1, (l.call c).2 ++ ((l.call c).1.perform rest).2) := rfl

theorem perform_concat (calls : List Call) (c : Call) : l.perform (calls ++ [c]) =
    (((l.perform calls).1.call c).1, (l.perform calls).2 ++ ((l.perform calls).1.call c).2) := by
  induction calls generalizing l with
  | nil => simp [perform]
  | cons first rest ih => simp [perform_cons, ih, List.append_assoc]

/-- What every event and every lapse of time preserves, calls preserve. -/
theorem perform_invariant {P : Locomotion → Prop} (h : P l)
    (hevent : ∀ l layout event, P l → P (l.handleEvent layout event))
    (hadvance : ∀ l time, P l → P (l.advance time).1) (calls : List Call) :
    P (l.perform calls).1 := by
  have hevents : ∀ layout events l, P l → P (l.handle layout events) := by
    intro layout events
    induction events with
    | nil => exact fun _ hl => hl
    | cons event rest ih => exact fun l hl => ih _ (hevent l layout event hl)
  induction calls generalizing l with
  | nil => exact h
  | cons c rest ih =>
    rw [perform_cons]
    cases c with
    | handle layout events => exact ih (hevents layout events l h)
    | advance time => exact ih (hadvance l time h)

theorem handleEvent_perTile (l : Locomotion) (layout : Layout) (event : Event) :
    (l.handleEvent layout event).perTile = l.perTile := by
  rcases handleEvent_cases l layout event with ⟨_, _, _, _, hfollow⟩ | hsame
  · rw [hfollow]
    rfl
  · rw [hsame]

theorem perform_perTile (l : Locomotion) (calls : List Call) :
    (l.perform calls).1.perTile = l.perTile :=
  perform_invariant (P := fun l' => l'.perTile = l.perTile) rfl
    (fun l' layout event hl => (handleEvent_perTile l' layout event).trans hl)
    (fun _ _ hl => hl) calls

/-! ### One way for each actor -/

/-- No actor is on two ways, and ways have two points or more. -/
structure Orderly (l : Locomotion) : Prop where
  single : (l.followers.map (·.actor)).Nodup
  long : ∀ f ∈ l.followers, 2 ≤ f.waypoints.length

namespace Orderly

theorem idle (perTile : Duration) : (idle perTile).Orderly := ⟨.nil, nofun⟩

theorem follow (h : l.Orderly) (actor : ActorId) (hpoints : 2 ≤ points.length) :
    (l.follow actor points).Orderly where
  single := by
    rw [Locomotion.follow, List.map_append, List.map_singleton, ← List.concat_eq_append,
      List.nodup_concat]
    constructor
    · simp
    · exact h.single.sublist (List.filter_sublist.map _)
  long := by
    intro f hf
    simp only [Locomotion.follow, List.mem_append, List.mem_singleton] at hf
    rcases hf with hf | rfl
    · exact h.long f (List.mem_filter.mp hf).1
    · exact hpoints

theorem handleEvent (h : l.Orderly) (layout : Layout) (event : Event) :
    (l.handleEvent layout event).Orderly := by
  rcases handleEvent_cases l layout event with ⟨actor, points, _, hpoints, hfollow⟩ | hsame
  · rw [hfollow]
    exact h.follow actor hpoints
  · rw [hsame]
    exact h

theorem advance (h : l.Orderly) (time : Duration) : (l.advance time).1.Orderly where
  single := by
    have hactors : (l.followers.map fun f =>
        ({ f with elapsed := f.elapsed.add time } : Follower)).map (·.actor) =
          l.followers.map (·.actor) := by simp [Function.comp_def]
    have hnodup := h.single
    rw [← hactors] at hnodup
    exact hnodup.sublist (List.filter_sublist.map _)
  long := by
    intro f hf
    obtain ⟨hmem, _⟩ := List.mem_filter.mp hf
    obtain ⟨f', hf', rfl⟩ := List.mem_map.mp hmem
    exact h.long f' hf'

theorem perform (h : l.Orderly) (calls : List Call) : (l.perform calls).1.Orderly :=
  perform_invariant h (fun _ layout event hl => hl.handleEvent layout event)
    (fun _ time hl => hl.advance time) calls

end Orderly

/-! ### The way of one actor -/

/-- The ways that an actor is on. -/
def waysOf (l : Locomotion) (actor : ActorId) : List Follower :=
  l.followers.filter (·.actor = actor)

theorem position?_eq (l : Locomotion) (actor : ActorId) :
    l.position? actor = (l.waysOf actor).head?.map (·.position l.perTile) := by
  rw [position?, waysOf, List.head?_filter]

theorem waysOf_follow_self (l : Locomotion) (actor : ActorId) (points : List Point) :
    (l.follow actor points).waysOf actor = [⟨actor, points, .zero⟩] := by
  simp [waysOf, follow, List.filter_append, List.filter_filter]

theorem waysOf_follow_other (h : other ≠ actor) (l : Locomotion) (points : List Point) :
    (l.follow other points).waysOf actor = l.waysOf actor := by
  have hnew : ([⟨other, points, .zero⟩] : List Follower).filter (·.actor = actor) = [] := by
    simp [h]
  rw [waysOf, follow, List.filter_append, hnew, List.append_nil, List.filter_filter, waysOf]
  refine List.filter_congr fun f _ => ?_
  by_cases hf : f.actor = actor
  · simp [hf, h.symm]
  · simp [hf]

/-- An actor that no event sets on a new way stays on its old one. -/
theorem waysOf_handle (l : Locomotion) (h : ∀ event ∈ events, ¬ Starts layout actor event) :
    (l.handle layout events).waysOf actor = l.waysOf actor := by
  induction events generalizing l with
  | nil => rfl
  | cons event rest ih =>
    have hrest := ih (l.handleEvent layout event) fun e he => h e (List.mem_cons_of_mem _ he)
    refine hrest.trans ?_
    rcases handleEvent_cases l layout event with ⟨other, points, hstarts, _, hfollow⟩ | hsame
    · have hne : other ≠ actor := by
        rintro rfl
        exact h event (by simp) hstarts
      rw [hfollow, waysOf_follow_other hne]
    · rw [hsame]

/-- An actor's ways when some more time has been spent on them. -/
def laterWays (l : Locomotion) (actor : ActorId) (time : Duration) : List Follower :=
  (l.waysOf actor).map fun f => { f with elapsed := f.elapsed.add time }

theorem waysOf_advance (l : Locomotion) (time : Duration) (actor : ActorId) :
    (l.advance time).1.waysOf actor =
      (l.laterWays actor time).filter fun f => !f.hasArrived l.perTile := by
  simp only [waysOf, laterWays, Locomotion.advance]
  rw [List.filter_comm, List.filter_map]
  rfl

/-- The reports that an actor has arrived. -/
def arrivalsOf (actor : ActorId) (updates : List PositionUpdate) : List PositionUpdate :=
  (updates.filter (·.actor = actor)).filter (·.arrived)

theorem arrivalsOf_append (actor : ActorId) (first second : List PositionUpdate) :
    arrivalsOf actor (first ++ second) = arrivalsOf actor first ++ arrivalsOf actor second := by
  simp [arrivalsOf]

theorem arrivalsOf_advance (l : Locomotion) (time : Duration) (actor : ActorId) :
    arrivalsOf actor (l.advance time).2 =
      ((l.laterWays actor time).filter (·.hasArrived l.perTile)).map (·.update l.perTile) := by
  simp only [arrivalsOf, laterWays, waysOf, Locomotion.advance, List.filter_map]
  rfl

/-! ### Arrival -/

/-- The time spent after a call. -/
def Call.lapse (spent : Duration) : Call → Duration
  | .handle .. => spent
  | .advance time => spent.add time

/-- The time that passes during some calls. -/
def spent (calls : List Call) : Duration := calls.foldl Call.lapse .zero

/-- Whether a call sets an actor on a way. -/
def Call.Starts (actor : ActorId) : Call → Prop
  | .handle layout events => ∃ event ∈ events, Locomotion.Starts layout actor event
  | .advance _ => False

/-- Whether there is a lapse of time among some calls that brings the time spent up to a total. -/
def Ends (total : Duration) (calls : List Call) : Prop :=
  ∃ earlier time, earlier ++ [.advance time] <+: calls ∧
    total.nanos ≤ (spent (earlier ++ [.advance time])).nanos

theorem spent_concat (calls : List Call) (c : Call) : spent (calls ++ [c]) = c.lapse (spent calls) :=
  List.foldl_concat ..

theorem not_ends_nil (total : Duration) : ¬ Ends total [] := by
  rintro ⟨earlier, time, hprefix, _⟩
  simpa using hprefix.length_le

theorem ends_handle {total : Duration} {calls : List Call} :
    Ends total (calls ++ [.handle layout events]) ↔ Ends total calls := by
  constructor
  · rintro ⟨earlier, time, hprefix, hreached⟩
    rcases List.prefix_concat_iff.mp hprefix with heq | hprefix
    · have := (List.append_inj' heq rfl).2
      cases this
    · exact ⟨earlier, time, hprefix, hreached⟩
  · rintro ⟨earlier, time, hprefix, hreached⟩
    exact ⟨earlier, time, hprefix.trans (List.prefix_append _ _), hreached⟩

theorem ends_advance {total time : Duration} {calls : List Call} :
    Ends total (calls ++ [.advance time]) ↔
      Ends total calls ∨ total.nanos ≤ ((spent calls).add time).nanos := by
  constructor
  · rintro ⟨earlier, time', hprefix, hreached⟩
    rcases List.prefix_concat_iff.mp hprefix with heq | hprefix
    · rw [heq, spent_concat] at hreached
      exact .inr hreached
    · exact .inl ⟨earlier, time', hprefix, hreached⟩
  · rintro (⟨earlier, time', hprefix, hreached⟩ | hreached)
    · exact ⟨earlier, time', hprefix.trans (List.prefix_append _ _), hreached⟩
    · exact ⟨calls, time, List.prefix_rfl, by rwa [spent_concat]⟩

/-- The time that a way through some points takes. -/
def wayTime (l : Locomotion) (points : List Point) : Duration :=
  l.perTile.scale (min (points.length - 1) countMax)

/-- The report that an actor has come to the last of some points. -/
def arrival (actor : ActorId) (points : List Point) : PositionUpdate :=
  ⟨actor, points.getLast?.getD ⟨0, 0⟩, true⟩

/-- A lapse of time brings an actor to the end of its way, or it is reported on its way. -/
theorem advance_way {elapsed : Duration} (h : l.waysOf actor = [⟨actor, points, elapsed⟩])
    (time : Duration) :
    ((l.wayTime points).nanos ≤ (elapsed.add time).nanos ∧ (l.advance time).1.waysOf actor = [] ∧
      arrivalsOf actor (l.advance time).2 = [arrival actor points]) ∨
    (¬ (l.wayTime points).nanos ≤ (elapsed.add time).nanos ∧
      (l.advance time).1.waysOf actor = [⟨actor, points, elapsed.add time⟩] ∧
      arrivalsOf actor (l.advance time).2 = []) := by
  have hlater : l.laterWays actor time = [⟨actor, points, elapsed.add time⟩] := by
    rw [laterWays, h, List.map_singleton]
  rw [waysOf_advance, arrivalsOf_advance, hlater]
  by_cases hreached : (l.wayTime points).nanos ≤ (elapsed.add time).nanos
  · have harrived : (⟨actor, points, elapsed.add time⟩ : Follower).hasArrived l.perTile = true :=
      decide_eq_true hreached
    refine .inl ⟨hreached, by simp [harrived], ?_⟩
    simp [harrived, Follower.update, Follower.position_of_arrived, arrival]
  · have harrived : (⟨actor, points, elapsed.add time⟩ : Follower).hasArrived l.perTile = false :=
      decide_eq_false hreached
    exact .inr ⟨hreached, by simp [harrived], by simp [harrived]⟩

theorem advance_idle (h : l.waysOf actor = []) (time : Duration) :
    (l.advance time).1.waysOf actor = [] ∧ arrivalsOf actor (l.advance time).2 = [] := by
  have hlater : l.laterWays actor time = [] := by rw [laterWays, h, List.map_nil]
  rw [waysOf_advance, arrivalsOf_advance, hlater]
  exact ⟨rfl, rfl⟩

/-- What becomes of a way that an actor was set on, while it is not set on another one: it is
travelled until the time spent comes up to the total, and then reported and dropped. -/
theorem way_of_start (hways : l.waysOf actor = [⟨actor, points, .zero⟩])
    {calls : List Call} (hcalls : ∀ c ∈ calls, ¬ c.Starts actor) :
    (Ends (l.wayTime points) calls ∧ (l.perform calls).1.waysOf actor = [] ∧
      arrivalsOf actor (l.perform calls).2 = [arrival actor points]) ∨
    (¬ Ends (l.wayTime points) calls ∧
      (l.perform calls).1.waysOf actor = [⟨actor, points, spent calls⟩] ∧
      arrivalsOf actor (l.perform calls).2 = []) := by
  induction calls using List.reverseRecOn with
  | nil => exact .inr ⟨not_ends_nil _, hways, rfl⟩
  | append_singleton calls c ih =>
    have hbefore := ih fun c' hc' => hcalls c' (List.mem_append_left _ hc')
    have hc := hcalls c (by simp)
    rw [perform_concat]
    have htotal : (l.perform calls).1.wayTime points = l.wayTime points := by
      rw [wayTime, perform_perTile, wayTime]
    generalize (l.perform calls).1 = now at hbefore htotal
    cases c with
    | handle layout events =>
      have hkept : (now.handle layout events).waysOf actor = now.waysOf actor :=
        waysOf_handle now fun event hevent hstarts => hc ⟨event, hevent, hstarts⟩
      simp only [call, hkept, List.append_nil, ends_handle, spent_concat, Call.lapse]
      exact hbefore
    | advance time =>
      simp only [call, arrivalsOf_append, ends_advance, spent_concat, Call.lapse]
      rcases hbefore with ⟨hends, hnone, harrived⟩ | ⟨hgoing, hone, hquiet⟩
      · obtain ⟨hstill, hsilent⟩ := advance_idle hnone time
        rw [harrived, hsilent]
        exact .inl ⟨.inl hends, hstill, rfl⟩
      · rw [hquiet]
        rcases advance_way hone time with hnow | ⟨hnotyet, hstill, hsilent⟩
        · rw [htotal] at hnow
          exact .inl ⟨.inr hnow.1, hnow.2⟩
        · rw [htotal] at hnotyet
          exact .inr ⟨not_or.mpr ⟨hgoing, hnotyet⟩, hstill, hsilent⟩

/-- An event that gives points sets the actor on the way through them, whatever way it was on, and
later events that do not concern it leave it there. -/
theorem waysOf_start (l : Locomotion) (before : List Event) {after : List Event}
    (hpoints : waypoints? layout origin route = some points)
    (hafter : ∀ event ∈ after, ¬ Starts layout actor event) :
    (l.handle layout (before ++ .moved actor origin goal route :: after)).waysOf actor =
      [⟨actor, points, .zero⟩] := by
  have hstart : l.handle layout (before ++ .moved actor origin goal route :: after) =
      (((l.handle layout before).handleEvent layout (.moved actor origin goal route)).handle
        layout after) := handle_append ..
  rw [hstart, waysOf_handle _ hafter, handleEvent_moved _ goal hpoints, waysOf_follow_self]

/-- Ways end once. After whatever calls, nobody is on two ways, and every way has points enough: no
reading of a point fails, whatever the progress comes out as. Routes that were not found, go nowhere
or leave the board change nothing. An event with any other route sets its actor on the way through
the route's points alone. As long as no other way replaces it, nothing is reported to have arrived
until some lapse of time brings the time spent on it up to what the whole way takes; with that the
actor is reported once, at the last point, and has no position any more. -/
theorem ways_end_once (perTile : Duration) (earlier : List Call) :
    let l := ((idle perTile).perform earlier).1
    (l.followers.map (·.actor)).Nodup ∧
    (∀ f ∈ l.followers, 2 ≤ f.waypoints.length ∧
      (∀ progress, (f.placeAt? progress).isSome = true) ∧
      ∀ elapsed, ({ f with elapsed } : Follower).place? perTile =
        some (({ f with elapsed } : Follower).position perTile)) ∧
    (∀ layout actor origin goal route,
      route.isFound = false ∨ route.tiles = [] ∨ (∃ i ∈ route.tiles, layout.tileCount ≤ i) →
        l.handleEvent layout (.moved actor origin goal route) = l) ∧
    ∀ layout before actor origin goal route points after later,
      waypoints? layout origin route = some points →
      (∀ event ∈ after, ¬ Starts layout actor event) → (∀ c ∈ later, ¬ c.Starts actor) →
        let started := l.handle layout (before ++ .moved actor origin goal route :: after)
        let total := perTile.scale (min route.tiles.length 4294967295)
        started.waysOf actor = [⟨actor, points, .zero⟩] ∧
        ((¬ Ends total later ∧ ((started.perform later).1.position? actor).isSome = true ∧
            arrivalsOf actor (started.perform later).2 = []) ∨
          (Ends total later ∧ (started.perform later).1.position? actor = none ∧
            ∃ u, points.getLast? = some u.position ∧
              arrivalsOf actor (started.perform later).2 = [u])) := by
  intro l
  have horderly : l.Orderly := (Orderly.idle perTile).perform earlier
  have hperTile : l.perTile = perTile := perform_perTile _ earlier
  refine ⟨horderly.single, fun f hf => ?_, fun layout actor origin goal route hbad => ?_, ?_⟩
  · have hlong := horderly.long f hf
    exact ⟨hlong, fun progress => by rw [Follower.placeAt?_eq hlong]; rfl,
      fun elapsed => Follower.place?_eq (f := { f with elapsed }) hlong perTile⟩
  · simp only [handleEvent, waypoints?_eq_none_iff.mpr hbad]
  · intro layout before actor origin goal route points after later hpoints hafter hlater started
      total
    have hways : started.waysOf actor = [⟨actor, points, .zero⟩] :=
      waysOf_start l before hpoints hafter
    obtain ⟨hlength, hlong⟩ := waypoints?_length hpoints
    have htotal : started.wayTime points = total := by
      have hsame : started.perTile = l.perTile :=
        perform_perTile l [.handle layout (before ++ .moved actor origin goal route :: after)]
      rw [wayTime, hsame, hperTile, hlength, Nat.add_sub_cancel]
      rfl
    have hway := way_of_start hways hlater
    rw [htotal] at hway
    refine ⟨hways, ?_⟩
    rw [position?_eq]
    rcases hway with ⟨hends, hnone, harrived⟩ | ⟨hgoing, hone, hquiet⟩
    · refine .inr ⟨hends, by rw [hnone]; rfl, arrival actor points, ?_, harrived⟩
      have hne : points ≠ [] := List.length_pos_iff.mp (by omega)
      rw [arrival, List.getLast?_eq_some_getLast hne, Option.getD_some]
    · exact .inl ⟨hgoing, by rw [hone]; rfl, hquiet⟩

/-- The start of a single step. -/
def oneStep : Locomotion := standard.handle .standard
  [.moved ⟨1⟩ ⟨0, 0⟩ ⟨1, 0⟩ (.found ⟨0, 0⟩ ⟨1, 0⟩ [1])]

/-- A tile takes half a second: after three tenths nobody has arrived, and two tenths later the
actor has. -/
theorem ways_end_once_one_step :
    waypoints? .standard ⟨0, 0⟩ (.found ⟨0, 0⟩ ⟨1, 0⟩ [1]) =
        some [Layout.standard.center ⟨0, 0⟩, Layout.standard.center ⟨1, 0⟩] ∧
      arrivalsOf ⟨1⟩ (oneStep.perform [.advance (.ofMillis 300)]).2 = [] ∧
      ∃ u, u.position = Layout.standard.center ⟨1, 0⟩ ∧
        arrivalsOf ⟨1⟩ (oneStep.perform
          [.advance (.ofMillis 300), .advance (.ofMillis 200)]).2 = [u] := by
  have hpoints : waypoints? .standard ⟨0, 0⟩ (.found ⟨0, 0⟩ ⟨1, 0⟩ [1]) =
      some [Layout.standard.center ⟨0, 0⟩, Layout.standard.center ⟨1, 0⟩] :=
    waypoints?_eq_some_iff.mpr ⟨rfl, by decide, [⟨1, 0⟩], by decide, rfl⟩
  obtain ⟨_, _, _, hways⟩ := ways_end_once (.ofMillis 500) []
  have hstep := fun later => hways .standard [] ⟨1⟩ ⟨0, 0⟩ ⟨1, 0⟩ _ _ [] later hpoints nofun
  have hgoing : ¬ Ends ((Duration.ofMillis 500).scale 1) ([] ++ [.advance (.ofMillis 300)]) := by
    rw [ends_advance, not_or]
    exact ⟨not_ends_nil _, by decide⟩
  have hends : Ends ((Duration.ofMillis 500).scale 1)
      [.advance (.ofMillis 300), .advance (.ofMillis 200)] :=
    ⟨[.advance (.ofMillis 300)], .ofMillis 200, List.prefix_rfl, by decide⟩
  refine ⟨hpoints, ?_, ?_⟩
  · obtain ⟨_, ⟨_, _, hquiet⟩ | ⟨hended, _⟩⟩ := hstep [.advance (.ofMillis 300)]
      (by simp [Call.Starts])
    · exact hquiet
    · exact absurd hended hgoing
  · obtain ⟨_, ⟨hnotyet, _⟩ | ⟨_, _, u, hlast, harrived⟩⟩ := hstep
      [.advance (.ofMillis 300), .advance (.ofMillis 200)] (by simp [Call.Starts])
    · exact absurd hends hnotyet
    · exact ⟨u, (Option.some.inj hlast).symm, harrived⟩

end Locomotion

end HexSkirmish
