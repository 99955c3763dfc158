import HexSkirmish.Proofs.Ways
import HexSkirmish.Proofs.Commands

/-! How moves and placements are decided. Five things can speak against a move and two against a
placement; the first of them that does is reported, and then the command leaves everything as it was
but, at most, the edge table, which no answer shows. If none does, the command is carried out as a
whole: two tiles and one actor change for a move, one tile and the end of the list of actors for a
placement, and nothing else. -/

namespace HexSkirmish.World

variable {w v : World} {a b : Actor} {id : ActorId} {goal c : Coord} {kind : ActorKind}
  {tag : Option TileEffect} {reason : MoveError}

/-! ### What speaks against a move -/

/-- What each reason says about a world. A way is a sequence of steps over free tiles. -/
def Objects (w : World) (id : ActorId) (goal : Coord) : MoveError → Prop
  | .unknownActor => ∀ a ∈ w.actors, a.id ≠ id
  | .outOfBounds => w.grid.contains goal = false
  | .alreadyThere => ∃ a ∈ w.actors, a.id = id ∧ a.coord = goal
  | .obstructed => w.grid.cost? goal = some 65535
  | .noPath => w.grid.isObstacle goal = false ∧
      ∃ a ∈ w.actors, a.id = id ∧ ∀ ts, ¬ w.grid.Way a.coord ts goal

/-- The reasons in the order in which they are looked for. -/
def objections : List MoveError :=
  [.unknownActor, .outOfBounds, .alreadyThere, .obstructed, .noPath]

/-- A reason that speaks against a move while none before it does. -/
def FirstObjection (w : World) (id : ActorId) (goal : Coord) (reason : MoveError) : Prop :=
  ∃ before after, objections = before ++ reason :: after ∧ w.Objects id goal reason ∧
    ∀ earlier ∈ before, ¬ w.Objects id goal earlier

theorem known_of_actor? (h : w.actor? id = some a) : ¬ w.Objects id goal .unknownActor := by
  intro hunknown
  exact hunknown a (List.mem_of_find?_eq_some h) (id_of_actor? h)

/-- With distinct numbers the actor that a number finds is the only one that has it. -/
theorem eq_of_actor? (hids : (w.actors.map (·.id)).Nodup) (h : w.actor? id = some a)
    (hb : b ∈ w.actors) (hid : b.id = id) : b = a :=
  List.inj_on_of_nodup_map hids hb (List.mem_of_find?_eq_some h) (hid.trans (id_of_actor? h).symm)

theorem elsewhere_of_actor? (hids : (w.actors.map (·.id)).Nodup) (h : w.actor? id = some a)
    (haway : goal ≠ a.coord) : ¬ w.Objects id goal .alreadyThere := by
  rintro ⟨b, hb, hid, hthere⟩
  exact haway (eq_of_actor? hids h hb hid ▸ hthere.symm)

theorem inside_of_contains (h : w.grid.contains goal = true) :
    ¬ w.Objects id goal .outOfBounds := by
  simp [Objects, h]

theorem not_obstructed (h : w.grid.isObstacle goal = false) :
    ¬ w.Objects id goal .obstructed := by
  intro hblocked
  rw [Grid.isObstacle_iff.mpr (.inr hblocked)] at h
  cases h

/-- Between two cells of the board the search finds a route if there is a way. -/
theorem Sound.isFound_iff_way (h : w.Sound) (ha : a ∈ w.actors) (haway : goal ≠ a.coord)
    (hfree : w.grid.isObstacle goal = false) :
    (w.grid.route a.coord goal).isFound = true ↔ ∃ ts, w.grid.Way a.coord ts goal := by
  rcases Grid.route_ways h.current (h.inside a ha) (Grid.contains_of_free hfree) haway.symm with
    ⟨ts, hroute, hway, _⟩ | ⟨hroute, hnone⟩
  · rw [hroute]
    exact iff_of_true rfl ⟨ts, hway⟩
  · rw [hroute]
    exact iff_of_false nofun fun ⟨ts, hway⟩ => hnone ts hway

/-- A move that is rejected is rejected for the first reason that speaks against it. -/
theorem Refused.first (h : w.Refused id goal reason) (hw : w.Sound)
    (hids : (w.actors.map (·.id)).Nodup) : w.FirstObjection id goal reason := by
  cases h with
  | unknownActor hunknown =>
    refine ⟨[], _, rfl, fun a ha hid => ?_, nofun⟩
    exact List.find?_eq_none.mp hunknown a ha (decide_eq_true hid)
  | outOfBounds hfound hout =>
    refine ⟨[.unknownActor], _, rfl, hout, ?_⟩
    simp only [List.forall_mem_cons]
    exact ⟨known_of_actor? hfound, nofun⟩
  | @alreadyThere a hfound hin hhere =>
    have ha := List.mem_of_find?_eq_some hfound
    refine ⟨[.unknownActor, .outOfBounds], _, rfl, ⟨a, ha, id_of_actor? hfound, hhere.symm⟩, ?_⟩
    simp only [List.forall_mem_cons]
    exact ⟨known_of_actor? hfound, inside_of_contains hin, nofun⟩
  | obstructed hfound hin haway hblocked =>
    have hcost := (Grid.isObstacle_iff.mp hblocked).resolve_left (by simp [hin])
    refine ⟨[.unknownActor, .outOfBounds, .alreadyThere], _, rfl, hcost, ?_⟩
    simp only [List.forall_mem_cons]
    exact ⟨known_of_actor? hfound, inside_of_contains hin, elsewhere_of_actor? hids hfound haway,
      nofun⟩
  | @noPath a hfound haway hfree hmissing =>
    have ha := List.mem_of_find?_eq_some hfound
    have hnone : ∀ ts, ¬ w.grid.Way a.coord ts goal := by
      intro ts hway
      rw [(hw.isFound_iff_way ha haway hfree).mpr ⟨ts, hway⟩] at hmissing
      cases hmissing
    refine ⟨[.unknownActor, .outOfBounds, .alreadyThere, .obstructed], _, rfl,
      ⟨hfree, a, ha, id_of_actor? hfound, hnone⟩, ?_⟩
    simp only [List.forall_mem_cons]
    exact ⟨known_of_actor? hfound, inside_of_contains (Grid.contains_of_free hfree),
      elsewhere_of_actor? hids hfound haway, not_obstructed hfree, nofun⟩

/-- Nothing speaks against a move that can be carried out. -/
theorem Admits.unopposed (h : w.Admits a goal) (hw : w.Sound)
    (hids : (w.actors.map (·.id)).Nodup) : ∀ reason, ¬ w.Objects a.id goal reason := by
  have ha := List.mem_of_find?_eq_some h.found
  intro reason
  cases reason with
  | unknownActor => exact known_of_actor? h.found
  | outOfBounds => exact inside_of_contains (Grid.contains_of_free h.free)
  | alreadyThere => exact elsewhere_of_actor? hids h.found h.away
  | obstructed => exact not_obstructed h.free
  | noPath =>
    rintro ⟨_, b, hb, hid, hnone⟩
    obtain rfl := eq_of_actor? hids h.found hb hid
    obtain ⟨ts, hway⟩ := (hw.isFound_iff_way ha h.away h.free).mp h.route
    exact hnone ts hway

/-! ### What a command leaves as it was -/

/-- Worlds that differ in their edge tables at most, and in no answer about routes and distances. -/
structure Unchanged (w v : World) : Prop where
  layout : v.grid.layout = w.grid.layout
  tiles : v.grid.tiles = w.grid.tiles
  actors : v.actors = w.actors
  hand : v.hand = w.hand
  nextId : v.nextId = w.nextId
  route : ∀ a b, v.grid.route a b = w.grid.route a b
  flow : ∀ o, v.grid.flow o = w.grid.flow o
  flowInto : ∀ o buffer, v.grid.flowInto o buffer = w.grid.flowInto o buffer

theorem Unchanged.refl (w : World) : Unchanged w w :=
  ⟨rfl, rfl, rfl, rfl, rfl, fun _ _ => rfl, fun _ => rfl, fun _ _ => rfl⟩

theorem refresh_unchanged (w : World) : Unchanged w { w with grid := w.grid.refresh } where
  layout := Grid.refresh_layout
  tiles := Grid.refresh_tiles
  actors := rfl
  hand := rfl
  nextId := rfl
  route := fun _ _ => Grid.route_refresh
  flow := fun _ => Grid.flow_refresh
  flowInto := fun o buffer => by
    simp only [Grid.flowInto, Grid.checkSize, Grid.refresh_layout, Grid.flow_refresh]

/-- The edge table is not stale, and it is that of the tiles. -/
def UpToDate (w : World) : Prop :=
  w.grid.stale = false ∧ w.grid.edges = .build w.grid.layout w.grid.tiles

/-- All that a move changes: it blocks the tile entered and opens the tile left, puts its tag on the
one and takes any highlight off the other, and replaces the one actor with its number. -/
structure Relocated (w : World) (a : Actor) (goal : Coord) (tag : Option TileEffect)
    (v : World) : Prop where
  layout : v.grid.layout = w.grid.layout
  cost : ∀ c, v.grid.cost? c =
    if c = goal then some 65535 else if c = a.coord then some 1 else w.grid.cost? c
  effect : ∀ c, v.grid.effect? c = match tag with
    | none => w.grid.effect? c
    | some e => if c = goal then some e else if c = a.coord then some .plain else w.grid.effect? c
  actors : ∃ before after, w.actors = before ++ a :: after ∧
    v.actors = before ++ { a with coord := goal } :: after ∧ ∀ b ∈ before ++ after, b.id ≠ a.id
  hand : v.hand = w.hand
  nextId : v.nextId = w.nextId
  upToDate : v.UpToDate

theorem setEffect_stale (w : World) (c : Coord) (e : TileEffect) :
    (w.setEffect c e).1.grid.stale = w.grid.stale := by
  unfold setEffect
  split
  · exact Grid.modify_stale _
  · rfl

theorem commitMove_stale (w : World) (a : Actor) (goal : Coord) (tag : Option TileEffect)
    (route : Route) : (w.commitMove a goal tag route).1.grid.stale = false := by
  cases tag with
  | none => rfl
  | some e => simp only [commitMove, carryTag, setEffect_stale, Grid.rebuild]

theorem commitMove_hand (w : World) (a : Actor) (goal : Coord) (tag : Option TileEffect)
    (route : Route) : (w.commitMove a goal tag route).1.hand = w.hand := by
  simp [commitMove]

theorem Admits.relocated (h : w.Admits a goal) (hw : w.Sound)
    (hids : (w.actors.map (·.id)).Nodup) (tag : Option TileEffect) :
    Relocated w a goal tag (w.move a.id goal tag).1 := by
  have hmoved := h.moved tag
  have ha := List.mem_of_find?_eq_some h.found
  obtain ⟨s, hs⟩ := Grid.contains_iff_tileAt?.mp (hw.inside a ha)
  obtain ⟨t, ht⟩ := Grid.contains_iff_tileAt?.mp (Grid.contains_of_free h.free)
  have hstale : (w.move a.id goal tag).1.grid.stale = false := by
    rw [h.move_eq]
    exact commitMove_stale _ _ _ _ _
  refine ⟨hmoved.layout, fun c => ?_, fun c => ?_, ?_, ?_, hmoved.nextId, hstale,
    hmoved.current hstale⟩
  · rw [hmoved.cost]
    by_cases hgoal : c = goal
    · simp [hgoal, h.away, Grid.cost?, ht, Tile.blockedCost]
    · by_cases horigin : c = a.coord
      · simp [horigin, h.away.symm, Grid.cost?, hs, Tile.openCost]
      · simp [hgoal, horigin]
  · rw [h.effect?_move]
    cases tag with
    | none => rfl
    | some e =>
      by_cases hgoal : c = goal
      · simp [hgoal, h.away, Grid.effect?, ht]
      · by_cases horigin : c = a.coord
        · simp [horigin, h.away.symm, Grid.effect?, hs]
        · simp [hgoal, horigin]
  · obtain ⟨before, after, hsplit, hactors, _⟩ := hmoved.split h.found
    exact ⟨before, after, hsplit, hactors, (nodup_map_middle.mp (hsplit ▸ hids)).1⟩
  · rw [h.move_eq, commitMove_hand]

/-! ### Placements -/

/-- All that a placement changes: it blocks a tile and adds an actor with the next number. -/
structure Installed (w : World) (kind : ActorKind) (c : Coord) (v : World) : Prop where
  layout : v.grid.layout = w.grid.layout
  cost : ∀ e, v.grid.cost? e = if e = c then some 65535 else w.grid.cost? e
  effect : ∀ e, v.grid.effect? e = w.grid.effect? e
  actors : v.actors = w.actors ++ [⟨w.nextId, kind, c⟩]
  hand : v.hand = w.hand
  nextId : v.nextId = w.nextId.next
  upToDate : v.UpToDate

theorem place_installed (hfree : w.grid.isObstacle c = false) :
    Installed w kind c (w.place kind c).1 := by
  obtain ⟨t, ht⟩ := Grid.contains_iff_tileAt?.mp (Grid.contains_of_free hfree)
  rw [place_eq hfree]
  refine ⟨by simp, fun e => ?_, fun e => ?_, rfl, rfl, rfl, rfl, rfl⟩
  · rw [Grid.cost?_rebuild, Grid.cost?_setCost]
    by_cases hec : e = c
    · simp [hec, Grid.cost?, ht, Tile.blockedCost]
    · simp [hec]
  · rw [Grid.effect?_rebuild, Grid.effect?_setCost]

/-- The next number is new as long as numbers last. -/
theorem Numbered.nextId_new (h : w.Numbered) (hlen : w.actors.length < 4294967296) :
    ∀ b ∈ w.actors, b.id ≠ w.nextId := by
  intro b hb hid
  have hnumbers := h.numbers_eq (by simp only [countMax]; omega)
  have hmem : b.id.number.toNat ∈ List.range w.actors.length := by
    rw [← hnumbers]
    exact List.mem_map_of_mem hb
  have hlt := List.mem_range.mp hmem
  rw [hid, h.next] at hlt
  simp only [countMax] at hlt
  omega

/-! ### All or nothing -/

/-- Moves and placements are decided exactly and carried out as a whole or not at all. In every world
to which commands lead and in which numbers have lasted so far: a move reports one verdict. Either a
reason speaks against it; then the first such reason is reported, and no tile, actor, card or answer
is different. Or none does; then the report, after those of its highlights, gives the route that was
to be found before the move, and all that the move changes is what it says. A placement is rejected
off the board and on a blocked tile, and then changes nothing at all; on any other tile it adds an
actor whose number is the count of those placed before. -/
theorem move_and_place_atomic (h : w.Reached) (hlen : w.actors.length ≤ 4294967296) :
    (∀ id goal tag,
      let v := (w.apply (.move id goal tag)).1
      let events := (w.apply (.move id goal tag)).2
      (∃ reason, w.FirstObjection id goal reason ∧ events = [.moveRejected id goal reason] ∧
          Unchanged w v) ∨
        (∀ reason, ¬ w.Objects id goal reason) ∧ ∃ a changes, a.id = id ∧
          events = changes ++ [.moved id a.coord goal (w.grid.route a.coord goal)] ∧
          (∀ event ∈ changes, ∃ c e, event = .effectChanged c e) ∧ Relocated w a goal tag v) ∧
    (∀ kind c,
      let v := (w.apply (.place kind c)).1
      let events := (w.apply (.place kind c)).2
      (w.grid.contains c = false ∧ events = [.placementRejected kind c .outOfBounds] ∧ v = w) ∨
        (w.grid.cost? c = some 65535 ∧ events = [.placementRejected kind c .occupied] ∧ v = w) ∨
        (∃ k, w.grid.cost? c = some k ∧ k ≠ 65535) ∧ events = [.placed w.nextId kind c] ∧
          Installed w kind c v) ∧
    w.nextId.number.toNat = min w.actors.length 4294967295 ∧
    (w.actors.length < 4294967296 → ∀ b ∈ w.actors, b.id ≠ w.nextId) := by
  have hsound := h.sound
  have hids := hsound.numbered.ids_nodup hlen
  refine ⟨fun id goal tag => ?_, fun kind c => ?_, hsound.numbered.next,
    hsound.numbered.nextId_new⟩
  · rcases admits_or_refused w id goal with ⟨a, rfl, hadmits⟩ | ⟨reason, hrefused⟩
    · obtain ⟨changes, hevents, hchanges, _⟩ := hadmits.move_events tag
      exact .inr ⟨hadmits.unopposed hsound hids, a, changes, rfl, hevents, hchanges,
        hadmits.relocated hsound hids tag⟩
    · refine .inl ⟨reason, hrefused.first hsound hids, ?_⟩
      simp only [apply]
      rcases hrefused.move_eq tag with hmove | hmove
      · rw [hmove]
        exact ⟨rfl, .refl w⟩
      · rw [hmove]
        exact ⟨rfl, refresh_unchanged w⟩
  · by_cases hin : w.grid.contains c = true
    · cases hfree : w.grid.isObstacle c with
      | true =>
        have hcost := (Grid.isObstacle_iff.mp hfree).resolve_left (by simp [hin])
        exact .inr (.inl ⟨hcost, by simp [apply, place, hin, hfree]⟩)
      | false =>
        refine .inr (.inr ⟨Grid.isObstacle_eq_false_iff.mp hfree, ?_, place_installed hfree⟩)
        rw [apply, place_eq hfree]
    · have hout : w.grid.contains c = false := Bool.eq_false_iff.mpr hin
      exact .inl ⟨hout, by simp [apply, place, hout]⟩

/-- An actor in a corner that was walled up after it was placed, and one in the open. -/
def walledUp : World := ((vacant .standard).applyAll [.place .player ⟨0, 0⟩, .place .npc ⟨5, 5⟩,
  .setCost ⟨1, 0⟩ Tile.blockedCost, .setCost ⟨0, 1⟩ Tile.blockedCost]).1

/-- The one cannot leave the corner, and nothing is different after it tried; the other steps aside
and carries its tag along. -/
theorem move_and_place_atomic_walledUp : walledUp.Reached ∧ walledUp.actors.length ≤ 4294967296 ∧
    walledUp.grid.stale = true ∧ walledUp.FirstObjection ⟨0⟩ ⟨3, 3⟩ .noPath ∧
    Unchanged walledUp (walledUp.apply (.move ⟨0⟩ ⟨3, 3⟩ none)).1 ∧
    ∃ a, a.id = ⟨1⟩ ∧ Relocated walledUp a ⟨5, 6⟩ (some .attackable)
      (walledUp.apply (.move ⟨1⟩ ⟨5, 6⟩ (some .attackable))).1 := by
  have hreached : walledUp.Reached := ⟨.standard, _, rfl⟩
  have hlength : walledUp.actors.length ≤ 4294967296 := by decide +kernel
  have htried : (walledUp.apply (.move ⟨0⟩ ⟨3, 3⟩ none)).2 =
      [.moveRejected ⟨0⟩ ⟨3, 3⟩ .noPath] := by decide +kernel
  have hstepped : (walledUp.apply (.move ⟨1⟩ ⟨5, 6⟩ (some .attackable))).2.length = 2 := by
    decide +kernel
  obtain ⟨hmoves, _⟩ := move_and_place_atomic hreached hlength
  refine ⟨hreached, hlength, by decide +kernel, ?_⟩
  rcases hmoves ⟨0⟩ ⟨3, 3⟩ none with ⟨reason, hfirst, hevents, hsame⟩ | ⟨_, _, _, _, hevents, _⟩
  · obtain rfl : MoveError.noPath = reason := by simpa [htried] using hevents
    refine ⟨hfirst, hsame, ?_⟩
    rcases hmoves ⟨1⟩ ⟨5, 6⟩ (some .attackable) with ⟨_, _, hevents, _⟩ | ⟨_, a, _, hid, _, _, hmoved⟩
    · simp [hevents] at hstepped
    · exact ⟨a, hid, hmoved⟩
  · have hlast := congrArg List.getLast? (htried.symm.trans hevents)
    simp at hlast

end HexSkirmish.World
