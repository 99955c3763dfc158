import HexSkirmish.Proofs.Followers
import HexSkirmish.Proofs.Tags
import Mathlib.Data.List.Chain

/-! Battles and those on their way in them. The world moves an actor at once, and its route is then
travelled for a while, during which the actor may well be moved again. Still every way begins where
the actor's last move left, goes from cell to neighbouring cell and ends where the world has the
actor, so that an actor that arrives is shown exactly where it is. -/

namespace HexSkirmish

/-! ### The cells of a route -/

namespace Grid

variable {g : Grid} {a b : Coord} {s t u v : Nat} {ts : List Nat}

/-- A walk over tiles is one over cells, from neighbour to neighbour. -/
theorem cells_of_walk (h : g.Current) (hs : g.layout.index? a = some s)
    (hwalk : Walk (g.onward s) s ts t) (ht : g.layout.index? b = some t) : ∃ cells,
    ts.map g.layout.coordAt? = cells.map some ∧ (a :: cells).IsChain g.layout.Beside ∧
      (a :: cells).getLast? = some b := by
  induction hwalk generalizing b with
  | here =>
    obtain rfl := Layout.index?_inj hs ht
    exact ⟨[], rfl, List.isChain_singleton a, rfl⟩
  | on _ hv ih =>
    obtain ⟨c, e, hc, he, hbeside⟩ := beside_of_onward h hv
    obtain rfl := Layout.index?_inj he ht
    obtain ⟨cells, hcells, hchain, hlast⟩ := ih hc
    refine ⟨cells ++ [e], ?_, ?_, ?_⟩
    · rw [List.map_append, List.map_append, hcells, List.map_singleton, List.map_singleton,
        Layout.coordAt?_of_index? he]
    · rw [← List.cons_append, List.isChain_append]
      refine ⟨hchain, List.isChain_singleton e, ?_⟩
      rw [hlast]
      rintro _ ⟨rfl⟩ _ ⟨rfl⟩
      exact hbeside
    · rw [← List.cons_append, List.getLast?_concat]

/-- The points of a route that was found and goes anywhere. -/
theorem waypoints?_route (h : g.Current) (hfound : (g.route a b).isFound = true) (hne : a ≠ b) :
    ∃ cells, Locomotion.waypoints? g.layout a (g.route a b) =
        some ((a :: cells).map g.layout.center) ∧
      (a :: cells).IsChain g.layout.Beside ∧ (a :: cells).getLast? = some b := by
  obtain ⟨s, t, ts, hs, ht, hst, hroute, hwalk, _⟩ := route_walk h hfound hne
  obtain ⟨cells, hcells, hchain, hlast⟩ := cells_of_walk h hs hwalk ht
  refine ⟨cells, ?_, hchain, hlast⟩
  rw [hroute, Locomotion.waypoints?_eq_some_iff]
  exact ⟨rfl, List.length_pos_iff.mp (hwalk.length_pos hst.symm), cells, hcells, rfl⟩

end Grid

/-! ### The last move of an actor -/

/-- The cell that an actor left in a move that an event reports. -/
def Event.departure? (id : ActorId) : Event → Option Coord
  | .moved actor origin _ _ => if actor = id then some origin else none
  | _ => none

/-- The cell that the last move of an actor left, according to some events. -/
def lastDeparture? (id : ActorId) (events : List Event) : Option Coord :=
  (events.filterMap (Event.departure? id)).getLast?

theorem lastDeparture?_quiet {id : ActorId} {told events : List Event}
    (h : ∀ id, ¬ HasMoved id events) :
    lastDeparture? id (told ++ events) = lastDeparture? id told := by
  have hnone : events.filterMap (Event.departure? id) = [] := by
    rw [List.filterMap_eq_nil_iff]
    intro event hevent
    cases event with
    | moved actor origin goal route => exact absurd ⟨origin, goal, route, hevent⟩ (h actor)
    | _ => rfl
  rw [lastDeparture?, List.filterMap_append, hnone, List.append_nil, lastDeparture?]

theorem lastDeparture?_moved {id actor : ActorId} {told : List Event} {origin goal : Coord}
    {route : Route} : lastDeparture? id (told ++ [.moved actor origin goal route]) =
      if actor = id then some origin else lastDeparture? id told := by
  rw [lastDeparture?, List.filterMap_append]
  by_cases hid : actor = id
  · simp [Event.departure?, hid]
  · simp [Event.departure?, hid, lastDeparture?]

namespace Locomotion

variable {l : Locomotion} {layout : Layout} {events : List Event} {time : Duration}

/-- Events among which no move is reported change nothing. -/
theorem handle_quiet (h : ∀ id, ¬ HasMoved id events) : l.handle layout events = l := by
  induction events with
  | nil => rfl
  | cons event rest ih =>
    have hrest : l.handle layout rest = l := ih fun id ⟨origin, goal, route, hmem⟩ =>
      h id ⟨origin, goal, route, List.mem_cons_of_mem _ hmem⟩
    have hevent : l.handleEvent layout event = l := by
      cases event with
      | moved actor origin goal route =>
        exact absurd ⟨origin, goal, route, List.mem_cons_self⟩ (h actor)
      | _ => rfl
    rw [handle, List.foldl_cons, hevent]
    exact hrest

end Locomotion

/-! ### The world and those on their way -/

namespace World

variable {w v : World} {told events : List Event} {l : Locomotion} {command : Command}
  {commands : List Command} {a : Actor} {goal : Coord} {f : Follower} {u : PositionUpdate}
  {time : Duration}

/-- A way that leads an actor from the cell that its last move left to the one where it stands. -/
def Leads (w : World) (told : List Event) (f : Follower) : Prop :=
  ∃ a origin cells, w.actor? f.actor = some a ∧ lastDeparture? f.actor told = some origin ∧
    f.waypoints = (origin :: cells).map w.grid.layout.center ∧
    (origin :: cells).IsChain w.grid.layout.Beside ∧ (origin :: cells).getLast? = some a.coord

/-- A way of an actor that was not the one to move leads where it did. -/
theorem Leads.other (h : w.Leads told f) (hne : f.actor ≠ a.id) (hv : Moved w a goal v)
    (route : Route) : v.Leads (told ++ [.moved a.id a.coord goal route]) f := by
  rw [Leads, lastDeparture?_moved, if_neg hne.symm, actor?, hv.actors, find?_relocate_of_ne hne,
    hv.layout]
  exact h

theorem Moved.actor? (hv : Moved w a goal v) (h : w.actor? a.id = some a) :
    v.actor? a.id = some { a with coord := goal } := by
  obtain ⟨before, after, _, hactors, hbefore⟩ := hv.split h
  rw [World.actor?, hactors, List.find?_eq_some_iff_append]
  exact ⟨by simp, before, after, rfl, fun b hb => by simpa using hbefore b hb⟩

/-- A world, what was reported of it, and those who are on their way as was reported. -/
structure InStep (w : World) (told : List Event) (l : Locomotion) : Prop where
  sound : w.Sound
  started : ∀ id origin goal route, .moved id origin goal route ∈ told →
    ∃ points, Locomotion.waypoints? w.grid.layout origin route = some points
  led : ∀ f ∈ l.followers, w.Leads told f

namespace InStep

/-- Where nobody moves everybody goes on as before. -/
theorem quiet (h : w.InStep told l) (hv : Alike w v) (hnobody : ∀ id, ¬ HasMoved id events) :
    v.InStep (told ++ events) (l.handle v.grid.layout events) where
  sound := h.sound.alike hv
  started := by
    intro id origin goal route hmem
    rw [hv.layout]
    refine h.started id origin goal route ((List.mem_append.mp hmem).resolve_right fun hnew => ?_)
    exact hnobody id ⟨origin, goal, route, hnew⟩
  led := by
    intro f hf
    rw [Locomotion.handle_quiet hnobody] at hf
    rw [Leads, lastDeparture?_quiet hnobody, actor?, hv.actors, hv.layout]
    exact h.led f hf

/-- The actor that moved goes the way of its route, and nobody else changes course. -/
theorem moved (h : w.InStep told l) (hadmits : w.Admits a goal) (hv : Moved w a goal v)
    (hsound : v.Sound) : v.InStep (told ++ [.moved a.id a.coord goal (w.grid.route a.coord goal)])
      (l.handle v.grid.layout [.moved a.id a.coord goal (w.grid.route a.coord goal)]) := by
  obtain ⟨cells, hpoints, hchain, hlast⟩ :=
    Grid.waypoints?_route h.sound.current hadmits.route hadmits.away.symm
  rw [← hv.layout] at hpoints hchain
  refine ⟨hsound, ?_, ?_⟩
  · intro id origin stop route hmem
    rcases List.mem_append.mp hmem with hold | hnew
    · rw [hv.layout]
      exact h.started id origin stop route hold
    · cases List.mem_singleton.mp hnew
      exact ⟨_, hpoints⟩
  · intro f hf
    have hfollow : l.handle v.grid.layout
        [.moved a.id a.coord goal (w.grid.route a.coord goal)] = l.follow a.id _ :=
      Locomotion.handleEvent_moved l goal hpoints
    rw [hfollow, Locomotion.follow, List.mem_append, List.mem_filter, List.mem_singleton] at hf
    rcases hf with ⟨hold, hne⟩ | rfl
    · exact (h.led f hold).other (by simpa using hne) hv _
    · exact ⟨_, a.coord, cells, hv.actor? hadmits.found,
        by rw [lastDeparture?_moved, if_pos rfl], rfl, hchain, hlast⟩

theorem apply (h : w.InStep told l) (hcommand : command.isSetup = false) :
    (w.apply command).1.InStep (told ++ (w.apply command).2)
      (l.handle (w.apply command).1.grid.layout (w.apply command).2) := by
  cases hquiet : command.isQuiet with
  | true => exact h.quiet (apply_alike hquiet) fun id => not_hasMoved (apply_events hquiet)
  | false =>
    cases command with
    | move id goal tag =>
      rcases move_cases w id goal tag with ⟨a, rfl, hadmits⟩ | ⟨reason, hevents, halike⟩
      · -- The changes of highlights come first; as far as ways go they are nothing.
        obtain ⟨changes, hevents, hchanges, _⟩ := hadmits.move_events tag
        have hnobody : ∀ id, ¬ HasMoved id changes := by
          rintro id ⟨_, _, _, hmem⟩
          obtain ⟨_, _, heq⟩ := hchanges _ hmem
          cases heq
        have hbefore := h.quiet (.refl w) hnobody
        rw [Locomotion.handle_quiet hnobody] at hbefore
        have hmoved := hbefore.moved hadmits (hadmits.moved tag)
          (h.sound.apply (.move a.id goal tag))
        rw [World.apply, hevents, Locomotion.handle_append, Locomotion.handle_quiet hnobody,
          ← List.append_assoc]
        exact hmoved
      · have hnobody : ∀ other, ¬ HasMoved other [.moveRejected id goal reason] := by
          simp [HasMoved]
        rw [World.apply, hevents]
        exact h.quiet halike hnobody
    | configure | setCost | place => cases hcommand
    | _ => cases hquiet

theorem applyAll (h : w.InStep told l) (hcommands : ∀ command ∈ commands, command.isSetup = false) :
    (w.applyAll commands).1.InStep (told ++ (w.applyAll commands).2)
      (l.handle w.grid.layout (w.applyAll commands).2) := by
  induction commands generalizing w told l with
  | nil => simpa [Locomotion.handle] using h
  | cons command rest ih =>
    have hlayout := (apply_identities (w := w) (hcommands command (by simp))).1
    have hfirst := h.apply (hcommands command (by simp))
    have hall := ih hfirst fun c hc => hcommands c (List.mem_cons_of_mem _ hc)
    rw [hlayout] at hall
    rw [applyAll_cons, Locomotion.handle_append, ← List.append_assoc]
    exact hall

/-- Time changes nothing about where the ways lead. -/
theorem tick (h : w.InStep told l) (time : Duration) : w.InStep told (l.advance time).1 where
  sound := h.sound
  started := h.started
  led := by
    intro f hf
    obtain ⟨f', hf', rfl⟩ := List.mem_map.mp (List.mem_filter.mp hf).1
    exact h.led f' hf'

/-- Who arrives is shown where it stands. -/
theorem arrived (h : w.InStep told l) (hu : u ∈ (l.advance time).2) (harrived : u.arrived = true) :
    ∃ a, w.actor? u.actor = some a ∧ u.position = w.grid.layout.center a.coord := by
  simp only [Locomotion.advance, List.mem_map] at hu
  obtain ⟨_, ⟨f, hf, rfl⟩, rfl⟩ := hu
  obtain ⟨a, origin, cells, ha, _, hpoints, _, hlast⟩ := h.led f hf
  refine ⟨a, ha, (Follower.position_of_arrived harrived).trans ?_⟩
  show f.waypoints.getLast?.getD ⟨0, 0⟩ = w.grid.layout.center a.coord
  rw [hpoints, List.getLast?_map, hlast]
  rfl

end InStep

end World

/-! ### Battles that are shown -/

namespace Battle

variable {c : BattleConfig} {seed : UInt64} {b : Battle} {events : List Event}

/-- What happens while a battle is shown: an input to it, or some time that passes. -/
inductive Deed where
  | input (input : TurnInput)
  | tick (time : Duration)

/-- The input that a deed is. -/
def Deed.input? : Deed → Option TurnInput
  | .input i => some i
  | .tick _ => none

/-- A battle that is shown, what was reported of it, and the actors on their way. -/
structure Show where
  battle : Battle
  told : List Event
  travel : Locomotion

namespace Show

def begin (b : Battle) (perTile : Duration) : Show := ⟨b, [], .idle perTile⟩

/-- What an accepted input reports is handled at once. -/
def after (s : Show) : Deed → Show
  | .input input =>
    match s.battle.submit input with
    | .ok (next, events) =>
      ⟨next, s.told ++ events, s.travel.handle next.world.grid.layout events⟩
    | .error _ => s
  | .tick time => { s with travel := (s.travel.advance time).1 }

def run (s : Show) (deeds : List Deed) : Show := deeds.foldl after s

/-- To show a battle makes no difference to it. -/
theorem run_battle (s : Show) (deeds : List Deed) :
    (s.run deeds).battle = s.battle.play (deeds.filterMap Deed.input?) ∧
      (s.run deeds).told = s.told ++ reports (s.battle.log (deeds.filterMap Deed.input?)) := by
  induction deeds generalizing s with
  | nil => simp [run, play, log, reports]
  | cons deed rest ih =>
    obtain ⟨hbattle, htold⟩ := ih (s.after deed)
    rw [run, List.foldl_cons, ← run, hbattle, htold]
    cases deed with
    | tick time => exact ⟨rfl, rfl⟩
    | input input =>
      cases hsubmit : s.battle.submit input with
      | error reason => simp [after, Deed.input?, play, log, Battle.after, entry?, hsubmit]
      | ok accepted =>
        simp [after, Deed.input?, play, log, Battle.after, entry?, hsubmit, reports]

theorem inStep_after {s : Show} (h : s.battle.world.InStep s.told s.travel) (deed : Deed) :
    (s.after deed).battle.world.InStep (s.after deed).told (s.after deed).travel := by
  cases deed with
  | tick time => exact h.tick time
  | input input =>
    rcases submit_cases s.battle input with ⟨reason, hrejected⟩ | ⟨t, ht, haccepted⟩
    · simpa only [after, hrejected] using h
    · simp only [after, haccepted]
      have hsetup := ht.step.isSetup
      have hlayout : (s.battle.follow t).world.grid.layout = s.battle.world.grid.layout :=
        World.applyAll_invariant (P := fun v => v.grid.layout = s.battle.world.grid.layout) rfl
          fun v command hcommand hv => (World.apply_identities (hsetup command hcommand)).1.trans hv
      rw [hlayout]
      exact h.applyAll hsetup

theorem inStep_run {s : Show} (h : s.battle.world.InStep s.told s.travel) (deeds : List Deed) :
    (s.run deeds).battle.world.InStep (s.run deeds).told (s.run deeds).travel := by
  induction deeds generalizing s with
  | nil => exact h
  | cons deed rest ih => exact ih (inStep_after h deed)

end Show

/-- The actors that are shown on their way catch up with the world. Whatever happens while a battle
is shown, it takes its course, and every move that was reported of it set its actor on a way. Each of
the ways begins at the centre of the cell that its actor's last move left, leads from centres to those
of neighbouring cells and ends at the centre of the cell where the world has the actor. So whoever
arrives next, whenever that is, arrives there. -/
theorem locomotion_converges (h : create c seed = .ok (b, events)) (perTile : Duration)
    (deeds : List Deed) :
    let s := (Show.begin b perTile).run deeds
    let layout := s.battle.world.grid.layout
    let inputs := deeds.filterMap Deed.input?
    s.battle = b.play inputs ∧ s.told = reports (b.log inputs) ∧
    (∀ id origin goal route, .moved id origin goal route ∈ s.told → ∃ points, ∀ l : Locomotion,
      l.handleEvent layout (.moved id origin goal route) = l.follow id points) ∧
    (∀ f ∈ s.travel.followers, ∃ a origin cells, s.battle.world.actor? f.actor = some a ∧
      lastDeparture? f.actor s.told = some origin ∧
      f.waypoints = (origin :: cells).map layout.center ∧
      (origin :: cells).IsChain layout.Beside ∧ (origin :: cells).getLast? = some a.coord) ∧
    ∀ time, ∀ u ∈ (s.travel.advance time).2, u.arrived = true →
      ∃ a, s.battle.world.actor? u.actor = some a ∧ u.position = layout.center a.coord := by
  intro s layout inputs
  obtain ⟨hbattle, htold⟩ := Show.run_battle (Show.begin b perTile) deeds
  have hbegin : b.world.InStep [] (.idle perTile) := ⟨(create_ready h).sound, nofun, nofun⟩
  have hnow : s.battle.world.InStep s.told s.travel :=
    Show.inStep_run (s := Show.begin b perTile) hbegin deeds
  refine ⟨hbattle, htold, fun id origin goal route hmem => ?_, hnow.led,
    fun time u hu harrived => hnow.arrived hu harrived⟩
  obtain ⟨points, hpoints⟩ := hnow.started id origin goal route hmem
  exact ⟨points, fun l => Locomotion.handleEvent_moved l goal hpoints⟩

/-- The player takes a step, but halfway it turns round. -/
def narrowsShow : Show := (Show.begin narrowsBattle (.ofMillis 500)).run
  [.input .advance, .input .advance, .input .advance, .input (.attempt ⟨0, 1⟩ ⟨0, 1⟩),
    .tick (.ofMillis 300), .input (.attempt ⟨0, 0⟩ ⟨0, 0⟩), .tick (.ofMillis 300)]

/-- Another fifth of a second later it arrives, and at the cell from which it first set off. -/
theorem locomotion_converges_narrows : create narrows 0 = .ok (narrowsBattle,
      ((World.vacant narrowsBoard).applyAll (setupCommands narrows)).2) ∧
    ∃ u ∈ (narrowsShow.travel.advance (.ofMillis 200)).2, u.arrived = true ∧
      u.position = narrowsShow.battle.world.grid.layout.center ⟨0, 0⟩ := by
  obtain ⟨_, _, _, _, harrivals⟩ := locomotion_converges create_narrows (.ofMillis 500)
    [.input .advance, .input .advance, .input .advance, .input (.attempt ⟨0, 1⟩ ⟨0, 1⟩),
      .tick (.ofMillis 300), .input (.attempt ⟨0, 0⟩ ⟨0, 0⟩), .tick (.ofMillis 300)]
  have hupdate : ∃ u ∈ (narrowsShow.travel.advance (.ofMillis 200)).2,
      u.actor = .first ∧ u.arrived = true := by decide +kernel
  have hplayer : narrowsShow.battle.world.actor? .first = some ⟨.first, .player, ⟨0, 0⟩⟩ := by
    decide +kernel
  obtain ⟨u, hu, hactor, harrived⟩ := hupdate
  obtain ⟨a, ha, hposition⟩ := harrivals _ u hu harrived
  obtain rfl := Option.some.inj (hplayer.symm.trans (hactor ▸ ha))
  exact ⟨create_narrows, u, hu, harrived, hposition⟩

end Battle

end HexSkirmish
