import HexSkirmish.Battle
import HexSkirmish.Proofs.Wandering

/-! What an accepted input can lead to, and runs of a battle. Commands that only a setup gives never
come from the turns: a turn moves actors and otherwise leaves actors and costs alike. -/

namespace HexSkirmish

/-- Commands that decide who and what is on the board. -/
def Command.isSetup : Command → Bool
  | .configure .. | .setCost .. | .place .. => true
  | _ => false

theorem Command.isSetup_of_isQuiet {command : Command} (h : command.isQuiet = true) :
    command.isSetup = false := by
  cases command <;> first | rfl | cases h

/-- The phases from the opening of the player's turn to its closing. -/
def Phase.isPlayers (p : Phase) : Bool := p == .playerActs || p == .playerEnd

/-- Outside a setup a command moves one actor or leaves actors and costs alike. -/
theorem World.apply_cases {w : World} {command : Command} (h : command.isSetup = false) :
    World.Alike w (w.apply command).1 ∨
      ∃ a goal, w.Admits a goal ∧ World.Moved w a goal (w.apply command).1 := by
  cases hquiet : command.isQuiet with
  | true => exact .inl (apply_alike hquiet)
  | false =>
    cases command with
    | move id goal tag =>
      rcases move_cases w id goal tag with ⟨a, rfl, hadmits⟩ | ⟨_, _, halike⟩
      · exact .inr ⟨a, goal, hadmits, hadmits.moved tag⟩
      · exact .inl halike
    | configure | setCost | place => cases h
    | _ => cases hquiet

namespace Turn

variable {s : TurnState} {input : TurnInput} {rules : TurnRules} {w : World} {g : Generator}
  {t : Transition}

/-! ### Accepted inputs -/

/-- The phases in which nothing happens, with those that follow them. -/
def idlePhases : List (Phase × Phase) :=
  [(.battleBegin, .roundBegin), (.npcActs, .npcEnd), (.npcEnd, .roundEnd)]

theorem idlePhases_apart : ∀ q ∈ idlePhases, q.1.isPlayers = false ∧ q.2.isPlayers = false ∧
    q.1 ≠ .roundBegin ∧ q.1 ≠ .roundEnd ∧ q.1 ≠ .battleEnd := by
  decide

/-- Everything that an accepted input can lead to. -/
inductive Passage (s : TurnState) (rules : TurnRules) (w : World) (g : Generator) :
    TurnInput → Transition → Prop
  | passed {next : Phase} (hphase : (s.phase, next) ∈ idlePhases) :
      Passage s rules w g .advance ⟨{ s with phase := next }, [], g⟩
  | dealt (hphase : s.phase = .roundBegin) :
      Passage s rules w g .advance
        ⟨{ s with phase := .playerBegin }, (drawCards (rules.handSize - w.hand.length) g).1,
          (drawCards (rules.handSize - w.hand.length) g).2⟩
  | opened (hphase : s.phase = .playerBegin) :
      Passage s rules w g .advance
        ⟨{ s with phase := .playerActs, budget := rules.movementPerTurn, goal := none },
          openingEffects w rules.movementPerTurn, g⟩
  | moved {stop : Coord} {p : Actor} (hphase : s.phase = .playerActs)
      (hplayer : w.player? = some p) (hfound : (w.grid.route p.coord stop).isFound = true)
      (hpos : 0 < (w.grid.route p.coord stop).length)
      (hbudget : min (w.grid.route p.coord stop).length countMax ≤ s.budget) :
      Passage s rules w g (.attempt stop stop)
        ⟨{ s with
            budget := s.budget - min (w.grid.route p.coord stop).length countMax
            goal := some stop },
          [.move p.id stop none,
            .highlight stop (s.budget - min (w.grid.route p.coord stop).length countMax)], g⟩
  | ended (hphase : s.phase = .playerActs) :
      Passage s rules w g .endTurn ⟨{ s with phase := .playerEnd }, [], g⟩
  | closed (hphase : s.phase = .playerEnd) :
      Passage s rules w g .advance
        ⟨{ s with phase := .npcBegin, goal := none }, closingEffects s.goal, g⟩
  | wandered (hphase : s.phase = .npcBegin) :
      Passage s rules w g .advance
        ⟨{ s with phase := .npcActs }, (Wander.plan w g).1, (Wander.plan w g).2⟩
  | renewed (hphase : s.phase = .roundEnd) :
      Passage s rules w g .advance
        ⟨{ s with phase := .roundBegin, round := min (s.round + 1) countMax }, [], g⟩
  | concluded (hphase : s.phase ≠ .battleEnd) :
      Passage s rules w g .conclude
        ⟨{ s with phase := .battleEnd }, [.clearEffects .moveable], g⟩

/-- The same by what it does to the board. Three transitions start something there. -/
inductive Step (s : TurnState) (rules : TurnRules) (w : World) (g : Generator) :
    TurnInput → Transition → Prop
  | opened (hphase : s.phase = .playerBegin) :
      Step s rules w g .advance
        ⟨{ s with phase := .playerActs, budget := rules.movementPerTurn, goal := none },
          openingEffects w rules.movementPerTurn, g⟩
  | moved {stop : Coord} {p : Actor} (hphase : s.phase = .playerActs)
      (hplayer : w.player? = some p) (hfound : (w.grid.route p.coord stop).isFound = true)
      (hpos : 0 < (w.grid.route p.coord stop).length)
      (hbudget : min (w.grid.route p.coord stop).length countMax ≤ s.budget) :
      Step s rules w g (.attempt stop stop)
        ⟨{ s with
            budget := s.budget - min (w.grid.route p.coord stop).length countMax
            goal := some stop },
          [.move p.id stop none,
            .highlight stop (s.budget - min (w.grid.route p.coord stop).length countMax)], g⟩
  | wandered (hphase : s.phase = .npcBegin) :
      Step s rules w g .advance
        ⟨{ s with phase := .npcActs }, (Wander.plan w g).1, (Wander.plan w g).2⟩
  | quiet {input : TurnInput} {t : Transition} (hinput : ∀ start stop, input ≠ .attempt start stop)
      (hphase : t.state.phase ≠ .playerActs)
      (heffects : ∀ command ∈ t.effects, command.isQuiet = true) :
      Step s rules w g input t

theorem mem_drawCards {n : Nat} {command : Command} (h : command ∈ (drawCards n g).1) :
    ∃ card, command = .draw card := by
  induction n generalizing g with
  | zero => cases h
  | succ n ih =>
    simp only [drawCards, List.mem_append, List.mem_map] at h
    rcases h with ⟨card, _, rfl⟩ | hlater
    · exact ⟨card, rfl⟩
    · exact ih hlater

theorem drawCards_quiet (n : Nat) (g : Generator) :
    ∀ command ∈ (drawCards n g).1, command.isQuiet = true := by
  intro command hcommand
  obtain ⟨card, rfl⟩ := mem_drawCards hcommand
  rfl

theorem openingEffects_quiet (w : World) (budget : Nat) :
    ∀ command ∈ openingEffects w budget, command.isQuiet = true := by
  unfold openingEffects
  split <;> simp [Command.isQuiet]

theorem closingEffects_quiet (goal : Option Coord) :
    ∀ command ∈ closingEffects goal, command.isQuiet = true := by
  cases goal <;> simp [closingEffects, Command.isQuiet]

theorem passage_of_advance (h : advance s rules w g = .ok t) :
    Passage s rules w g .advance t := by
  simp only [advance] at h
  split at h <;> first | cases h; done | obtain rfl := Except.ok.inj h
  · exact .passed (by simp [idlePhases, *])
  · exact .dealt ‹_›
  · exact .opened ‹_›
  · exact .closed ‹_›
  · exact .wandered ‹_›
  · exact .passed (by simp [idlePhases, *])
  · exact .passed (by simp [idlePhases, *])
  · exact .renewed ‹_›

/-- A move is accepted exactly if the gesture is a click on a tile that a route within the budget
leads to. -/
theorem attempt_ok {start stop : Coord} : attempt s start stop w g = .ok t ↔
    start = stop ∧ s.phase = .playerActs ∧ w.grid.contains stop = true ∧
      ∃ p, w.player? = some p ∧ (w.grid.route p.coord stop).isFound = true ∧
        0 < (w.grid.route p.coord stop).length ∧
        min (w.grid.route p.coord stop).length countMax ≤ s.budget ∧
        ⟨{ s with
            budget := s.budget - min (w.grid.route p.coord stop).length countMax
            goal := some stop },
          [.move p.id stop none,
            .highlight stop (s.budget - min (w.grid.route p.coord stop).length countMax)], g⟩ =
          t := by
  have hrefused : ∀ n, (min n countMax = 0 ∨ s.budget < min n countMax) ↔
      ¬ (0 < n ∧ min n countMax ≤ s.budget) := by
    intro n
    simp only [countMax]
    omega
  simp only [attempt, hrefused]
  by_cases hphase : s.phase = .playerActs
  · by_cases hstart : start = stop
    · by_cases hin : w.grid.contains stop = true
      · cases hplayer : w.player? with
        | none => simp [hphase, hstart, hin]
        | some p =>
          by_cases hfound : (w.grid.route p.coord stop).isFound = true
          · by_cases hfits : 0 < (w.grid.route p.coord stop).length ∧
                min (w.grid.route p.coord stop).length countMax ≤ s.budget
            · simp only [hphase, hstart, hin, hfound, hfits, Bool.not_true, Bool.false_eq_true,
                if_false, ne_eq, not_true_eq_false, Except.ok.injEq, true_and, and_self,
                Option.some.injEq, exists_eq_left']
            · simp only [hphase, hstart, hin, hfound, hfits, Bool.not_true, Bool.false_eq_true,
                if_false, ne_eq, not_true_eq_false, not_false_eq_true, if_true, reduceCtorEq,
                true_and, Option.some.injEq, exists_eq_left', false_iff]
              exact fun h => hfits ⟨h.1, h.2.1⟩
          · simp [hphase, hstart, hin, hfound]
      · simp [hphase, hstart, hin]
    · simp [hphase, hstart]
  · simp [hphase]

theorem transition_attempt {start stop : Coord} (hphase : s.phase = .playerActs) :
    transition s (.attempt start stop) rules w g = attempt s start stop w g := by
  simp [transition, hphase, Phase.isFinal]

theorem passage_of_transition (h : transition s input rules w g = .ok t) :
    Passage s rules w g input t := by
  simp only [transition] at h
  split at h
  · cases h
  · rename_i hfinal
    split at h
    · exact passage_of_advance h
    · obtain ⟨rfl, hphase, _, p, hplayer, hfound, hpos, hbudget, rfl⟩ := attempt_ok.mp h
      exact .moved hphase hplayer hfound hpos hbudget
    · split at h
      · obtain rfl := Except.ok.inj h
        exact .ended ‹_›
      · cases h
    · obtain rfl := Except.ok.inj h
      exact .concluded (by simpa [Phase.isFinal] using hfinal)

theorem Passage.step (h : Passage s rules w g input t) : Step s rules w g input t := by
  cases h with
  | passed hphase =>
    obtain ⟨_, hnext, _⟩ := idlePhases_apart _ hphase
    refine .quiet (by simp) (fun hacts => ?_) (by simp)
    simp only at hacts hnext
    rw [hacts] at hnext
    cases hnext
  | dealt => exact .quiet (by simp) (by simp) (drawCards_quiet _ _)
  | opened hphase => exact .opened hphase
  | moved hphase hplayer hfound hpos hbudget => exact .moved hphase hplayer hfound hpos hbudget
  | ended => exact .quiet (by simp) (by simp) (by simp)
  | closed => exact .quiet (by simp) (by simp) (closingEffects_quiet _)
  | wandered hphase => exact .wandered hphase
  | renewed => exact .quiet (by simp) (by simp) (by simp)
  | concluded => exact .quiet (by simp) (by simp) (by simp [Command.isQuiet])

theorem step_of_transition (h : transition s input rules w g = .ok t) :
    Step s rules w g input t := (passage_of_transition h).step

/-- A turn sets nothing up. -/
theorem Step.isSetup (h : Step s rules w g input t) :
    ∀ command ∈ t.effects, command.isSetup = false := by
  cases h with
  | opened =>
    exact fun command hc => Command.isSetup_of_isQuiet (openingEffects_quiet _ _ command hc)
  | moved => simp [Command.isSetup]
  | wandered =>
    intro command hc
    obtain ⟨npc, _, goal, rfl⟩ := Wander.mem_planFor hc
    rfl
  | quiet _ _ heffects => exact fun command hc => Command.isSetup_of_isQuiet (heffects command hc)

end Turn

/-! ### Runs -/

namespace Battle

variable {b next : Battle} {input : TurnInput} {events : List Event}

/-- The battle after a transition. -/
def follow (b : Battle) (t : Transition) : Battle :=
  { b with world := (b.world.applyAll t.effects).1, state := t.state, generator := t.generator }

theorem submit_ok : b.submit input = .ok (next, events) ↔
    ∃ t, Turn.transition b.state input b.rules b.world b.generator = .ok t ∧
      b.follow t = next ∧ (b.world.applyAll t.effects).2 = events := by
  simp only [submit]
  cases Turn.transition b.state input b.rules b.world b.generator with
  | error r => simp
  | ok t => simp [follow]

/-- While a battle waits for the player, a click is accepted exactly if a route within the budget leads
to its cell. -/
theorem click_accepted_iff {p : Actor} {c : Coord} (hphase : b.state.phase = .playerActs)
    (hplayer : b.world.player? = some p) :
    (∃ next events, b.submit (.attempt c c) = .ok (next, events)) ↔
      b.world.grid.contains c = true ∧ (b.world.grid.route p.coord c).isFound = true ∧
      0 < (b.world.grid.route p.coord c).length ∧
      min (b.world.grid.route p.coord c).length countMax ≤ b.state.budget := by
  simp only [submit_ok, Turn.transition_attempt hphase, Turn.attempt_ok, hplayer, hphase, true_and,
    Option.some.injEq, exists_eq_left']
  constructor
  · rintro ⟨_, _, _, ⟨hin, hfound, hpos, hle, _⟩, _⟩
    exact ⟨hin, hfound, hpos, hle⟩
  · rintro ⟨hin, hfound, hpos, hle⟩
    exact ⟨_, _, _, ⟨hin, hfound, hpos, hle, rfl⟩, rfl, rfl⟩

/-- Below the greatest count, lengths of routes need no bound. -/
theorem click_accepted_iff_of_lt {p : Actor} {c : Coord} (hphase : b.state.phase = .playerActs)
    (hplayer : b.world.player? = some p) (hbudget : b.state.budget < countMax) :
    (∃ next events, b.submit (.attempt c c) = .ok (next, events)) ↔
      b.world.grid.contains c = true ∧ (b.world.grid.route p.coord c).isFound = true ∧
      0 < (b.world.grid.route p.coord c).length ∧
      (b.world.grid.route p.coord c).length ≤ b.state.budget := by
  have hmin : ∀ n, min n countMax ≤ b.state.budget ↔ n ≤ b.state.budget := by omega
  rw [click_accepted_iff hphase hplayer, hmin]

/-- The battle after an input, which changes nothing if it is rejected. -/
def after (b : Battle) (input : TurnInput) : Battle :=
  match b.submit input with
  | .ok (next, _) => next
  | .error _ => b

/-- The battle after some inputs, one after the other. -/
def play (b : Battle) (inputs : List TurnInput) : Battle := inputs.foldl after b

/-- An accepted input: the phase in which it came, and what was reported of it. -/
structure Entry where
  phase : Phase
  input : TurnInput
  events : List Event
deriving DecidableEq

/-- The entry of an input in the log. A rejected one makes none. -/
def entry? (b : Battle) (input : TurnInput) : Option Entry :=
  match b.submit input with
  | .ok (_, events) => some ⟨b.state.phase, input, events⟩
  | .error _ => none

/-- The entry of a transition. -/
def entryOf (b : Battle) (input : TurnInput) (t : Transition) : Entry :=
  ⟨b.state.phase, input, (b.world.applyAll t.effects).2⟩

/-- The log of some inputs, one after the other. -/
def log (b : Battle) : List TurnInput → List Entry
  | [] => []
  | input :: rest => (b.entry? input).toList ++ (b.after input).log rest

theorem play_append (first second : List TurnInput) :
    b.play (first ++ second) = (b.play first).play second := by
  simp [play]

theorem log_append (first second : List TurnInput) :
    b.log (first ++ second) = b.log first ++ (b.play first).log second := by
  induction first generalizing b with
  | nil => rfl
  | cons input rest ih => simp [log, play, ih]

/-- An input is rejected, or it is followed. -/
theorem submit_cases (b : Battle) (input : TurnInput) :
    (∃ reason, b.submit input = .error reason) ∨
      ∃ t, Turn.Passage b.state b.rules b.world b.generator input t ∧
        b.submit input = .ok (b.follow t, (b.world.applyAll t.effects).2) := by
  cases hsubmit : b.submit input with
  | error reason => exact .inl ⟨reason, rfl⟩
  | ok accepted =>
    obtain ⟨next, events⟩ := accepted
    obtain ⟨t, ht, rfl, rfl⟩ := submit_ok.mp hsubmit
    exact .inr ⟨t, Turn.passage_of_transition ht, rfl⟩

/-- What every accepted input preserves of a battle and its log, a run preserves. -/
theorem play_log_induction {P : Battle → List Entry → Prop} (earlier : List Entry)
    (h : P b earlier)
    (hpassage : ∀ b log input t, P b log →
      Turn.Passage b.state b.rules b.world b.generator input t →
      P (b.follow t) (log ++ [b.entryOf input t])) (inputs : List TurnInput) :
    P (b.play inputs) (earlier ++ b.log inputs) := by
  induction inputs generalizing b earlier with
  | nil => simpa [play, log] using h
  | cons input rest ih =>
    rw [log, ← List.append_assoc]
    apply ih
    rcases submit_cases b input with ⟨reason, hrejected⟩ | ⟨t, ht, haccepted⟩
    · simpa [after, entry?, hrejected] using h
    · simpa [after, entry?, haccepted, entryOf] using hpassage b earlier input t h ht

/-- What every accepted input preserves, a run preserves. -/
theorem play_induction {P : Battle → Prop} (h : P b)
    (hpassage : ∀ b input t, P b → Turn.Passage b.state b.rules b.world b.generator input t →
      P (b.follow t)) (inputs : List TurnInput) : P (b.play inputs) :=
  play_log_induction (P := fun b _ => P b) [] h
    (fun b _ input t hb ht => hpassage b input t hb ht) inputs

/-- What every step preserves, a run preserves. -/
theorem play_invariant {P : Battle → Prop} (h : P b)
    (hstep : ∀ b input t, P b → Turn.Step b.state b.rules b.world b.generator input t →
      P (b.follow t)) (inputs : List TurnInput) : P (b.play inputs) :=
  play_induction h (fun b input t hb ht => hstep b input t hb ht.step) inputs

/-- What commands preserve that set nothing up, a run preserves. -/
theorem play_world_invariant {P : World → Prop} (h : P b.world)
    (happly : ∀ w, ∀ command : Command, command.isSetup = false → P w → P (w.apply command).1)
    (inputs : List TurnInput) : P (b.play inputs).world :=
  play_invariant (P := fun b => P b.world) h
    (fun _ _ _ hb ht => World.applyAll_invariant hb fun w command hc =>
      happly w command (ht.isSetup command hc)) inputs

end Battle

end HexSkirmish
