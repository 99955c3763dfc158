import HexSkirmish.Script
import HexSkirmish.Locomotion.Playback
import HexSkirmish.Proofs.FrameCounts
import HexSkirmish.Proofs.Hands
import HexSkirmish.Proofs.Maps
import HexSkirmish.Proofs.Overlays
import Mathlib.Logic.Function.Iterate

/-! Scripted battles from their setup to their end. Between two turns of the player there are a few
phases that do their work of themselves and cannot be rejected, so the player's turn is open whenever
the script wants to move. A move that is rejected does not close it, and a battle that is under way
can be concluded. So nothing goes wrong, and but for the maps the record is known in advance. -/

namespace HexSkirmish

/-! ### Maps without a highlight -/

namespace MapText

variable {w : World} {c : Coord}

theorem tileSymbol_ne_star (h : w.Unmarked) : tileSymbol w c ≠ '*' := by
  have hc := h c
  unfold tileSymbol
  cases ht : w.grid.tileAt? c with
  | none => decide
  | some t =>
    simp only [Grid.effect?, ht, Option.map_some, ne_eq, Option.some.injEq] at hc
    simp only [hc, if_false]
    split <;> decide

theorem symbol_ne_star (h : w.Unmarked) (roster : List Actor) : symbol w roster c ≠ '*' := by
  unfold symbol
  split
  · split <;> decide
  · exact tileSymbol_ne_star h

/-- On a board without the movement highlight there is no star. -/
theorem star_notMem_mapText (h : w.Unmarked) : '*' ∉ w.mapText.toList := by
  rw [← List.count_eq_zero, count_mapText (by decide) (by decide), List.countP_eq_zero]
  exact fun c _ => by simpa using symbol_ne_star h w.roster

end MapText

/-! ### From one turn of the player to the next -/

/-- How many phases do their work before the player can act. -/
def Phase.untilPlayer : Phase → Nat
  | .playerActs | .battleEnd => 0
  | .playerBegin => 1
  | .roundBegin => 2
  | .battleBegin | .roundEnd => 3
  | .npcEnd => 4
  | .npcActs => 5
  | .npcBegin => 6
  | .playerEnd => 7

theorem Phase.acts_of_untilPlayer {p : Phase} (h : p.untilPlayer = 0) (hlasts : p ≠ .battleEnd) :
    p = .playerActs := by
  cases p <;> simp_all [Phase.untilPlayer]

theorem Phase.works_of_untilPlayer {p : Phase} (h : 0 < p.untilPlayer) :
    p ≠ .playerActs ∧ p ≠ .battleEnd := by
  cases p <;> simp_all [Phase.untilPlayer]

/-- The phases of a round that are left when the player's turn is over. -/
def Phase.isClosing : Phase → Bool
  | .playerEnd | .npcBegin | .npcActs | .npcEnd | .roundEnd => true
  | _ => false

/-- The number of the round to which the player's next turn, or the one that is open, belongs. -/
def TurnState.turnRound (s : TurnState) : Nat :=
  if s.phase.isClosing then min (s.round + 1) countMax else s.round

theorem TurnState.turnRound_of_isClosing {s : TurnState} (h : s.phase.isClosing = true) :
    s.turnRound = min (s.round + 1) countMax := if_pos h

/-- If the player's turn is open, the whole budget is there. -/
def TurnState.Unspent (s : TurnState) (rules : TurnRules) : Prop :=
  s.phase = .playerActs → s.budget = rules.movementPerTurn

namespace Turn

variable {s : TurnState}

/-- On the way to the player's turn nothing is rejected, and every phase brings it one nearer. -/
theorem transition_advance (h : 0 < s.phase.untilPlayer) (rules : TurnRules) (w : World)
    (g : Generator) :
    ∃ t, transition s .advance rules w g = .ok t ∧
      t.state.phase.untilPlayer + 1 = s.phase.untilPlayer ∧ t.state.phase ≠ .battleEnd ∧
      t.state.turnRound = s.turnRound ∧ t.state.Unspent rules := by
  obtain ⟨phase, budget, round, goal⟩ := s
  cases phase with
  | playerActs | battleEnd => cases h
  | _ => exact ⟨_, rfl, rfl, nofun, rfl, fun hacts => by first | rfl | cases hacts⟩

end Turn

namespace Battle

variable {b next : Battle} {input : TurnInput} {events : List Event}

theorem after_of_submit (h : b.submit input = .ok (next, events)) : b.after input = next := by
  simp only [after, h]

theorem submit_advance (h : 0 < b.state.phase.untilPlayer) :
    ∃ events, b.submit .advance = .ok (b.after .advance, events) ∧
      (b.after .advance).state.phase.untilPlayer + 1 = b.state.phase.untilPlayer ∧
      (b.after .advance).state.phase ≠ .battleEnd ∧
      (b.after .advance).state.turnRound = b.state.turnRound ∧
      (b.after .advance).rules = b.rules ∧ (b.after .advance).state.Unspent b.rules := by
  obtain ⟨t, ht, hnearer, hlasts, hround, hunspent⟩ :=
    Turn.transition_advance h b.rules b.world b.generator
  have hsubmit := submit_ok.mpr ⟨t, ht, rfl, rfl⟩
  rw [after_of_submit hsubmit]
  exact ⟨_, hsubmit, hnearer, hlasts, hround, rfl, hunspent⟩

/-- A battle with the player's turn of a round just opened. -/
structure Opened (round : Nat) (b : Battle) : Prop where
  acts : b.state.phase = .playerActs
  round : b.state.round = round
  budget : b.state.budget = b.rules.movementPerTurn

theorem opened_of_acts (h : b.state.phase = .playerActs) (hunspent : b.state.Unspent b.rules) :
    b.Opened b.state.turnRound :=
  ⟨h, by simp [TurnState.turnRound, h, Phase.isClosing], hunspent h⟩

theorem advanceFor_open (n : Nat) (h : b.state.phase = .playerActs) : (advanceFor n b).1 = b := by
  cases n with
  | zero => rfl
  | succ n => simp [advanceFor, h, Phase.awaitsPlayer]

theorem advanceFor_going (n : Nat) (h : 0 < b.state.phase.untilPlayer) :
    (advanceFor (n + 1) b).1 = (advanceFor n (b.after .advance)).1 := by
  obtain ⟨_, hsubmit, _⟩ := submit_advance h
  obtain ⟨hacts, hend⟩ := Phase.works_of_untilPlayer h
  simp [advanceFor, Phase.awaitsPlayer, Phase.isFinal, hacts, hend, hsubmit]

/-- With advances enough the player's turn opens. -/
theorem advanceFor_opened {n : Nat} (hn : b.state.phase.untilPlayer ≤ n)
    (hlasts : b.state.phase ≠ .battleEnd) (hunspent : b.state.Unspent b.rules) :
    (advanceFor n b).1.Opened b.state.turnRound := by
  -- Each advance takes one phase off the way, so the way does not outlast the advances.
  induction n generalizing b with
  | zero =>
    have hacts := Phase.acts_of_untilPlayer (Nat.le_zero.mp hn) hlasts
    rw [advanceFor_open 0 hacts]
    exact opened_of_acts hacts hunspent
  | succ n ih =>
    rcases Nat.eq_zero_or_pos b.state.phase.untilPlayer with hzero | hgoing
    · have hacts := Phase.acts_of_untilPlayer hzero hlasts
      rw [advanceFor_open _ hacts]
      exact opened_of_acts hacts hunspent
    · obtain ⟨_, _, hnearer, hlasts', hround, hrules, hunspent'⟩ := submit_advance hgoing
      rw [advanceFor_going n hgoing, ← hround]
      exact ih (by omega) hlasts' (hrules.symm ▸ hunspent')

/-- There are fewer phases on the way than phases. -/
theorem advanceToPlayer_opened (h : 0 < b.state.phase.untilPlayer) :
    b.advanceToPlayer.1.Opened b.state.turnRound := by
  have hfew : b.state.phase.untilPlayer ≤ Phase.all.length := by
    cases b.state.phase <;> decide
  obtain ⟨hacts, hend⟩ := Phase.works_of_untilPlayer h
  exact advanceFor_opened hfew hend fun hopen => absurd hopen hacts

/-! ### What the script does is a run -/

/-- Some inputs lead from one battle to another. -/
def LeadsTo (b next : Battle) : Prop := ∃ inputs, b.play inputs = next

theorem LeadsTo.refl (b : Battle) : b.LeadsTo b := ⟨[], rfl⟩

theorem LeadsTo.trans {last : Battle} (h : b.LeadsTo next) (h' : next.LeadsTo last) :
    b.LeadsTo last := by
  obtain ⟨earlier, rfl⟩ := h
  obtain ⟨later, rfl⟩ := h'
  exact ⟨earlier ++ later, List.foldl_append⟩

theorem leadsTo_after (b : Battle) (input : TurnInput) : b.LeadsTo (b.after input) :=
  ⟨[input], rfl⟩

theorem leadsTo_advanceFor (n : Nat) (b : Battle) : b.LeadsTo (advanceFor n b).1 := by
  induction n generalizing b with
  | zero => exact .refl b
  | succ n ih =>
    simp only [advanceFor]
    split
    · exact .refl b
    · split
      · exact .refl b
      · rename_i hsubmit
        exact (after_of_submit hsubmit ▸ leadsTo_after b .advance).trans (ih _)

end Battle

/-! ### The script -/

namespace Script

variable {b : Battle}

theorem makeMove_eq (b : Battle) :
    makeMove b = b ∨ ∃ goal, makeMove b = b.after (.attempt goal goal) := by
  unfold makeMove
  split
  · exact .inl rfl
  · exact .inr ⟨_, rfl⟩

theorem leadsTo_makeMove (b : Battle) : b.LeadsTo (makeMove b) := by
  rcases makeMove_eq b with hstays | ⟨goal, hmoves⟩
  · rw [hstays]
    exact .refl b
  · rw [hmoves]
    exact b.leadsTo_after _

/-- Accepted or not, a move leaves the phase and the round alone. -/
theorem makeMove_state (b : Battle) : (makeMove b).state.phase = b.state.phase ∧
    (makeMove b).state.round = b.state.round := by
  rcases makeMove_eq b with hstays | ⟨goal, hmoves⟩
  · rw [hstays]
    exact ⟨rfl, rfl⟩
  · rw [hmoves]
    rcases b.submit_cases (.attempt goal goal) with ⟨_, hrejected⟩ | ⟨t, hpassage, haccepted⟩
    · simp only [Battle.after, hrejected, and_self]
    · rw [Battle.after_of_submit haccepted]
      cases hpassage
      exact ⟨rfl, rfl⟩

/-- A round from its first phase to the end of the player's turn. -/
def playRound (b : Battle) : Battle := (makeMove b.advanceToPlayer.1).after .endTurn

/-- The battle as the script finds it in the player's turn of a round. -/
def turn (b : Battle) (n : Nat) : Battle := (playRound^[n] b).advanceToPlayer.1

theorem submit_endTurn (h : b.state.phase = .playerActs) :
    b.submit .endTurn = .ok (b.after .endTurn, []) ∧
      (b.after .endTurn).state = { b.state with phase := .playerEnd } := by
  have hsubmit : b.submit .endTurn =
      .ok ({ b with state := { b.state with phase := .playerEnd } }, []) := by
    simp [Battle.submit, Turn.transition, h, Phase.isFinal]
  rw [Battle.after_of_submit hsubmit]
  exact ⟨hsubmit, rfl⟩

/-- A round that the script plays ends as it should, with the number that it had. -/
theorem playRound_spec (h : 0 < b.state.phase.untilPlayer) :
    b.advanceToPlayer.1.Opened b.state.turnRound ∧
      (makeMove b.advanceToPlayer.1).submit .endTurn = .ok (playRound b, []) ∧
      (playRound b).state.phase = .playerEnd ∧ (playRound b).state.round = b.state.turnRound := by
  have hopened := Battle.advanceToPlayer_opened h
  obtain ⟨hphase, hround⟩ := makeMove_state b.advanceToPlayer.1
  obtain ⟨hended, hstate⟩ := submit_endTurn (hphase.trans hopened.acts)
  exact ⟨hopened, hended, congrArg TurnState.phase hstate,
    (congrArg TurnState.round hstate).trans (hround.trans hopened.round)⟩

theorem leadsTo_playRound (b : Battle) : b.LeadsTo (playRound b) :=
  ((Battle.leadsTo_advanceFor _ b).trans (leadsTo_makeMove _)).trans (Battle.leadsTo_after _ _)

theorem leadsTo_playRounds (b : Battle) (n : Nat) : b.LeadsTo (playRound^[n] b) := by
  induction n with
  | zero => exact .refl b
  | succ n ih =>
    rw [Function.iterate_succ_apply']
    exact ih.trans (leadsTo_playRound _)

theorem leadsTo_turn (b : Battle) (n : Nat) : b.LeadsTo (turn b n) :=
  (leadsTo_playRounds b n).trans (Battle.leadsTo_advanceFor _ _)

/-- Round after round the way to the player's next turn is free, and the rounds are counted. -/
theorem playRounds_state (h : 0 < b.state.phase.untilPlayer) {n : Nat}
    (hn : b.state.turnRound + n ≤ countMax) :
    0 < (playRound^[n] b).state.phase.untilPlayer ∧
      (playRound^[n] b).state.turnRound = b.state.turnRound + n := by
  induction n with
  | zero => exact ⟨h, rfl⟩
  | succ n ih =>
    obtain ⟨hgoing, hround⟩ := ih (by omega)
    obtain ⟨_, _, hphase, hcount⟩ := playRound_spec hgoing
    rw [Function.iterate_succ_apply']
    refine ⟨by rw [hphase]; decide, ?_⟩
    rw [TurnState.turnRound_of_isClosing (by rw [hphase]; rfl), hcount, hround]
    omega

/-- The record of the rounds, one after the other. -/
theorem playRounds_eq (h : 0 < b.state.phase.untilPlayer) (n : Nat) (text : String) :
    playRounds n b text =
      conclude (playRound^[n] b)
        (text ++ String.join ((List.range n).map fun k => roundText (turn b k))) := by
  -- After its first round the script goes on as one that begins with the battle it has left.
  induction n generalizing b text with
  | zero => simp [playRounds]
  | succ n ih =>
    obtain ⟨hopened, hended, hphase, _⟩ := playRound_spec h
    have hgoing : 0 < (playRound b).state.phase.untilPlayer := by
      rw [hphase]
      decide
    have hlasts : b.advanceToPlayer.1.state.phase.isFinal = false := by
      rw [hopened.acts]
      rfl
    simp only [playRounds, hlasts, hended, Bool.false_eq_true, if_false]
    rw [ih hgoing, Function.iterate_succ_apply, List.range_succ_eq_map, List.map_cons,
      String.join_cons, List.map_map, String.append_assoc]
    rfl

/-! ### The script with routes shown

The record does not depend on showing the routes of the actors, but the program does show them, and
would never come to the end of its record if it did not come to the end of a route. -/

/-- The player's one move of a turn, its route shown to its end. -/
def watchMove (b : Battle) (l : Locomotion) : Battle × Locomotion :=
  match b.world.farthestReachable? b.state.budget with
  | none => (b, l)
  | some goal =>
    match b.submit (.attempt goal goal) with
    | .ok (next, events) => (next, (l.playRoutes next.world.grid.layout events).2)
    | .error _ => (b, l)

def watchRounds : Nat → Battle → Locomotion → String → Record × Locomotion
  | 0, b, l, text => (conclude b text, l)
  | n + 1, b, l, text =>
    let (ready, events) := b.advanceToPlayer
    let l := (l.playRoutes ready.world.grid.layout events).2
    if ready.state.phase.isFinal then (conclude ready text, l)
    else
      let text := text ++ roundText ready
      let (moved, l) := watchMove ready l
      match moved.submit .endTurn with
      | .ok (next, _) => watchRounds n next l text
      | .error r => (⟨text, .rejected r⟩, l)

def watch (b : Battle) (rounds : Nat) : Record × Locomotion :=
  watchRounds rounds b .standard ("seed " ++ toString b.seed.toNat ++ "\n")

variable {l : Locomotion}

theorem watchMove_battle : (watchMove b l).1 = makeMove b := by
  unfold watchMove makeMove
  cases b.world.farthestReachable? b.state.budget with
  | none => rfl
  | some goal =>
    simp only
    cases b.submit (.attempt goal goal) <;> rfl

theorem watchMove_isIdle (h : l.isIdle = true) : (watchMove b l).2.isIdle = true := by
  unfold watchMove
  split
  · exact h
  · split
    · exact Locomotion.playOut_isIdle _ _ _
    · exact h

/-- The record is the same, and no actor is left on its way. -/
theorem watchRounds_spec (n : Nat) (b : Battle) (l : Locomotion) (text : String)
    (h : l.isIdle = true) :
    (watchRounds n b l text).1 = playRounds n b text ∧
      (watchRounds n b l text).2.isIdle = true := by
  induction n generalizing b l text with
  | zero => exact ⟨rfl, h⟩
  | succ n ih =>
    have hshown := Locomotion.playOut_isIdle
      (l.handle b.advanceToPlayer.1.world.grid.layout b.advanceToPlayer.2) .frame (by decide)
    simp only [watchRounds, playRounds, watchMove_battle]
    split
    · exact ⟨rfl, hshown⟩
    · cases (makeMove b.advanceToPlayer.1).submit .endTurn with
      | ok accepted => exact ih _ _ _ (watchMove_isIdle hshown)
      | error reason => exact ⟨rfl, watchMove_isIdle hshown⟩

/-! ### The whole record -/

/-- A battle that is under way can be concluded, and then no tile is highlighted. -/
theorem submit_conclude (h : b.state.phase ≠ .battleEnd) :
    (∃ events, b.submit .conclude = .ok (b.after .conclude, events)) ∧
      (b.after .conclude).world.Unmarked := by
  have hsubmit : b.submit .conclude =
      .ok (b.follow ⟨{ b.state with phase := .battleEnd }, [.clearEffects .moveable], b.generator⟩,
        (b.world.applyAll [.clearEffects .moveable]).2) := by
    simp [Battle.submit, Battle.follow, Turn.transition, h, Phase.isFinal]
  rw [Battle.after_of_submit hsubmit]
  exact ⟨⟨_, hsubmit⟩, World.unmarked_clearEffects _⟩

theorem playRounds_create {c : BattleConfig} {fresh : UInt64} {events : List Event}
    (h : Battle.create c fresh = .ok (b, events)) {n : Nat} (hn : n ≤ countMax) :
    0 < (playRound^[n] b).state.phase.untilPlayer ∧ (playRound^[n] b).state.turnRound = n := by
  obtain ⟨_, _, _, hstate, _⟩ := Battle.create_eq h
  have hfirst : b.state.turnRound = 0 := by
    rw [hstate]
    rfl
  have hwaits : 0 < b.state.phase.untilPlayer := by
    rw [hstate]
    decide
  simpa [hfirst] using playRounds_state hwaits (by omega : b.state.turnRound + n ≤ countMax)

/-- The battle as the script finds it in the player's turn of a round, for whatever setup. -/
theorem turn_spec {c : BattleConfig} {fresh : UInt64} {events : List Event}
    (h : Battle.create c fresh = .ok (b, events)) {n : Nat} (hn : n ≤ countMax) :
    (turn b n).Opened n ∧ (turn b n).state.budget = c.movementPerTurn ∧
      (turn b n).world.hand = Turn.cards c.handSize (.ofSeed (c.seed.getD fresh)) ∧
      (makeMove (turn b n)).submit .endTurn = .ok (playRound^[n + 1] b, []) := by
  obtain ⟨hgoing, hround⟩ := playRounds_create h hn
  obtain ⟨hopened, hended, _⟩ := playRound_spec hgoing
  obtain ⟨inputs, hinputs⟩ := leadsTo_turn b n
  have hdealt := Battle.play_dealt h inputs
  rw [hinputs] at hdealt
  rw [hround] at hopened
  refine ⟨hopened, ?_, hdealt.hand_of_phase ?_, ?_⟩
  · exact hopened.budget.trans (congrArg TurnRules.movementPerTurn hdealt.rules)
  · exact congrArg Turn.isUndealt hopened.acts
  · rw [Function.iterate_succ_apply']
    exact hended

end Script

end HexSkirmish
