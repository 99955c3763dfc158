import HexSkirmish.Proofs.Hands

/-! What a battle depends on, and what it does not. The transitions are written down once more with
one generator that is used up as they go along, so that a word drawn on the way to a rejection would
be lost. It turns out that none is: a rejected input leaves everything as it was, and can be left out
of a history without a trace. The cards depend on the seed and the size of the hand alone. -/

namespace HexSkirmish

/-- The second list is the first one without some of its members, all of which satisfy `P`. -/
inductive Sifted {α : Type} (P : α → Prop) : List α → List α → Prop
  | nil : Sifted P [] []
  | keep (x : α) {xs ys : List α} : Sifted P xs ys → Sifted P (x :: xs) (x :: ys)
  | drop {x : α} {xs ys : List α} : P x → Sifted P xs ys → Sifted P (x :: xs) ys

theorem sifted_filter {α : Type} {P : α → Prop} [DecidablePred P] (xs : List α) :
    Sifted P xs (xs.filter fun x => ¬ P x) := by
  induction xs with
  | nil => exact .nil
  | cons x xs ih =>
    by_cases h : P x
    · rw [List.filter_cons_of_neg (by simpa using h)]
      exact .drop h ih
    · rw [List.filter_cons_of_pos (by simpa using h)]
      exact .keep x ih

/-! ### Transitions with one generator -/

namespace Turn

/-- Work that may draw words and may be rejected. Words that were drawn are not put back then. -/
abbrev Drawing := ExceptT TurnRejection (StateM Generator)

def handleAdvance (s : TurnState) (rules : TurnRules) (w : World) :
    Drawing (TurnState × List Command) := do
  match s.phase with
  | .battleBegin => return ({ s with phase := .roundBegin }, [])
  | .roundBegin =>
    let draws ← modifyGet (drawCards (rules.handSize - w.hand.length))
    return ({ s with phase := .playerBegin }, draws)
  | .playerBegin =>
    let budget := rules.movementPerTurn
    return ({ s with phase := .playerActs, budget, goal := none }, openingEffects w budget)
  | .playerActs => throw .awaitingPlayer
  | .playerEnd => return ({ s with phase := .npcBegin, goal := none }, closingEffects s.goal)
  | .npcBegin =>
    let steps ← modifyGet (Wander.plan w)
    return ({ s with phase := .npcActs }, steps)
  | .npcActs => return ({ s with phase := .npcEnd }, [])
  | .npcEnd => return ({ s with phase := .roundEnd }, [])
  | .roundEnd => return ({ s with phase := .roundBegin, round := min (s.round + 1) countMax }, [])
  | .battleEnd => throw .battleOver

def handleAttempt (s : TurnState) (start stop : Coord) (w : World) :
    Drawing (TurnState × List Command) :=
  if s.phase ≠ .playerActs then throw (.wrongPhase s.phase)
  else if start ≠ stop then throw (.gestureMismatch start stop)
  else if !w.grid.contains stop then throw (.invalidTile stop)
  else
    match w.player? with
    | none => throw .noPlayer
    | some p =>
      let route := w.grid.route p.coord stop
      if !route.isFound then throw (.noPath stop)
      else
        let distance := min route.length countMax
        if distance = 0 ∨ s.budget < distance then throw (.outOfBudget distance s.budget)
        else
          let budget := s.budget - distance
          return ({ s with budget, goal := some stop },
            [.move p.id stop none, .highlight stop budget])

def handle (s : TurnState) (input : TurnInput) (rules : TurnRules) (w : World) :
    Drawing (TurnState × List Command) :=
  if s.phase.isFinal then throw .battleOver
  else
    match input with
    | .advance => handleAdvance s rules w
    | .attempt start stop => handleAttempt s start stop w
    | .endTurn =>
      if s.phase = .playerActs then return ({ s with phase := .playerEnd }, [])
      else throw (.wrongPhase s.phase)
    | .conclude => return ({ s with phase := .battleEnd }, [.clearEffects .moveable])

/-- A transition with the generator as it is afterwards, which is the one before if there is no
transition. -/
def settle (g : Generator) : Except TurnRejection Transition →
    Except TurnRejection (TurnState × List Command) × Generator
  | .ok t => (.ok (t.state, t.effects), t.generator)
  | .error reason => (.error reason, g)

variable {s : TurnState} {input : TurnInput} {rules : TurnRules} {w : World} {g : Generator}

theorem handleAdvance_eq :
    (handleAdvance s rules w).run.run g = settle g (advance s rules w g) := by
  obtain ⟨phase, budget, round, goal⟩ := s
  cases phase <;> rfl

theorem handleAttempt_eq {start stop : Coord} :
    (handleAttempt s start stop w).run.run g = settle g (attempt s start stop w g) := by
  unfold handleAttempt attempt
  split
  · rfl
  · split
    · rfl
    · split
      · rfl
      · cases w.player? with
        | none => rfl
        | some p =>
          simp only
          split
          · rfl
          · split <;> rfl

/-- With one generator it comes to the same: nothing is drawn on the way to a rejection. -/
theorem handle_eq :
    (handle s input rules w).run.run g = settle g (transition s input rules w g) := by
  unfold handle transition
  split
  · rfl
  · split
    · exact handleAdvance_eq
    · exact handleAttempt_eq
    · split <;> rfl
    · rfl

end Turn

/-! ### Rejected inputs -/

namespace Battle

variable {c : BattleConfig} {seed : UInt64} {b : Battle} {events : List Event}
  {input : TurnInput} {inputs : List TurnInput}

/-- Handles an input in place. Whatever was drawn is gone from the battle's generator. -/
def handle (b : Battle) (input : TurnInput) : Except TurnRejection (List Event) × Battle :=
  match (Turn.handle b.state input b.rules b.world).run.run b.generator with
  | (.ok (state, effects), generator) =>
    let (world, events) := b.world.applyAll effects
    (.ok events, { b with world, state, generator })
  | (.error reason, generator) => (.error reason, { b with generator })

theorem handle_eq : b.handle input =
    match b.submit input with
    | .ok (next, events) => (.ok events, next)
    | .error reason => (.error reason, b) := by
  simp only [handle, Turn.handle_eq, submit]
  cases Turn.transition b.state input b.rules b.world b.generator <;> rfl

theorem handle_battle : (b.handle input).2 = b.after input := by
  rw [handle_eq, after]
  cases b.submit input <;> rfl

/-- An input with what it was answered and the battle as it is afterwards. -/
structure Reply where
  input : TurnInput
  outcome : Except TurnRejection (List Event)
  battle : Battle

def Reply.isRejection (r : Reply) : Bool :=
  match r.outcome with
  | .ok _ => false
  | .error _ => true

def replyTo (b : Battle) (input : TurnInput) : Reply :=
  ⟨input, (b.handle input).1, (b.handle input).2⟩

/-- The replies to some inputs, one after the other. -/
def replies (b : Battle) : List TurnInput → List Reply
  | [] => []
  | input :: rest => b.replyTo input :: (b.replyTo input).battle.replies rest

/-- A rejected input leaves everything as it was, the words to be drawn as well. -/
theorem battle_of_rejection (h : (b.replyTo input).isRejection = true) :
    (b.replyTo input).battle = b := by
  simp only [replyTo, Reply.isRejection, handle_eq] at h ⊢
  cases hsubmit : b.submit input with
  | ok accepted => simp [hsubmit] at h
  | error reason => rfl

theorem replies_sifted {kept : List Reply}
    (h : Sifted (fun r => r.isRejection = true) (b.replies inputs) kept) :
    b.replies (kept.map Reply.input) = kept ∧ b.play (kept.map Reply.input) = b.play inputs := by
  induction inputs generalizing b kept with
  | nil =>
    cases h
    exact ⟨rfl, rfl⟩
  | cons input rest ih =>
    have hafter : (b.replyTo input).battle = b.after input := handle_battle
    cases h with
    | keep _ hrest =>
      obtain ⟨hreplies, hplay⟩ := ih hrest
      rw [hafter] at hplay
      exact ⟨congrArg (b.replyTo input :: ·) hreplies, hplay⟩
    | drop hrejected hrest =>
      obtain ⟨hreplies, hplay⟩ := ih hrest
      rw [battle_of_rejection hrejected] at hreplies hplay hafter
      refine ⟨hreplies, hplay.trans ?_⟩
      rw [play, play, List.foldl_cons, ← hafter]

/-- Rejected inputs leave no trace, and the cards are a matter of the seed and the size of the hand.
From the replies to any inputs, leave out any rejections: the inputs that remain are answered in just
the same way, with the same events and the same world, turn and generator after each, and they lead
to the same battle. And whatever else two setups differ in, and whatever is done in the battles that
they make, as soon as both have begun their first round they hold the same cards in the same order.
-/
theorem rejections_traceless_cards_seeded (h : create c seed = .ok (b, events)) :
    (∀ inputs kept, Sifted (fun r => r.isRejection = true) (b.replies inputs) kept →
      b.replies (kept.map Reply.input) = kept ∧
        b.play (kept.map Reply.input) = b.play inputs) ∧
    ∀ c' seed' b' events', create c' seed' = .ok (b', events') →
      c'.seed.getD seed' = c.seed.getD seed → c'.handSize = c.handSize →
      ∀ inputs inputs', (b.log inputs).any (Entry.isWorkOf .roundBegin) = true →
        (b'.log inputs').any (Entry.isWorkOf .roundBegin) = true →
        (b.play inputs).world.hand = (b'.play inputs').world.hand := by
  refine ⟨fun _ _ => replies_sifted, ?_⟩
  intro c' seed' b' events' h' hseed hsize inputs inputs' hbegun hbegun'
  have hhand := (play_dealt h inputs).hand
  have hhand' := (play_dealt h' inputs').hand
  rw [hbegun, if_pos rfl] at hhand
  rw [hbegun', if_pos rfl, hseed, hsize] at hhand'
  rw [hhand, hhand']

/-- The first round begins with the second advance. -/
theorem begun_of_advances (h : create c seed = .ok (b, events)) (inputs : List TurnInput) :
    (b.log (.advance :: .advance :: inputs)).any (Entry.isWorkOf .roundBegin) = true := by
  obtain ⟨_, _, _, hstate, _⟩ := create_eq h
  have hfirst : b.after .advance = { b with state := { b.state with phase := .roundBegin } } := by
    simp [after, submit, Turn.transition, Turn.advance, hstate, TurnState.initial, Phase.isFinal]
  rw [log, hfirst]
  simp [log, entry?, submit, Turn.transition, Turn.advance, Phase.isFinal, Entry.isWorkOf]

/-- The narrows, with cards to be dealt. -/
def narrowsDealing : BattleConfig := { narrows with handSize := 3 }

/-- The same board with nobody and nothing in the player's way. -/
def openDealing : BattleConfig :=
  { narrowsDealing with movementPerTurn := 9, npcs := [], obstacles := [] }

/-- A battle on that board before its first input. -/
def dealingBattle (c : BattleConfig) : Battle where
  world := ((World.vacant narrowsBoard).applyAll (setupCommands c)).1
  state := .initial
  rules := c.rules
  generator := .ofSeed 7
  seed := 7

theorem create_narrowsDealing : create narrowsDealing 0 = .ok (dealingBattle narrowsDealing,
    ((World.vacant narrowsBoard).applyAll (setupCommands narrowsDealing)).2) := rfl

theorem create_openDealing : create openDealing 0 = .ok (dealingBattle openDealing,
    ((World.vacant narrowsBoard).applyAll (setupCommands openDealing)).2) := rfl

/-- A player who ends a turn that is not open yet, and clicks too early and too far. -/
def clumsy : List TurnInput :=
  [.advance, .advance, .endTurn, .attempt ⟨0, 1⟩ ⟨0, 1⟩, .advance, .attempt ⟨2, 0⟩ ⟨2, 0⟩, .endTurn]

/-- Three of seven inputs are rejected and can be left out, and they do not change the cards, which
are the same on an open board. -/
theorem rejections_traceless_cards_seeded_narrows : clumsy.length = 7 ∧
    (∃ kept, kept.length = 4 ∧
      Sifted (fun r => r.isRejection = true) (narrowsBattle.replies clumsy) kept ∧
      narrowsBattle.replies (kept.map Reply.input) = kept) ∧
    ((dealingBattle narrowsDealing).play clumsy).world.hand =
      ((dealingBattle openDealing).play [.advance, .advance]).world.hand := by
  obtain ⟨herased, _⟩ := rejections_traceless_cards_seeded create_narrows
  obtain ⟨_, hhands⟩ := rejections_traceless_cards_seeded create_narrowsDealing
  have hsifted := sifted_filter (P := fun r : Reply => r.isRejection = true)
    (narrowsBattle.replies clumsy)
  exact ⟨rfl, ⟨_, by decide +kernel, hsifted, (herased clumsy _ hsifted).1⟩,
    hhands openDealing 0 _ _ create_openDealing rfl rfl clumsy [.advance, .advance]
      (begun_of_advances create_narrowsDealing _) (begun_of_advances create_openDealing _)⟩

end Battle

end HexSkirmish
