import HexSkirmish.Phase
import HexSkirmish.Wander

/-! The rules of taking turns. An input leads from one state to the next and names the commands
that carry it out, or it is rejected with a reason; nothing else changes and no random word is
drawn then. -/

namespace HexSkirmish

structure TurnRules where
  movementPerTurn : Nat
  handSize : Nat
deriving DecidableEq

def TurnRules.standard : TurnRules := ⟨2, 5⟩

structure TurnState where
  phase : Phase
  /-- The tiles that the player may still travel this turn. -/
  budget : Nat
  /-- The rounds that are over. -/
  round : Nat
  /-- Where the player's last move of this turn led. -/
  goal : Option Coord
deriving DecidableEq

def TurnState.initial : TurnState := ⟨.battleBegin, 0, 0, none⟩

inductive TurnInput where
  | advance
  | attempt (start stop : Coord)
  | endTurn
  | conclude
deriving DecidableEq

inductive TurnRejection where
  | wrongPhase (phase : Phase)
  | awaitingPlayer
  | battleOver
  | gestureMismatch (start stop : Coord)
  | invalidTile (coord : Coord)
  | noPlayer
  | noPath (goal : Coord)
  | outOfBudget (distance budget : Nat)
deriving DecidableEq

namespace TurnRejection

def message : TurnRejection → String
  | wrongPhase p => "input is not accepted during " ++ Vocabulary.name p
  | awaitingPlayer => "the player has not ended the turn yet"
  | battleOver => "the battle has ended"
  | gestureMismatch start stop =>
    "gesture started on " ++ start.text ++ " but ended on " ++ stop.text
  | invalidTile c => "tile " ++ c.text ++ " is outside the grid"
  | noPlayer => "no player actor in the battle"
  | noPath c => "no route to " ++ c.text
  | outOfBudget distance budget =>
    "route of " ++ toString distance ++ " tiles does not fit the remaining budget of " ++
      toString budget

end TurnRejection

structure Transition where
  state : TurnState
  effects : List Command
  generator : Generator

namespace Turn

/-- Draws a number of cards. -/
def drawCards : Nat → Generator → List Command × Generator
  | 0, g => ([], g)
  | n + 1, g =>
    let (card, g) := g.choose Card.all
    let (later, g) := drawCards n g
    (card.toList.map .draw ++ later, g)

/-- The player's movement highlight at the start of a turn. -/
def openingEffects (w : World) (budget : Nat) : List Command :=
  match w.player? with
  | some p => [.highlight p.coord budget]
  | none => []

def closingEffects (goal : Option Coord) : List Command :=
  goal.toList.map .clearEffect ++ [.clearEffects .moveable]

/-- The automatic work of a phase, and the phase that follows it. -/
def advance (s : TurnState) (rules : TurnRules) (w : World) (g : Generator) :
    Except TurnRejection Transition :=
  match s.phase with
  | .battleBegin => .ok ⟨{ s with phase := .roundBegin }, [], g⟩
  | .roundBegin =>
    let (cards, g) := drawCards (rules.handSize - w.hand.length) g
    .ok ⟨{ s with phase := .playerBegin }, cards, g⟩
  | .playerBegin =>
    let budget := rules.movementPerTurn
    .ok ⟨{ s with phase := .playerActs, budget, goal := none }, openingEffects w budget, g⟩
  | .playerActs => .error .awaitingPlayer
  | .playerEnd => .ok ⟨{ s with phase := .npcBegin, goal := none }, closingEffects s.goal, g⟩
  | .npcBegin =>
    let (steps, g) := Wander.plan w g
    .ok ⟨{ s with phase := .npcActs }, steps, g⟩
  | .npcActs => .ok ⟨{ s with phase := .npcEnd }, [], g⟩
  | .npcEnd => .ok ⟨{ s with phase := .roundEnd }, [], g⟩
  | .roundEnd =>
    .ok ⟨{ s with phase := .roundBegin, round := min (s.round + 1) countMax }, [], g⟩
  | .battleEnd => .error .battleOver

/-- A move of the player: a gesture that starts and stops on one tile, to which a route within the
budget leads. -/
def attempt (s : TurnState) (start stop : Coord) (w : World) (g : Generator) :
    Except TurnRejection Transition :=
  if s.phase ≠ .playerActs then .error (.wrongPhase s.phase)
  else if start ≠ stop then .error (.gestureMismatch start stop)
  else if !w.grid.contains stop then .error (.invalidTile stop)
  else
    match w.player? with
    | none => .error .noPlayer
    | some p =>
      let route := w.grid.route p.coord stop
      if !route.isFound then .error (.noPath stop)
      else
        let distance := min route.length countMax
        if distance = 0 ∨ s.budget < distance then .error (.outOfBudget distance s.budget)
        else
          let budget := s.budget - distance
          .ok ⟨{ s with budget, goal := some stop },
            [.move p.id stop none, .highlight stop budget], g⟩

def transition (s : TurnState) (input : TurnInput) (rules : TurnRules) (w : World)
    (g : Generator) : Except TurnRejection Transition :=
  if s.phase.isFinal then .error .battleOver
  else
    match input with
    | .advance => advance s rules w g
    | .attempt start stop => attempt s start stop w g
    | .endTurn =>
      if s.phase = .playerActs then .ok ⟨{ s with phase := .playerEnd }, [], g⟩
      else .error (.wrongPhase s.phase)
    | .conclude => .ok ⟨{ s with phase := .battleEnd }, [.clearEffects .moveable], g⟩

end Turn

end HexSkirmish
