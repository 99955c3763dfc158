import HexSkirmish.Battle
import HexSkirmish.Locomotion
import HexSkirmish.MapText

/-! A battle with a scripted player, who moves once a turn, as far as the budget allows. The record
of the battle shows the board before each of these moves and at the end. -/

namespace HexSkirmish

namespace World

/-- The better of two tiles with their distances: the farther one, and the first of two as far. -/
def farther (best : Option (Nat × Nat)) (tile : Nat × Nat) : Option (Nat × Nat) :=
  match best with
  | some b => if b.2 < tile.2 then some tile else some b
  | none => some tile

/-- The tile within the budget that is farthest from the player. -/
def farthestReachable? (w : World) (budget : Nat) : Option Coord :=
  w.player?.bind fun p =>
    let field := (w.grid.flow p.coord).toList.zipIdx.map fun (d, i) => (i, d)
    let near := field.filter fun (_, d) => decide (1 ≤ d) && decide (d ≤ budget)
    (near.foldl farther none).bind fun (i, _) => w.grid.layout.coordAt? i

end World

namespace Script

/-- How a scripted battle ends: as it should, or with an input that was rejected. -/
inductive Ending where
  | concluded
  | rejected (reason : TurnRejection)

structure Record where
  text : String
  ending : Ending

def handText (hand : List Card) : String :=
  "[" ++ String.intercalate ", " (hand.map Vocabulary.name) ++ "]"

def roundText (b : Battle) : String :=
  "\nround " ++ toString b.state.round ++ " | budget " ++ toString b.state.budget ++
    " | hand " ++ handText b.world.hand ++ "\n" ++ b.world.mapText

/-- The player's one move of a turn. A move that is rejected is not made. -/
def makeMove (b : Battle) : Battle :=
  match b.world.farthestReachable? b.state.budget with
  | none => b
  | some goal =>
    match b.submit (.attempt goal goal) with
    | .ok (next, _) => next
    | .error _ => b

def conclude (b : Battle) (text : String) : Record :=
  match b.submit .conclude with
  | .ok (last, _) => ⟨text ++ "\nfinal position\n" ++ last.world.mapText, .concluded⟩
  | .error r => ⟨text, .rejected r⟩

/-- Plays a number of rounds, then ends the battle. -/
def playRounds : Nat → Battle → String → Record
  | 0, b, text => conclude b text
  | n + 1, b, text =>
    let ready := b.advanceToPlayer.1
    if ready.state.phase.isFinal then conclude ready text
    else
      let text := text ++ roundText ready
      match (makeMove ready).submit .endTurn with
      | .ok (next, _) => playRounds n next text
      | .error r => ⟨text, .rejected r⟩

def play (b : Battle) (rounds : Nat) : Record :=
  playRounds rounds b ("seed " ++ toString b.seed.toNat ++ "\n")

end Script

end HexSkirmish
