import HexSkirmish.Battle.Config

/-! A battle: a world, the state of the turns, the rules, and the random words. An accepted input
changes the state and has its commands applied in order; a rejected one changes nothing. -/

namespace HexSkirmish

structure Battle where
  world : World
  state : TurnState
  rules : TurnRules
  generator : Generator
  seed : UInt64

namespace Battle

/-- Walls first, then the player, then the other actors. -/
def setupCommands (b : BattleConfig) : List Command :=
  b.obstacles.map (.setCost · Tile.blockedCost) ++
    .place .player b.player :: (b.npcs.map (.place .npc) ++ [.rebuildEdges])

/-- A battle that is set up but not begun, and the events of its setup. A setup without a seed
takes the one that the caller offers. -/
def create (b : BattleConfig) (freshSeed : UInt64) : Except ConfigError (Battle × List Event) :=
  match b.validate with
  | .error e => .error e
  | .ok l =>
    let seed := b.seed.getD freshSeed
    let (world, events) := (World.vacant l).applyAll (setupCommands b)
    .ok (⟨world, .initial, b.rules, .ofSeed seed, seed⟩, events)

def submit (b : Battle) (input : TurnInput) : Except TurnRejection (Battle × List Event) :=
  match Turn.transition b.state input b.rules b.world b.generator with
  | .error r => .error r
  | .ok t =>
    let (world, events) := b.world.applyAll t.effects
    .ok ({ b with world, state := t.state, generator := t.generator }, events)

/-- Advances at most a number of times, until the player must act or the battle is over. -/
def advanceFor : Nat → Battle → Battle × List Event
  | 0, b => (b, [])
  | n + 1, b =>
    if b.state.phase.awaitsPlayer || b.state.phase.isFinal then (b, [])
    else
      match b.submit .advance with
      | .error _ => (b, [])
      | .ok (next, events) =>
        let (last, later) := advanceFor n next
        (last, events ++ later)

/-- Advances until the player must act or the battle is over. There are fewer phases on the way
than phases. -/
def advanceToPlayer (b : Battle) : Battle × List Event := advanceFor Phase.all.length b

end Battle

end HexSkirmish
