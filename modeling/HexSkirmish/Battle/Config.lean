import HexSkirmish.Turn

/-! The setup of a battle: the board, the allowances of the player, the seed of the random words,
and who and what stands where. A setup is checked as a whole before a battle is made from it. -/

namespace HexSkirmish

structure BattleConfig where
  width : Nat
  height : Nat
  size : Single
  movementPerTurn : Nat
  handSize : Nat
  seed : Option UInt64
  player : Coord
  npcs : List Coord
  obstacles : List Coord
deriving DecidableEq

inductive ConfigError where
  | layout (error : LayoutError)
  | outOfBounds (entry : String) (coord : Coord)
  | overlap (coord : Coord)

namespace ConfigError

def message : ConfigError → String
  | layout e => e.message
  | outOfBounds entry c => entry ++ " at " ++ c.text ++ " lies outside the grid"
  | overlap c => "more than one entry occupies " ++ c.text

end ConfigError

namespace BattleConfig

def standard : BattleConfig where
  width := 8
  height := 8
  size := .ofValue 1
  movementPerTurn := 2
  handSize := 5
  seed := none
  player := ⟨2, 5⟩
  npcs := [⟨3, 3⟩]
  obstacles := [⟨3, 4⟩]

/-- Everything that takes a tile, with the word that messages use for it. -/
def entries (b : BattleConfig) : List (String × Coord) :=
  ("player", b.player) ::
    (b.npcs.map (("npc", ·)) ++ b.obstacles.map (("obstacle", ·)))

/-- Goes through the entries in order. One that lies off the board, or on a tile that an earlier
one takes, is an error. -/
def checkEntries (l : Layout) (taken : List Coord) :
    List (String × Coord) → Except ConfigError Unit
  | [] => .ok ()
  | (entry, c) :: rest =>
    if !l.contains c then .error (.outOfBounds entry c)
    else if c ∈ taken then .error (.overlap c)
    else checkEntries l (c :: taken) rest

def validate (b : BattleConfig) : Except ConfigError Layout :=
  match Layout.create b.width b.height b.size with
  | .error e => .error (.layout e)
  | .ok l =>
    match checkEntries l [] b.entries with
    | .error e => .error e
    | .ok () => .ok l

def rules (b : BattleConfig) : TurnRules := ⟨b.movementPerTurn, b.handSize⟩

end BattleConfig

end HexSkirmish
