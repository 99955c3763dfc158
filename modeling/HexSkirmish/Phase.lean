import HexSkirmish.Vocabulary

/-! The phases of a battle. A round runs from `roundBegin` to `roundEnd`; only `playerActs` waits
for the player, and only `battleEnd` is final. -/

namespace HexSkirmish

inductive Phase where
  | battleBegin | roundBegin
  | playerBegin | playerActs | playerEnd
  | npcBegin | npcActs | npcEnd
  | roundEnd | battleEnd
deriving DecidableEq

namespace Phase

def all : List Phase :=
  [.battleBegin, .roundBegin, .playerBegin, .playerActs, .playerEnd, .npcBegin, .npcActs,
   .npcEnd, .roundEnd, .battleEnd]

instance : Vocabulary Phase where
  members := all
  name
    | .battleBegin => "BattleBegin"
    | .roundBegin => "RoundBegin"
    | .playerBegin => "TurnPlayerBegin"
    | .playerActs => "TurnPlayerInProgress"
    | .playerEnd => "TurnPlayerEnd"
    | .npcBegin => "TurnEntityBegin"
    | .npcActs => "TurnEntityInProgress"
    | .npcEnd => "TurnEntityEnd"
    | .roundEnd => "RoundEnd"
    | .battleEnd => "BattleEnd"

def awaitsPlayer (p : Phase) : Bool := p == .playerActs

def isFinal (p : Phase) : Bool := p == .battleEnd

end Phase

end HexSkirmish
