import HexSkirmish.Vocabulary

/-! The cards that the player draws, in the order of the draw table. -/

namespace HexSkirmish

inductive Card where
  | igniteWeapon | defend | meal | corruption | randomWeapon
deriving DecidableEq

def Card.all : List Card := [.igniteWeapon, .defend, .meal, .corruption, .randomWeapon]

instance : Vocabulary Card where
  members := Card.all
  name
    | .igniteWeapon => "IgniteWeapon"
    | .defend => "Defend"
    | .meal => "Meal"
    | .corruption => "Corruption"
    | .randomWeapon => "RandomWeapon"

end HexSkirmish
