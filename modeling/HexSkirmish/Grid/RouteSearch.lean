/-! Breadth-first search for a shortest way from one numbered tile to another. The tiles wait in the
order in which they were reached; each is reached once, from the first tile taken that leads to it,
and remembers that tile. The search stops when the goal is taken, and the way is read by walking
back from it. -/

namespace HexSkirmish

structure RouteSearch where
  cameFrom : Array (Option Nat)
  waiting : List Nat

namespace RouteSearch

def start (tileCount origin : Nat) : RouteSearch where
  cameFrom := (Array.replicate tileCount none).setIfInBounds origin (some origin)
  waiting := [origin]

/-- The tiles after a tile that were not reached before remember it. Lists them in their order. -/
def spread (tile : Nat) : List Nat → Array (Option Nat) → Array (Option Nat) × List Nat
  | [], cameFrom => (cameFrom, [])
  | next :: later, cameFrom =>
    if cameFrom[next]? = some none then
      let (cameFrom, reached) := spread tile later (cameFrom.setIfInBounds next (some tile))
      (cameFrom, next :: reached)
    else spread tile later cameFrom

/-- Takes the tiles that wait, a number of them at most, until the goal is taken or none waits. -/
def seek (onward : Nat → List Nat) (goal : Nat) : Nat → RouteSearch → RouteSearch
  | 0, s => s
  | n + 1, s =>
    match s.waiting with
    | [] => s
    | tile :: rest =>
      if tile = goal then s
      else
        let (cameFrom, reached) := spread tile (onward tile) s.cameFrom
        seek onward goal n ⟨cameFrom, rest ++ reached⟩

/-- The finished search. Every tile waits at most once, so one turn for each tile is enough. -/
def run (onward : Nat → List Nat) (tileCount origin goal : Nat) : RouteSearch :=
  seek onward goal tileCount (start tileCount origin)

/-- Walks back from a tile to the origin, in front of the tiles already walked. -/
def trail (cameFrom : Array (Option Nat)) (origin : Nat) : Nat → Nat → List Nat → List Nat
  | 0, _, ahead => ahead
  | n + 1, tile, ahead =>
    if tile = origin then ahead
    else
      match cameFrom[tile]?.join with
      | some before => trail cameFrom origin n before (tile :: ahead)
      | none => ahead

/-- The tiles from the first step away from the origin to the goal, if the goal is reached. -/
def tiles? (onward : Nat → List Nat) (tileCount origin goal : Nat) : Option (List Nat) :=
  let found := run onward tileCount origin goal
  if found.cameFrom[goal]?.join.isSome then
    some (trail found.cameFrom origin tileCount goal [])
  else none

end RouteSearch

end HexSkirmish
