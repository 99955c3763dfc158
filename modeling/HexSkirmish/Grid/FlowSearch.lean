/-! The number of steps from one tile to every other. A tile that is taken offers its neighbours one
step more than its own number, and those that hold a greater one accept it and wait in turn. The
numbers stop at a limit, which is also what a tile holds that cannot be reached. -/

namespace HexSkirmish

structure FlowSearch where
  distances : Array Nat
  waiting : List Nat

namespace FlowSearch

def start (limit tileCount origin : Nat) : FlowSearch where
  distances := (Array.replicate tileCount limit).setIfInBounds origin 0
  waiting := [origin]

/-- Offers a number of steps to tiles. Lists those that accept it, in their order. -/
def spread (steps : Nat) : List Nat → Array Nat → Array Nat × List Nat
  | [], distances => (distances, [])
  | next :: later, distances =>
    if (distances[next]?.any fun held => steps < held) then
      let (distances, reached) := spread steps later (distances.setIfInBounds next steps)
      (distances, next :: reached)
    else spread steps later distances

/-- Takes the tiles that wait, a number of them at most, until none waits. -/
def flood (onward : Nat → List Nat) (limit : Nat) : Nat → FlowSearch → FlowSearch
  | 0, s => s
  | n + 1, s =>
    match s.waiting with
    | [] => s
    | tile :: rest =>
      let steps := min (s.distances[tile]?.getD limit + 1) limit
      let (distances, reached) := spread steps (onward tile) s.distances
      flood onward limit n ⟨distances, rest ++ reached⟩

/-- The finished field. Every tile waits at most once, so one turn for each tile is enough. -/
def field (onward : Nat → List Nat) (limit tileCount origin : Nat) : Array Nat :=
  (flood onward limit tileCount (start limit tileCount origin)).distances

end FlowSearch

end HexSkirmish
