import HexSkirmish.Keystream

/-! A source of random words: a keystream and the number of words drawn from it so far. Choosing
from a list draws words until one falls into the range that gives every member the same chance. -/

namespace HexSkirmish

structure Generator where
  key : Keystream.Key
  drawn : Nat
deriving DecidableEq

namespace Generator

/-- A step of the 64-bit sequence that spreads a seed over a key. -/
def spread (state : UInt64) : UInt64 := state * 6364136223846793005 + 11634580027462260723

/-- The word that a state of the sequence gives. -/
def spreadWord (state : UInt64) : UInt32 :=
  let x := (((state >>> 18) ^^^ state) >>> 27).toUInt32
  let turn := (state >>> 59).toUInt32
  if turn = 0 then x else (x >>> turn) ||| (x <<< (32 - turn))

def ofSeed (seed : UInt64) : Generator where
  key := Vector.ofFn fun i : Fin 8 => spreadWord (Nat.repeat spread (i + 1) seed)
  drawn := 0

def next (g : Generator) : UInt32 × Generator :=
  (Keystream.word g.key g.drawn, { g with drawn := g.drawn + 1 })

/-- The greatest low half of a product that is accepted for a range of `n` numbers: it leaves every
number as many words as every other. -/
def zone (n : Nat) : Nat := ((n <<< (31 - Nat.log2 n)) - 1) % 4294967296

/-- A number below `n` from the high half of the product of `n` and a word. A word whose low half
lies outside the zone is drawn again, a limited number of times. -/
def below (n : Nat) : Nat → Generator → Nat × Generator
  | 0, g =>
    let (w, rest) := g.next
    (w.toNat * n / 4294967296, rest)
  | attempts + 1, g =>
    let (w, rest) := g.next
    let product := w.toNat * n
    if product % 4294967296 ≤ zone n then (product / 4294967296, rest)
    else below n attempts rest

/-- At most half of all words lie outside the zone, so that this many in a row are not met. -/
def attemptLimit : Nat := 4096

/-- A member of a list, each with the same chance. Nothing is drawn for an empty list, and one word
at least for a list of one. -/
def choose {α : Type} (xs : List α) (g : Generator) : Option α × Generator :=
  if xs.isEmpty then (none, g)
  else
    let (i, rest) := below xs.length attemptLimit g
    (xs[i]?, rest)

end Generator

end HexSkirmish
