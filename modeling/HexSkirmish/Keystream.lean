/-! The keystream of the ChaCha cipher with eight rounds: a sequence of 32-bit words that is fixed
by a key of eight words. Block `n` is sixteen words, made from the key and the block number `n`. -/

namespace HexSkirmish.Keystream

abbrev Key := Vector UInt32 8

abbrev Block := Vector UInt32 16

namespace Block

private def rotate (x : UInt32) (n : UInt32) : UInt32 := (x <<< n) ||| (x >>> (32 - n))

/-- Stirs four words of a block into one another. -/
def quarterRound (s : Block) (a b c d : Fin 16) : Block :=
  let s := s.set a (s[a] + s[b])
  let s := s.set d (rotate (s[d] ^^^ s[a]) 16)
  let s := s.set c (s[c] + s[d])
  let s := s.set b (rotate (s[b] ^^^ s[c]) 12)
  let s := s.set a (s[a] + s[b])
  let s := s.set d (rotate (s[d] ^^^ s[a]) 8)
  let s := s.set c (s[c] + s[d])
  s.set b (rotate (s[b] ^^^ s[c]) 7)

/-- One round over the columns and one over the diagonals. -/
def doubleRound (s : Block) : Block :=
  let s := s.quarterRound 0 4 8 12
  let s := s.quarterRound 1 5 9 13
  let s := s.quarterRound 2 6 10 14
  let s := s.quarterRound 3 7 11 15
  let s := s.quarterRound 0 5 10 15
  let s := s.quarterRound 1 6 11 12
  let s := s.quarterRound 2 7 8 13
  s.quarterRound 3 4 9 14

/-- The four constant words, the key, the block number in two words, and two zero words. -/
def initial (key : Key) (number : Nat) : Block :=
  #v[0x61707865, 0x3320646e, 0x79622d32, 0x6b206574,
     key[0], key[1], key[2], key[3], key[4], key[5], key[6], key[7],
     UInt32.ofNat number, UInt32.ofNat (number / 4294967296), 0, 0]

def ofKey (key : Key) (number : Nat) : Block :=
  let start := initial key number
  let stirred := start.doubleRound.doubleRound.doubleRound.doubleRound
  stirred.zipWith (· + ·) start

end Block

/-- The word at a place of the keystream. -/
def word (key : Key) (place : Nat) : UInt32 :=
  (Block.ofKey key (place / 16))[place % 16]

end HexSkirmish.Keystream
