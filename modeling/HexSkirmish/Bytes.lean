import HexSkirmish.Battle.Config

/-! The byte format. Numbers have a fixed width and their lowest byte first; a member of a
vocabulary is its code in four bytes; a list is its length in eight bytes and then its members; an
optional value is a byte zero, or a byte one and the value; a record is its fields in order. Reading
takes the bytes of a value off the front of a list and gives what is left. -/

namespace HexSkirmish

class ByteForm (α : Type) where
  write : α → List UInt8
  read? : List UInt8 → Option (α × List UInt8)

namespace ByteForm

variable {α : Type}

/-- A number in a fixed count of bytes. -/
def writeNat : Nat → Nat → List UInt8
  | 0, _ => []
  | width + 1, n => UInt8.ofNat n :: writeNat width (n / 256)

def readNat? : Nat → List UInt8 → Option (Nat × List UInt8)
  | 0, bytes => some (0, bytes)
  | _ + 1, [] => none
  | width + 1, b :: rest => do
    let (high, rest) ← readNat? width rest
    return (b.toNat + 256 * high, rest)

instance ofVocabulary [Vocabulary α] [DecidableEq α] : ByteForm α where
  write a := writeNat 4 (Vocabulary.code a)
  read? bytes := do
    let (code, rest) ← readNat? 4 bytes
    return (← Vocabulary.ofCode? code, rest)

instance : ByteForm Nat where
  write := writeNat 8
  read? := readNat? 8

instance : ByteForm UInt64 where
  write n := writeNat 8 n.toNat
  read? bytes := do
    let (n, rest) ← readNat? 8 bytes
    return (UInt64.ofNat n, rest)

instance : ByteForm UInt32 where
  write n := writeNat 4 n.toNat
  read? bytes := do
    let (n, rest) ← readNat? 4 bytes
    return (UInt32.ofNat n, rest)

instance : ByteForm UInt16 where
  write n := writeNat 2 n.toNat
  read? bytes := do
    let (n, rest) ← readNat? 2 bytes
    return (UInt16.ofNat n, rest)

instance : ByteForm Int32 where
  write n := write n.toUInt32
  read? bytes := do
    let (n, rest) ← (read? bytes : Option (UInt32 × List UInt8))
    return (n.toInt32, rest)

instance : ByteForm Single where
  write s := write s.bits
  read? bytes := do
    let (bits, rest) ← read? bytes
    return (⟨bits⟩, rest)

def readMany? [ByteForm α] : Nat → List UInt8 → Option (List α × List UInt8)
  | 0, bytes => some ([], bytes)
  | n + 1, bytes => do
    let (x, rest) ← read? bytes
    let (xs, rest) ← readMany? n rest
    return (x :: xs, rest)

instance [ByteForm α] : ByteForm (List α) where
  write xs := writeNat 8 xs.length ++ xs.flatMap write
  read? bytes := do
    let (n, rest) ← readNat? 8 bytes
    readMany? n rest

instance [ByteForm α] : ByteForm (Option α) where
  write
    | none => [0]
    | some a => 1 :: write a
  read?
    | 0 :: rest => some (none, rest)
    | 1 :: rest => do
      let (a, rest) ← read? rest
      return (some a, rest)
    | _ => none

instance : ByteForm Coord where
  write c := write c.x ++ write c.y
  read? bytes := do
    let (x, rest) ← read? bytes
    let (y, rest) ← read? rest
    return (⟨x, y⟩, rest)

instance : ByteForm ActorId where
  write i := write i.number
  read? bytes := do
    let (n, rest) ← read? bytes
    return (⟨n⟩, rest)

instance : ByteForm Tile where
  write t := write t.cost ++ write t.effect
  read? bytes := do
    let (cost, rest) ← read? bytes
    let (effect, rest) ← read? rest
    return (⟨cost, effect⟩, rest)

instance : ByteForm Route where
  write r := write r.start ++ write r.goal ++ write r.tiles ++ write r.result
  read? bytes := do
    let (start, rest) ← read? bytes
    let (goal, rest) ← read? rest
    let (tiles, rest) ← read? rest
    let (result, rest) ← read? rest
    return (⟨start, goal, tiles, result⟩, rest)

/-- The extents and the allowance of movement take four bytes, the hand size eight. -/
instance : ByteForm BattleConfig where
  write b :=
    writeNat 4 b.width ++ writeNat 4 b.height ++ write b.size ++ writeNat 4 b.movementPerTurn ++
      write b.handSize ++ write b.seed ++ write b.player ++ write b.npcs ++ write b.obstacles
  read? bytes := do
    let (width, rest) ← readNat? 4 bytes
    let (height, rest) ← readNat? 4 rest
    let (size, rest) ← read? rest
    let (movementPerTurn, rest) ← readNat? 4 rest
    let (handSize, rest) ← read? rest
    let (seed, rest) ← read? rest
    let (player, rest) ← read? rest
    let (npcs, rest) ← read? rest
    let (obstacles, rest) ← read? rest
    return (⟨width, height, size, movementPerTurn, handSize, seed, player, npcs, obstacles⟩, rest)

end ByteForm

end HexSkirmish
