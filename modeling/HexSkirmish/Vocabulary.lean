/-! Finite vocabularies. A type of this class lists its members in one fixed order and gives each a
written name. A name is read by looking it up in the list, and the place in the list is the code
that stands for the member in the byte format. -/

namespace HexSkirmish

class Vocabulary (α : Type) where
  members : List α
  name : α → String

namespace Vocabulary

variable {α : Type} [Vocabulary α]

def ofName? (s : String) : Option α :=
  (members : List α).find? fun a => name a == s

def ofCode? (n : Nat) : Option α := (members : List α)[n]?

def code [DecidableEq α] (a : α) : Nat := (members : List α).idxOf a

end Vocabulary

end HexSkirmish
