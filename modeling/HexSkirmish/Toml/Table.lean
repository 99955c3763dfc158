import HexSkirmish.Toml

/-! The tables of a TOML document while it is read. A table is declared by a header once; one that
was made because a header or a dotted key passed through it can still be extended by what made it;
and whatever is written as a value is closed. -/

namespace HexSkirmish.Toml

inductive TableOrigin where
  /-- Stands under its own header, or is an element of a list of tables. -/
  | declared
  /-- Was passed through by the header of a table inside it. -/
  | implied
  /-- Was passed through by a dotted key. -/
  | dotted
deriving DecidableEq

inductive Item where
  | value (v : Toml)
  | table (origin : TableOrigin) (members : List (String × Item))
  | tables (elements : List (List (String × Item)))

abbrev Members := List (String × Item)

namespace Item

mutual

def toToml : Item → Toml
  | value v => v
  | table _ ms => .table (membersToToml ms)
  | tables es => .array (elementsToToml es)

def membersToToml : List (String × Item) → List (String × Toml)
  | [] => []
  | (k, i) :: rest => (k, i.toToml) :: membersToToml rest

def elementsToToml : List (List (String × Item)) → List Toml
  | [] => []
  | ms :: rest => .table (membersToToml ms) :: elementsToToml rest

end

end Item

namespace Members

def get? (ms : Members) (key : String) : Option Item := (ms.find? (·.1 == key)).map Prod.snd

/-- Sets a key, in its place if it is there already. -/
def set (ms : Members) (key : String) (i : Item) : Members :=
  if ms.any (·.1 == key) then ms.map fun m => if m.1 == key then (key, i) else m
  else ms ++ [(key, i)]

/-- Changes the table at the end of a path and makes the tables on the way that are missing. A list
of tables is entered at its last one. A dotted key does not enter a declared table. The change is
told where the table comes from. -/
def modifyAt (dotted : Bool) (change : TableOrigin → Members → Option Members) :
    List String → TableOrigin → Members → Option Members
  | [], origin, ms => change origin ms
  | key :: path, _, ms =>
    match ms.get? key with
    | none =>
      let origin := if dotted then .dotted else .implied
      (modifyAt dotted change path origin []).map fun inner => ms.set key (.table origin inner)
    | some (.value _) => none
    | some (.tables elements) =>
      match elements.getLast? with
      | none => none
      | some last =>
        (modifyAt dotted change path .declared last).map fun inner =>
          ms.set key (.tables (elements.dropLast ++ [inner]))
    | some (.table origin inner) =>
      if dotted && origin == .declared then none
      else
        (modifyAt dotted change path origin inner).map fun inner =>
          ms.set key (.table origin inner)

/-- Binds a dotted key to a value. The last table on the way has to be made by dotted keys, and the
key has to be new. -/
def bind (ms : Members) (path : List String) (key : String) (v : Toml) : Option Members :=
  modifyAt true (fun origin inner =>
    if (!path.isEmpty && origin != .dotted) || (inner.get? key).isSome then none
    else some (inner.set key (.value v))) path .declared ms

/-- Opens the table of a header. -/
def declare (ms : Members) (path : List String) (key : String) : Option Members :=
  modifyAt false (fun _ inner =>
    match inner.get? key with
    | none => some (inner.set key (.table .declared []))
    | some (.table .implied members) => some (inner.set key (.table .declared members))
    | some _ => none) path .declared ms

/-- Opens a new table at the end of a list of tables. -/
def declareElement (ms : Members) (path : List String) (key : String) : Option Members :=
  modifyAt false (fun _ inner =>
    match inner.get? key with
    | none => some (inner.set key (.tables [[]]))
    | some (.tables elements) => some (inner.set key (.tables (elements ++ [[]])))
    | some _ => none) path .declared ms

end Members

end HexSkirmish.Toml
