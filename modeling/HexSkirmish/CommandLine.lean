import HexSkirmish.Battle.ConfigToml
import HexSkirmish.Script

/-! The command line: options that name a setup, a seed and a number of rounds, and a scripted
battle played with them. Arguments are judged from left to right, and the first that settles the
outcome does. -/

namespace HexSkirmish.CommandLine

/-- The options given so far. -/
structure Options where
  config : Option String
  seed : Option UInt64
  rounds : Option Nat
deriving DecidableEq

inductive Request where
  | play (options : Options)
  | version
  | help
  | unusable
deriving DecidableEq

def versionText : String := "hex-battle 0.1.0\n"

def helpText : String :=
  "Runs a hex battle with a scripted player and prints the grid every turn\n\n" ++
  "Usage: hex-battle [OPTIONS]\n\nOptions:\n" ++
  "      --config <PATH>    TOML file describing the grid, actors, and scenery\n" ++
  "      --seed <SEED>      Seed for the battle's random generator; overrides the config file\n" ++
  "      --rounds <ROUNDS>  Number of rounds to play before concluding the battle [default: 3]\n" ++
  "  -h, --help             Print help\n  -V, --version          Print version\n"

/-- A run of one or more digits. -/
def digits? (cs : List Char) : Option Nat :=
  if !cs.isEmpty && cs.all Decimal.isDigit then some (Decimal.valueIn 10 cs) else none

/-- A natural number; a plus sign may stand before it. -/
def natural? : List Char → Option Nat
  | '+' :: rest => digits? rest
  | cs => digits? cs

/-- A number of rounds. Zero may also be written with a minus sign. -/
def rounds? (cs : List Char) : Option Nat :=
  let n := match cs with
    | '-' :: rest => (digits? rest).filter (· == 0)
    | cs => natural? cs
  n.filter (· ≤ countMax)

def seed? (cs : List Char) : Option UInt64 :=
  ((natural? cs).filter (· ≤ 18446744073709551615)).map UInt64.ofNat

/-- Records the value of an option. An option comes once, and not every text is a value of it. -/
def Options.set? (o : Options) (name value : String) : Option Options :=
  match name with
  | "config" =>
    if o.config.isSome || value.isEmpty then none else some { o with config := some value }
  | "seed" =>
    if o.seed.isSome then none else (seed? value.toList).map fun n => { o with seed := some n }
  | "rounds" =>
    if o.rounds.isSome then none
    else (rounds? value.toList).map fun n => { o with rounds := some n }
  | _ => none

def isOption (name : String) : Bool := name ∈ ["config", "seed", "rounds"]

/-- Splits the text after two dashes at its first equals sign. -/
def splitLong (cs : List Char) : String × Option String :=
  let name := cs.takeWhile (· != '=')
  match cs.dropWhile (· != '=') with
  | _ :: value => (String.ofList name, some (String.ofList value))
  | [] => (String.ofList name, none)

/-- Whether an argument can be the value of the option before it. -/
def isValue (arg : String) : Bool :=
  match arg.toList with
  | '-' :: _ :: _ => false
  | _ => true

def interpretFrom (o : Options) : List String → Request
  | [] => .play o
  | arg :: rest =>
    match arg.toList with
    | ['-', '-'] => if rest.isEmpty then .play o else .unusable
    | '-' :: '-' :: long =>
      match splitLong long with
      | ("version", none) => .version
      | ("help", none) => .help
      | (name, some value) =>
        match o.set? name value with
        | some o => interpretFrom o rest
        | none => .unusable
      | (name, none) =>
        match rest with
        | value :: rest =>
          if isOption name && isValue value then
            match o.set? name value with
            | some o => interpretFrom o rest
            | none => .unusable
          else .unusable
        | [] => .unusable
    | '-' :: 'V' :: _ => .version
    | '-' :: 'h' :: _ => .help
    | _ => .unusable

/-- What a list of arguments asks for. -/
def interpret (args : List String) : Request := interpretFrom ⟨none, none, none⟩ args

structure Outcome where
  exitCode : Nat
  output : String
deriving DecidableEq

def usageError : Outcome := ⟨2, ""⟩

def configError : Outcome := ⟨1, ""⟩

/-- The setup that the options name, if its file can be read and is one. A seed among the options
takes the place of the one in the file. -/
def Options.setup? (o : Options) (read? : String → Option String) : Option BattleConfig :=
  let base := match o.config with
    | none => some BattleConfig.standard
    | some path => (read? path).bind BattleConfig.ofToml?
  base.map fun b => { b with seed := o.seed <|> b.seed }

def playBattle (o : Options) (read? : String → Option String) (freshSeed : UInt64) : Outcome :=
  match o.setup? read? with
  | none => configError
  | some setup =>
    match Battle.create setup freshSeed with
    | .error _ => configError
    | .ok (battle, _) =>
      let record := Script.play battle (o.rounds.getD 3)
      match record.ending with
      | .concluded => ⟨0, record.text⟩
      | .rejected _ => ⟨1, record.text⟩

/-- Answers a request. Files are read with the given function, and the given seed is used when no
other is named. -/
def answer (r : Request) (read? : String → Option String) (freshSeed : UInt64) : Outcome :=
  match r with
  | .version => ⟨0, versionText⟩
  | .help => ⟨0, helpText⟩
  | .unusable => usageError
  | .play o => playBattle o read? freshSeed

end HexSkirmish.CommandLine
