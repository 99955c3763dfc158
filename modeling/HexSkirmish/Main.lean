import HexSkirmish.CommandLine

/-! The program: reads the setup that its arguments name, plays the battle and prints its record. -/

namespace HexSkirmish

/-- The text of a file, if it can be read. -/
def readText? (path : String) : IO (Option String) := do
  try
    return some (← IO.FS.readFile path)
  catch _ =>
    return none

def freshSeed : IO UInt64 := return UInt64.ofNat (← IO.rand 0 18446744073709551615)

end HexSkirmish

open HexSkirmish in
def main (args : List String) : IO UInt32 := do
  let request := CommandLine.interpret args
  let text ← match request with
    | .play ⟨some path, _, _⟩ => readText? path
    | _ => pure none
  let outcome := CommandLine.answer request (fun _ => text) (← freshSeed)
  IO.print outcome.output
  if outcome.exitCode = 1 then IO.eprintln "the battle could not be played with this setup"
  if outcome.exitCode = 2 then IO.eprintln "the arguments could not be understood; try --help"
  return UInt32.ofNat outcome.exitCode
