import CombinatorNet.CommandLine.Run

/-!
# The command line program

Reads the network file, prints the outcome, and exits with its code.
-/

open CombinatorNet

/-- The contents of a file, if it can be read. -/
def readFile? (file : String) : IO (Option ByteArray) := do
  try return some (← IO.FS.readBinFile file)
  catch _ => return none

/-- Print an outcome and yield its exit code. -/
def printOutcome (outcome : Outcome) : IO UInt32 := do
  match outcome with
  | .printed text => IO.print text
  | .failed cause => IO.eprintln s!"Error: {cause.message}"
  | .misused fault => IO.eprintln s!"error: {fault.message}"
  | .panicked => IO.eprintln "panicked: arithmetic overflow"
  return outcome.exitCode.toUInt32

/-- Run the program on its arguments. -/
def main (arguments : List String) : IO UInt32 := do
  match Invocation.parse arguments with
  | .error fault => printOutcome (.misused fault)
  | .ok (.run options) => printOutcome (options.run (← readFile? options.file))
  | .ok invocation => printOutcome (invocation.outcome fun _ => none)
