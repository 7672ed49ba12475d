import CombinatorNet.CommandLine.Arguments
import CombinatorNet.Network.Checked
import CombinatorNet.Network.Report

/-!
# Runs from the command line

A run compiles a network file, switches on the given buttons, simulates the given number of ticks
and prints the signals and displays, with the layout if it is asked for. It prints either everything
or nothing. The program is built with overflow checks.

## Main definitions

* `RunFailure`, `Outcome` — what can stop a run, and how a run ends
* `Options.run` — a run on the contents of the network file
* `Invocation.outcome` — the outcome of an invocation
* `helpText`, `versionText` — the texts on the program itself
-/

namespace CombinatorNet

/-- What can stop a run. -/
inductive RunFailure
  /-- The file is missing, or is not UTF-8 text. -/
  | unreadable (file : String)
  | network (cause : NetworkError)
deriving DecidableEq, Repr

/-- The wording of a failure. -/
def RunFailure.message : RunFailure → String
  | unreadable file => s!"Failed to read source file '{file}'"
  | network cause => cause.message

/-- How a call of the program ends. -/
inductive Outcome
  | printed (text : String)
  | failed (cause : RunFailure)
  | misused (fault : UsageFault)
  /-- A number has left its word. -/
  | panicked
deriving DecidableEq, Repr

/-- The exit code of an outcome. -/
def Outcome.exitCode : Outcome → Nat
  | printed _ => 0
  | failed _ => 1
  | misused _ => 2
  | panicked => 101

/-- What an outcome prints to standard output. -/
def Outcome.text : Outcome → String
  | printed text => text
  | _ => ""

/-- Lines of text, each with a line break. -/
def unlines (lines : List String) : String := String.join (lines.map (· ++ "\n"))

namespace Options

/-- The settings of the compilation in a run. -/
def compileSettings (o : Options) : CompileSettings where
  maxDepth := o.maxDepth
  layout := ({} : LayoutSettings).withCliqueSize o.cliqueSize

/-- Switch several buttons on. -/
def switchOn (n : Network) : List Nat → Except NetworkError Network
  | [] => .ok n
  | index :: rest => do switchOn (← n.setActive index true) rest

/-- The network of a run after its ticks. -/
def simulate (o : Options) (source : String) : Checked NetworkError Network := do
  let compiled ← compileChecked source o.compileSettings
  let switched ← switchOn compiled o.activate
  return switched.run o.ticks

/-- The layout that a run prints. -/
def printedLayout? (o : Options) (n : Network) : Option Layout := if o.layout then n.layout else none

/-- What a run prints about a network. -/
def report (o : Options) (n : Network) : String :=
  if o.json then
    let layout := (o.printedLayout? n).toList.map fun l => ("layout", l.document)
    (Json.record (n.snapshot ++ layout)).pretty ++ "\n"
  else unlines (n.stateLines ++ ((o.printedLayout? n).map Layout.lines).getD [])

/-- A run on the contents of the network file, if there are any. -/
def run (o : Options) (contents : Option ByteArray) : Outcome :=
  -- A file that is missing and one that is no text are not told apart.
  match contents.bind String.fromUTF8? with
  | none => .failed (.unreadable o.file)
  | some source =>
    match (o.simulate source).run with
    | none => .panicked
    | some (.ok n) => .printed (o.report n)
    | some (.error e) => .failed (.network e)

end Options

/-- The name and version of the program. -/
def versionText : String := "cnide 0.1.0\n"

/-- The summary of the arguments. -/
def helpText : String := unlines [
  "Combinator network compiler and tick simulator",
  "",
  "Usage: cnide [OPTIONS] <NETWORK_FILE>",
  "",
  "Arguments:",
  "  <NETWORK_FILE>  Path to the network description file",
  "",
  "Options:",
  "  -t, --ticks <TICKS>              Number of ticks to simulate [default: 1]",
  "  -l, --layout                     Also print wire colors and wire segments",
  "      --json                       Print JSON instead of a table",
  "      --clique-size <CLIQUE_SIZE>  Row width of the layout grid [default: 5]",
  "      --max-depth <MAX_DEPTH>      Maximum nesting depth of sub-network instantiations [default: 32]",
  "  -a, --activate <INDEX>...        Switch on toggle or pulse buttons before the first tick",
  "  -h, --help                       Print help",
  "  -V, --version                    Print version"]

/-- The outcome of an invocation, where `read` yields the contents of a file if there is one. -/
def Invocation.outcome (read : String → Option ByteArray) : Invocation → Outcome
  | run options => options.run (read options.file)
  | help => .printed helpText
  | version => .printed versionText

/-- The outcome of a call with the given arguments. -/
def outcomeOf (read : String → Option ByteArray) (arguments : List String) : Outcome :=
  match Invocation.parse arguments with
  | .error fault => .misused fault
  | .ok invocation => invocation.outcome read

end CombinatorNet
