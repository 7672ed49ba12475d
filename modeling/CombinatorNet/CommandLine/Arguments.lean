/-!
# Command-line arguments

The arguments name a network file and may set options, in any order. A value of an option follows it
as the next argument or is attached to it, to a long name behind an equals sign and to a short name
with or without one. Short names can be written together behind one dash, and `--` ends the options.

## Main definitions

* `Options` — the settings of a run
* `Invocation` — what the arguments ask for: a run, the help text or the version
* `UsageFault` — what can be wrong with arguments
* `Invocation.parse` — the reading of an argument list
-/

namespace CombinatorNet

/-- The settings of a run. -/
structure Options where
  /-- The network file. -/
  file : String
  /-- How many ticks are run. -/
  ticks : Nat := 1
  /-- Whether the layout is printed too. -/
  layout : Bool := false
  /-- Whether a document is printed instead of lines. -/
  json : Bool := false
  /-- The width of the grid. -/
  cliqueSize : Nat := 5
  /-- How deep instances may be nested. -/
  maxDepth : Nat := 32
  /-- The buttons that are switched on before the first tick. -/
  activate : List Nat := []
deriving DecidableEq, Repr, Inhabited

/-- What an argument list asks for. -/
inductive Invocation
  | run (options : Options)
  | help
  | version
deriving DecidableEq, Repr, Inhabited

/-- What can be wrong with an argument list. -/
inductive UsageFault
  | unknownArgument (argument : String)
  | missingFile
  | missingValue (option : String)
  | unexpectedValue (option value : String)
  | invalidValue (option value : String)
  | repeated (option : String)
deriving DecidableEq, Repr

/-- The wording of a usage fault. -/
def UsageFault.message : UsageFault → String
  | unknownArgument argument => s!"unexpected argument '{argument}' found"
  | missingFile => "the following required arguments were not provided: <NETWORK_FILE>"
  | missingValue option => s!"a value is required for '{option}' but none was supplied"
  | unexpectedValue option value => s!"unexpected value '{value}' for '{option}' found"
  | invalidValue option value => s!"invalid value '{value}' for '{option}'"
  | repeated option => s!"the argument '{option}' cannot be used multiple times"

/-- The options by their long names. -/
inductive OptionName
  | ticks | layout | json | cliqueSize | maxDepth | activate | help | version
deriving DecidableEq, Repr, Inhabited

namespace OptionName

/-- The written form of an option. -/
def text : OptionName → String
  | ticks => "--ticks"
  | layout => "--layout"
  | json => "--json"
  | cliqueSize => "--clique-size"
  | maxDepth => "--max-depth"
  | activate => "--activate"
  | help => "--help"
  | version => "--version"

/-- Every option. -/
def all : List OptionName :=
  [ticks, layout, json, cliqueSize, maxDepth, activate, help, version]

/-- The option with a given written form. -/
def ofText? (s : String) : Option OptionName := all.find? fun o => o.text == s

/-- The option with a given short name. -/
def ofShort? : Char → Option OptionName
  | 't' => some ticks
  | 'l' => some layout
  | 'a' => some activate
  | 'h' => some help
  | 'V' => some version
  | _ => none

/-- Whether an option takes a value. -/
def takesValue : OptionName → Bool
  | ticks | cliqueSize | maxDepth | activate => true
  | _ => false

end OptionName

/-- The number that an argument denotes: digits, perhaps behind a plus sign, that fit in an unsigned
64-bit word. -/
def argumentNumber? (s : String) : Option Nat :=
  let digits := match s.toList with
    | '+' :: rest => rest
    | cs => cs
  let n := Nat.ofDigitChars 10 digits 0
  if digits ≠ [] ∧ digits.all Char.isDigit ∧ n < 0x10000000000000000 then some n else none

/-- The options that were read so far. -/
structure PartialOptions where
  file : Option String := none
  ticks : Option Nat := none
  layout : Bool := false
  json : Bool := false
  cliqueSize : Option Nat := none
  maxDepth : Option Nat := none
  activate : List Nat := []
deriving Inhabited

namespace PartialOptions

/-- Set an option that may be given once. -/
def once (option : OptionName) (old : Option Nat) (value : Nat) : Except UsageFault (Option Nat) :=
  if old.isSome then .error (.repeated option.text) else .ok (some value)

/-- Take a value of an option. -/
def setValue (p : PartialOptions) (option : OptionName) (value : String) :
    Except UsageFault PartialOptions :=
  match argumentNumber? value with
  | none => .error (.invalidValue option.text value)
  | some n =>
    match option with
    | .ticks => do return { p with ticks := ← once option p.ticks n }
    | .cliqueSize => do return { p with cliqueSize := ← once option p.cliqueSize n }
    | .maxDepth => do return { p with maxDepth := ← once option p.maxDepth n }
    | .activate => .ok { p with activate := p.activate ++ [n] }
    | _ => .error (.unexpectedValue option.text value)

/-- Take an option without a value. -/
def setFlag (p : PartialOptions) (option : OptionName) : Except UsageFault PartialOptions :=
  match option with
  | .layout => if p.layout then .error (.repeated option.text) else .ok { p with layout := true }
  | .json => if p.json then .error (.repeated option.text) else .ok { p with json := true }
  | _ => .error (.missingValue option.text)

/-- Take the network file. -/
def setFile (p : PartialOptions) (file : String) : Except UsageFault PartialOptions :=
  if p.file.isSome then .error (.unknownArgument file)
  else if file.isEmpty then .error (.missingValue "<NETWORK_FILE>")
  else .ok { p with file := some file }

/-- The finished options, with the defaults for what was not given. -/
def finish (p : PartialOptions) : Except UsageFault Options :=
  match p.file with
  | none => .error .missingFile
  | some file =>
    let default : Options := { file }
    .ok { file
          ticks := p.ticks.getD default.ticks
          layout := p.layout
          json := p.json
          cliqueSize := p.cliqueSize.getD default.cliqueSize
          maxDepth := p.maxDepth.getD default.maxDepth
          activate := p.activate }

end PartialOptions

/-- What the next argument may be. -/
inductive Expecting
  /-- An option or the file. -/
  | anything
  /-- The value of an option. -/
  | value (option : OptionName)
  /-- One more value of an option, or anything else. -/
  | moreValues (option : OptionName)
  /-- The file, as the options have ended. -/
  | fileOnly
deriving DecidableEq, Repr

/-- What one argument does: the options and what may follow, or the end of reading. -/
inductive Progress
  | goOn (options : PartialOptions) (expecting : Expecting)
  | stop (invocation : Invocation)

/-- Take an option whose value is not attached. -/
def takeOption (p : PartialOptions) (option : OptionName) : Except UsageFault Progress :=
  match option with
  | .help => .ok (.stop .help)
  | .version => .ok (.stop .version)
  | _ =>
    if option.takesValue then .ok (.goOn p (.value option))
    else do return .goOn (← p.setFlag option) .anything

/-- Take an option with an attached value. -/
def takeAttached (p : PartialOptions) (option : OptionName) (value : String) :
    Except UsageFault Progress :=
  if option.takesValue then do return .goOn (← p.setValue option value) .anything
  else .error (.unexpectedValue option.text value)

/-- Take the short options that are written together in an argument. -/
def takeShort (p : PartialOptions) (argument : String) : List Char → Except UsageFault Progress
  | [] => .ok (.goOn p .anything)
  | c :: rest =>
    match OptionName.ofShort? c with
    | none => .error (.unknownArgument argument)
    | some option =>
      if option.takesValue then
        -- What is left of the argument is the value, behind an equals sign or not.
        match rest with
        | [] => takeOption p option
        | '=' :: value => takeAttached p option (String.ofList value)
        | value => takeAttached p option (String.ofList value)
      else
        match takeOption p option with
        | .error fault => .error fault
        | .ok (.stop invocation) => .ok (.stop invocation)
        | .ok (.goOn p _) => takeShort p argument rest

/-- Take a long option, perhaps with a value behind an equals sign. -/
def takeLong (p : PartialOptions) (argument : String) : Except UsageFault Progress :=
  let name := String.ofList (argument.toList.takeWhile (· != '='))
  match OptionName.ofText? name, argument.toList.dropWhile (· != '=') with
  | none, _ => .error (.unknownArgument argument)
  | some option, [] => takeOption p option
  | some option, _ :: value => takeAttached p option (String.ofList value)

/-- Take an argument that is no option. -/
def takePlain (p : PartialOptions) (expecting : Expecting) (argument : String) :
    Except UsageFault Progress :=
  match expecting with
  | .anything => do return .goOn (← p.setFile argument) .anything
  | .fileOnly => do return .goOn (← p.setFile argument) .fileOnly
  | .value option | .moreValues option => do
    return .goOn (← p.setValue option argument)
      (if option = .activate then .moreValues option else .anything)

/-- Take the next argument. -/
def takeArgument (p : PartialOptions) (expecting : Expecting) (argument : String) :
    Except UsageFault Progress :=
  match expecting, argument.toList with
  | .fileOnly, _ => takePlain p expecting argument
  -- A dash alone is a plain argument, but no value starts with one.
  | .value option, '-' :: _ :: _ => .error (.missingValue option.text)
  | _, ['-', '-'] => .ok (.goOn p .fileOnly)
  | _, '-' :: '-' :: _ => takeLong p argument
  | _, '-' :: c :: rest => takeShort p argument (c :: rest)
  | _, _ => takePlain p expecting argument

/-- Take the arguments one after the other. -/
def takeArguments (p : PartialOptions) (expecting : Expecting) :
    List String → Except UsageFault Invocation
  | [] =>
    match expecting with
    | .value option => .error (.missingValue option.text)
    | _ => do return .run (← p.finish)
  | argument :: rest =>
    match takeArgument p expecting argument with
    | .error fault => .error fault
    | .ok (.stop invocation) => .ok invocation
    | .ok (.goOn p expecting) => takeArguments p expecting rest

/-- What an argument list asks for. -/
def Invocation.parse (arguments : List String) : Except UsageFault Invocation :=
  takeArguments {} .anything arguments

end CombinatorNet
