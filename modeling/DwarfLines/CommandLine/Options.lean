/-!
# Command-line arguments

The program takes one file and a few options. A short option stands for itself after one dash, also
together with others in one argument; a long one stands after two. An option's value follows it in
the same argument or in the next. After `--` every argument is a file.
-/

namespace DwarfLines

/-- How much a run tells. -/
inductive Verbosity where
  | quiet
  | normal
  | verbose
  deriving DecidableEq, Repr

namespace Verbosity

/-- The verbosity that the options for more and for less ask for. -/
def ofFlags : (verbose quiet : Bool) → Verbosity
  | true, _ => .verbose
  | false, true => .quiet
  | false, false => .normal

/-- The name of the least important level that is told. -/
def threshold : Verbosity → String
  | quiet => "warn"
  | normal => "info"
  | verbose => "debug"

end Verbosity

/-- What the arguments ask for. -/
structure Options where
  /-- The file to work on. -/
  file : String
  /-- Where the result goes, if not in the place of the file. -/
  output : Option String
  /-- Whether the line section is to be listed and nothing written. -/
  dump : Bool
  quiet : Bool
  verbose : Bool
  deriving DecidableEq, Repr

/-- How much the run is to tell. -/
def Options.verbosity (options : Options) : Verbosity :=
  .ofFlags options.verbose options.quiet

/-- Why arguments ask for nothing that can be done. -/
inductive UsageError where
  /-- There is no file. -/
  | missingArgument
  /-- An option is given twice, or two options exclude each other. -/
  | conflict
  | unknownArgument
  /-- A value is empty or missing. -/
  | invalidValue
  /-- A value is given to an option that takes none. -/
  | tooManyValues
  deriving DecidableEq, Repr

/-- Why reading arguments ends early. -/
inductive Interruption where
  | help
  | version
  | usage (error : UsageError)
  deriving DecidableEq, Repr

namespace Arguments

/-- An argument whose value has been read, or is about to be. -/
inductive Pending where
  | output (value : Option String)
  | file (value : String)
  deriving DecidableEq, Repr

/-- How far the arguments have been read. -/
structure State where
  file : Option String
  output : Option String
  dump : Bool
  quiet : Bool
  verbose : Bool
  /-- What has been read but not been checked. -/
  pending : Option Pending
  /-- Whether a file has been read, checked or not. -/
  hasFile : Bool
  /-- Whether `--` has been read. -/
  filesOnly : Bool
  deriving DecidableEq, Repr

/-- The state before the first argument. -/
def State.initial : State :=
  { file := none, output := none, dump := false, quiet := false, verbose := false, pending := none,
    hasFile := false, filesOnly := false }

/-- The options that take no value. -/
inductive Flag where
  | dump
  | quiet
  | verbose
  | help
  | version
  deriving DecidableEq, Repr

/-- An option. -/
inductive Key where
  | output
  | flag (flag : Flag)
  deriving DecidableEq, Repr

/-- The option with a given letter. -/
def Key.ofLetter? : Char → Option Key
  | 'o' => some .output
  | 'd' => some (.flag .dump)
  | 'q' => some (.flag .quiet)
  | 'v' => some (.flag .verbose)
  | 'h' => some (.flag .help)
  | 'V' => some (.flag .version)
  | _ => none

/-- The option with a given name. -/
def Key.ofName? : String → Option Key
  | "output" => some .output
  | "dump" => some (.flag .dump)
  | "quiet" => some (.flag .quiet)
  | "verbose" => some (.flag .verbose)
  | "help" => some (.flag .help)
  | "version" => some (.flag .version)
  | _ => none

/-- A step of reading arguments. -/
abbrev Step := Except Interruption State

/-- Ends reading for an error. -/
def fail (error : UsageError) : Step := .error (.usage error)

/-- Takes a value for an option that must not have one yet. The value must not be empty. -/
def State.setOutput (state : State) (value : String) : Step :=
  if state.output.isSome then fail .conflict
  else if value.isEmpty then fail .invalidValue
  else .ok { state with output := some value }

/-- Checks what was read but not checked. -/
def State.settle (state : State) : Step :=
  let rest := { state with pending := none }
  match state.pending with
  | none => .ok rest
  | some (.output none) => fail .invalidValue
  | some (.output (some value)) => rest.setOutput value
  | some (.file value) =>
    if value.isEmpty then fail .invalidValue else .ok { rest with file := some value }

/-- Takes an option without a value. -/
def State.takeFlag (state : State) (flag : Flag) : Step := do
  let state ← state.settle
  match flag with
  | .dump => if state.dump then fail .conflict else return { state with dump := true }
  | .quiet => if state.quiet then fail .conflict else return { state with quiet := true }
  | .verbose => if state.verbose then fail .conflict else return { state with verbose := true }
  | .help => throw .help
  | .version => throw .version

/-- Takes the option for the output, whose value may follow in the next argument. -/
def State.takeOutput (state : State) (value : Option String) : Step := do
  let state ← state.settle
  match value with
  | some value => state.setOutput value
  | none => return { state with pending := some (.output none) }

/-- Takes the letters after one dash. -/
def State.takeLetters (state : State) : List Char → Step
  | [] => .ok state
  | letter :: rest =>
    match Key.ofLetter? letter with
    | none => fail .unknownArgument
    | some (.flag flag) => do
      let state ← state.takeFlag flag
      state.takeLetters rest
    | some .output =>
      match rest with
      | [] => state.takeOutput none
      | '=' :: value => state.takeOutput (some (String.ofList value))
      | value => state.takeOutput (some (String.ofList value))

/-- Takes what stands after two dashes. -/
def State.takeLong (state : State) (text : List Char) : Step :=
  let name := String.ofList (text.takeWhile (· != '='))
  let value := match text.dropWhile (· != '=') with
    | [] => none
    | _ :: value => some (String.ofList value)
  match Key.ofName? name, value with
  | none, _ => fail .unknownArgument
  | some .output, value => state.takeOutput value
  | some (.flag flag), none => state.takeFlag flag
  | some (.flag _), some _ => fail .tooManyValues

/-- Takes an argument that is a value by itself: the value that an option waits for, or the file. -/
def State.takeValue (state : State) (value : String) : Step :=
  match state.pending, state.filesOnly with
  | some (.output none), false => .ok { state with pending := some (.output (some value)) }
  | _, _ =>
    -- A second file is refused before anything that still waits is checked.
    if state.hasFile then fail .unknownArgument
    else do
      let state ← state.settle
      return { state with pending := some (.file value), hasFile := true }

/-- Takes an argument. -/
def State.take (state : State) (argument : String) : Step :=
  if state.filesOnly then state.takeValue argument
  else
    match argument.toList with
    | ['-', '-'] => .ok { state with filesOnly := true }
    | '-' :: '-' :: text => state.takeLong text
    | ['-'] => state.takeValue argument
    | '-' :: letters => state.takeLetters letters
    | _ => state.takeValue argument

end Arguments

/-- Reads the arguments after the program's name. -/
def Options.ofArguments (arguments : List String) : Except Interruption Options := do
  let state ← arguments.foldlM Arguments.State.take .initial
  let state ← state.settle
  let { output, dump, quiet, verbose, .. } := state
  if dump && output.isSome || quiet && verbose then throw (.usage .conflict)
  match state.file with
  | none => throw (.usage .missingArgument)
  | some file => return { file, output, dump, quiet, verbose }

end DwarfLines
