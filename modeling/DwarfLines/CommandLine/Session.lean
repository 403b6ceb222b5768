import DwarfLines.CommandLine.Options
import DwarfLines.Files.Replacement
import DwarfLines.Listing

/-!
# Sessions

A session carries out what the arguments ask for and says what is to be printed.
-/

namespace DwarfLines

/-- What a session leaves behind besides files. -/
structure Response where
  code : UInt32
  /-- The text for the standard output. -/
  output : String
  /-- The lines of the log. -/
  log : List String
  /-- The report of a failure. -/
  report : String
  deriving DecidableEq, Repr

namespace Session

/-- The answer to a request for the version. -/
def version : String := "lineslim 0.1.0\n"

/-- The answer to a request for help. -/
def help : String :=
  "Shrink the DWARF line tables of an ELF32 binary in place\n\n" ++
  "Usage: lineslim [OPTIONS] <FILE>\n\n" ++
  "Arguments:\n" ++
  "  <FILE>  ELF32 file to rewrite\n\n" ++
  "Options:\n" ++
  "  -o, --output <PATH>  Write the result to this path instead of replacing FILE\n" ++
  "  -d, --dump           Print the decoded line tables and exit without writing anything\n" ++
  "  -q, --quiet          Only report warnings and errors\n" ++
  "  -v, --verbose        Report every rewritten line program and section\n" ++
  "  -h, --help           Print help\n" ++
  "  -V, --version        Print version\n"

/-- How much detail a verbosity lets through. -/
def detail : Verbosity → Nat
  | .quiet => Level.warning.detail
  | .normal => Level.info.detail
  | .verbose => Level.debug.detail

/-- The lines of the log that a verbosity lets through. -/
def logLines (verbosity : Verbosity) (events : List Event) : List String :=
  (events.filter fun event => event.level.detail ≤ detail verbosity).map Event.line

variable {m : Type → Type} [Monad m] {τ : Type}

/-- Carries out what options ask for. Relative paths in listings are taken from `current`. -/
def run (fs : FileSystem m τ) (current : Option String) (options : Options) : m Listing := do
  if options.dump then
    match ← (FileSystem.step [.reading options.file] (fs.read options.file)).run with
    | .error failure => return ⟨"", ⟨[], .error failure⟩⟩
    | .ok data => return .ofFile current data
  else
    let shrunk ← fs.shrinkFile options.file options.output
    return .ofOutcome do
      let stats ← shrunk
      Traced.tell [.wroteFile options.file stats]

/-- Carries out what arguments ask for. -/
def respond (fs : FileSystem m τ) (current : Option String) (arguments : List String) : m Response := do
  match Options.ofArguments arguments with
  | .error .help => return { code := 0, output := help, log := [], report := "" }
  | .error .version => return { code := 0, output := version, log := [], report := "" }
  | .error (.usage _) => return { code := 2, output := "", log := [], report := "" }
  | .ok options =>
    let listing ← run fs current options
    let log := logLines options.verbosity listing.outcome.log
    match listing.outcome.result with
    | .ok () => return { code := 0, output := listing.text, log, report := "" }
    | .error failure => return { code := 1, output := listing.text, log, report := failure.report }

end Session

end DwarfLines
