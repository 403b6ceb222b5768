import DwarfLines.DebugError
import DwarfLines.Elf.Error
import DwarfLines.Files.SystemError
import DwarfLines.Text.Quoted

/-!
# Failures

A run that fails says what went wrong, and what it was doing at the time, from the outermost
activity to the innermost.
-/

namespace DwarfLines

/-- What went wrong. -/
inductive Cause where
  | elf (error : Elf.Error)
  | debug (error : DebugError)
  | system (error : SystemError)
  /-- The temporary file at `path` could not be made. -/
  | temporary (error : SystemError) (path : String)
  | missingSection (name : String)
  /-- A section is there but has no contents in the file. -/
  | emptySection (name : String)
  /-- The line section belongs to the part of the file that keeps its layout. -/
  | loadedLineSection
  /-- The output does not fit 32-bit offsets. -/
  | offsetOverflow
  deriving DecidableEq, Repr

/-- The text of a cause. -/
def Cause.message : Cause → String
  | elf error => error.message
  | debug error => error.message
  | system error => error.message
  | temporary error path => s!"{error.message} at path {Text.quoted path}"
  | missingSection name => s!"missing {name} section"
  | emptySection name => s!"{name} has no contents in the file"
  | loadedLineSection => ".debug_line lies inside a loadable segment and cannot be moved"
  | offsetOverflow => "output offset overflow"

/-- What was being done. -/
inductive Activity where
  | openingContainer
  | walkingUnits
  /-- Looking up the program that the unit at `unitOffset` refers to. -/
  | findingProgram (unitOffset : Nat)
  | decodingProgram (offset : Nat)
  | encodingProgram (offset : Nat)
  | reading (path : String)
  | shrinking (path : String)
  | inspecting (path : String)
  | creatingTemporary (directory : String)
  | writingTemporary
  | flushingTemporary
  | settingPermissions
  | replacing (path : String)
  /-- Giving the temporary file its final name. -/
  | keepingTemporary
  deriving DecidableEq, Repr

/-- What to say about an activity that failed for the given cause. -/
def Activity.message (cause : Cause) : Activity → String
  | openingContainer => "failed to parse ELF32 file"
  | walkingUnits => "failed to walk .debug_info"
  | findingProgram unitOffset => s!"compile unit at {Text.hex unitOffset} has a bad stmt_list"
  | decodingProgram offset => s!"failed to decode line program at {Text.hex offset}"
  | encodingProgram offset => s!"failed to encode line program at {Text.hex offset}"
  | reading path => s!"failed to read {path}"
  | shrinking path => s!"failed to rewrite {path}"
  | inspecting path => s!"failed to stat {path}"
  | creatingTemporary directory => s!"failed to create temporary file in {directory}"
  | writingTemporary => "failed to write temporary file"
  | flushingTemporary => "failed to flush temporary file"
  | settingPermissions => "failed to set permissions on temporary file"
  | replacing path => s!"failed to replace {path}"
  | keepingTemporary => s!"failed to persist temporary file: {cause.message}"

/-- What went wrong, and what was being done, outermost first. -/
structure Failure where
  activities : List Activity
  cause : Cause
  deriving DecidableEq, Repr

namespace Failure

/-- A failure outside any activity. -/
def ofCause (cause : Cause) : Failure := ⟨[], cause⟩

/-- The failure as part of a larger activity. -/
def during (activity : Activity) (failure : Failure) : Failure :=
  { failure with activities := activity :: failure.activities }

/-- The texts of a failure, outermost first. -/
def messages (failure : Failure) : List String :=
  failure.activities.map (Activity.message failure.cause) ++ [failure.cause.message]

/-- The texts of a failure on one line. -/
def message (failure : Failure) : String := String.intercalate ": " failure.messages

/-- A text indented under a number, or under nothing: lines after the first are indented as far as
the first. -/
def indented (number : Option Nat) (text : String) : String :=
  let lead := match number with
    | some n => Text.right 5 (toString n) ++ ": "
    | none => "    "
  let lines := (text.toList.splitOn '\n').map String.ofList
  lead ++ String.intercalate ("\n" ++ String.ofList (List.replicate lead.length ' ')) lines

/-- The report of a failure: the outermost text, then the others as causes, numbered if there are
several. -/
def report (failure : Failure) : String :=
  let (first, causes) := match failure.messages with
    | first :: causes => (first, causes)
    | [] => ("", [])
  let lines := match causes with
    | [] => []
    | [cause] => [indented none cause]
    | causes => causes.zipIdx.map fun (cause, n) => indented (some n) cause
  s!"Error: {first}\n" ++
    if lines.isEmpty then "" else
      "\nCaused by:\n" ++ String.join (lines.map fun line => line ++ "\n")

end Failure

end DwarfLines
