import DwarfLines.Files.FileSystem
import DwarfLines.Shrink
import DwarfLines.Text.Path

/-!
# Replacing a file by a shrunk one

The result is written to a temporary file in the directory of the target, which then takes the
target's place in one step. A run that fails removes the temporary file, so that the target is either
the old file or the complete new one.
-/

namespace DwarfLines

namespace FileSystem

variable {m : Type → Type} [Monad m] {τ : Type}

/-- An operation as a part of activities. -/
def step {α : Type} (activities : List Activity) (operation : m (Except SystemError α)) :
    ExceptT Failure m α := ExceptT.mk do
  return (← operation).mapError fun e => ⟨activities, .system e⟩

/-- Completes a temporary file and gives it the path of the target. -/
def complete (fs : FileSystem m τ) (temporary : τ) (target : String) (contents : Bytes)
    (mode : Mode) : ExceptT Failure m Unit := do
  step [.writingTemporary] (fs.write temporary contents)
  step [.flushingTemporary] (fs.flush temporary)
  step [.settingPermissions] (fs.setMode temporary mode)
  step [.replacing target, .keepingTemporary] (fs.rename temporary target)

/-- Puts a file with the given contents and permission bits in the place of the target. -/
def replace (fs : FileSystem m τ) (target : String) (contents : Bytes) (mode : Mode) :
    m (Except Failure Unit) := do
  let directory := match Path.parent? target with
    | none | some "" => "."
    | some directory => directory
  match ← fs.createTemporary directory with
  | .error (e, path) => return .error ⟨[.creatingTemporary directory], .temporary e path⟩
  | .ok temporary =>
    match ← (fs.complete temporary target contents mode).run with
    | .ok () => return .ok ()
    | .error failure =>
      fs.discard temporary
      return .error failure

/-- Shrinks the file at `path` and puts the result, with the same permission bits, in the place of
`output` or else of the file itself. -/
def shrinkFile (fs : FileSystem m τ) (path : String) (output : Option String) :
    m (Traced Stats) := do
  match ← (step [.reading path] (fs.read path)).run with
  | .error failure => return ⟨[], .error failure⟩
  | .ok data =>
    let shrunk := (shrink data).during (.shrinking path)
    match shrunk.result with
    | .error failure => return ⟨shrunk.log, .error failure⟩
    | .ok (image, stats) =>
      match ← (step [.inspecting path] (fs.mode path)).run with
      | .error failure => return ⟨shrunk.log, .error failure⟩
      | .ok mode =>
        let outcome ← fs.replace (output.getD path) image mode
        return ⟨shrunk.log, outcome.map fun () => stats⟩

end FileSystem

end DwarfLines
