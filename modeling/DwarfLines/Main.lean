import DwarfLines.CommandLine.Session

/-!
# The program

The session run on the files of the machine. What decides anything is in the session; here files are
read and written and texts are printed.
-/

namespace DwarfLines.Main

/-- The text of an error of the machine, with its number if the system found it. -/
def systemError : IO.Error → SystemError
  | .alreadyExists _ number text | .otherError number text | .resourceBusy number text
  | .resourceVanished number text | .unsupportedOperation number text | .hardwareFault number text
  | .unsatisfiedConstraints number text | .illegalOperation number text
  | .protocolError number text | .timeExpired number text | .interrupted _ number text
  | .noFileOrDirectory _ number text | .invalidArgument _ number text
  | .permissionDenied _ number text | .resourceExhausted _ number text
  | .inappropriateType _ number text | .noSuchThing _ number text => ⟨some number.toNat, text⟩
  | .unexpectedEof => ⟨none, "unexpected end of file"⟩
  | .userError text => ⟨none, text⟩

/-- The value of an action, or its error. -/
def attempt {α : Type} (action : IO α) : IO (Except SystemError α) := do
  match ← action.toBaseIO with
  | .ok a => return .ok a
  | .error e => return .error (systemError e)

/-- The permissions that three bits stand for. -/
def accessRight (bits : UInt16) : IO.AccessRight :=
  { read := bits &&& 4 != 0, write := bits &&& 2 != 0, execution := bits &&& 1 != 0 }

/-- The permissions that the bits of a mode stand for. -/
def fileRight (mode : Mode) : IO.FileRight :=
  { user := accessRight (mode >>> 6), group := accessRight (mode >>> 3), other := accessRight mode }

/-- The files of the machine. Permission bits can be set but not be read, so that every result gets
those of an executable file; a file counts as stored once it is closed. -/
def fileSystem : FileSystem IO String where
  read path := attempt do return (← IO.FS.readBinFile path).toList
  mode path := attempt do
    let _ ← IO.FS.readBinFile path
    return 0o755
  createTemporary directory := do
    let path := Path.join directory s!".tmp{← IO.monoNanosNow}"
    match ← attempt (IO.FS.Handle.mk path .writeNew) with
    | .ok _ => return .ok path
    | .error e => return .error (e, path)
  write path contents := attempt (IO.FS.writeBinFile path ⟨contents.toArray⟩)
  flush _ := return .ok ()
  setMode path mode := attempt (IO.setAccessRights path (fileRight mode))
  rename path target := attempt (IO.FS.rename path target)
  discard path := do
    let _ ← attempt (IO.FS.removeFile path)

end DwarfLines.Main

open DwarfLines in
/-- Carries out what the arguments ask for and prints what there is to say. -/
def main (arguments : List String) : IO UInt32 := do
  let current := (← IO.currentDir.toBaseIO).toOption.map fun directory => directory.toString
  let response ← Session.respond Main.fileSystem current arguments
  IO.print response.output
  for line in response.log do IO.eprintln line
  IO.eprint response.report
  if response.code = 2 then IO.eprintln "error: invalid arguments, see --help"
  return response.code
