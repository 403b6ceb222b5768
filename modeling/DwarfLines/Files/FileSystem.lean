import DwarfLines.Bytes
import DwarfLines.Files.SystemError

/-!
# What a run needs of a file system

The operations on files that shrinking uses. A run is written once against them, and works on the
files of the machine as well as on a tree of files held as a value.
-/

namespace DwarfLines

/-- The permission bits of a file. -/
abbrev Mode := UInt16

/-- The contents and the permission bits of a file. -/
structure File where
  contents : Bytes
  mode : Mode
  deriving DecidableEq, Repr

/-- What stands at a place. -/
inductive Node where
  | directory
  | file (file : File)
  deriving DecidableEq, Repr

/-- The operations on files, carried out in `m`; a temporary file is known by a `τ`. -/
structure FileSystem (m : Type → Type) (τ : Type) where
  /-- The contents of a file. -/
  read : String → m (Except SystemError Bytes)
  /-- The permission bits of a file. -/
  mode : String → m (Except SystemError Mode)
  /-- Makes an empty file with a new name in a directory. An error comes with the path of the file
  that could not be made. -/
  createTemporary : String → m (Except (SystemError × String) τ)
  /-- Writes the contents of a temporary file. -/
  write : τ → Bytes → m (Except SystemError Unit)
  /-- Waits until the contents of a temporary file are stored. -/
  flush : τ → m (Except SystemError Unit)
  /-- Sets the permission bits of a temporary file. -/
  setMode : τ → Mode → m (Except SystemError Unit)
  /-- Gives a temporary file another path, in one step; what was there before is gone. -/
  rename : τ → String → m (Except SystemError Unit)
  /-- Removes a temporary file. -/
  discard : τ → m Unit

end DwarfLines
