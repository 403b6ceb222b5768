import DwarfLines.Line.Program
import DwarfLines.Log

/-!
# What decoding tells

Decoding a unit tells of files without a directory, of files that the program defines itself, and of
instructions it passes over. What was read before an error is told all the same.
-/

namespace DwarfLines

namespace FileEntry

/-- The event of a file whose directory is missing. -/
def misplacedEvents (directories : List String) (entry : FileEntry) : List Event :=
  if entry.isMisplaced directories then [.misplacedFile entry.name entry.directoryIndex] else []

end FileEntry

/-- What reading the files of a header tells, up to the first error in the header. -/
def headerEvents (data : Bytes) : List Event :=
  match Preamble.read data with
  | .error _ => []
  | .ok (preamble, bytes) =>
    let (directories, files) := Tables.filesRead preamble.params.opcodeBase bytes
    files.flatMap (FileEntry.misplacedEvents directories)

/-- What an instruction tells. -/
def Instruction.events (directories : List String) : Instruction → List Event
  | extended (.defineFile _ entry) => entry.misplacedEvents directories ++ [.inlineFile entry.name]
  | extended (.unknown opcode operands) => [.unknownExtended opcode (operands.length + 1)]
  | _ => []

/-- What decoding a unit tells. -/
def decodingEvents (data : Bytes) : List Event :=
  let ofProgram := match UnitHeader.read data with
    | .error _ => []
    | .ok header =>
      match header.instructions? data with
      | none => []
      | some (instructions, _) => instructions.flatMap (Instruction.events header.directories)
  headerEvents data ++ ofProgram

end DwarfLines
