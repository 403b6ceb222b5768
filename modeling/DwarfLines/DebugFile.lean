import DwarfLines.Elf.Container
import DwarfLines.Traced

/-!
# Files with debugging information

The three sections of a file that line programs are found by.
-/

namespace DwarfLines

/-- The sections of a file with its debugging information. -/
structure DebugSections where
  /-- Compile units. -/
  info : Elf.SectionInfo
  /-- Abbreviation tables. -/
  abbreviations : Elf.SectionInfo
  /-- Line programs. -/
  line : Elf.SectionInfo
  deriving DecidableEq, Repr

namespace DebugSections

/-- The first section with a given name, which must not be one that only takes up memory. -/
def pick (container : Elf.Container) (name : String) : Except Cause Elf.SectionInfo :=
  match container.find? name with
  | none => .error (.missingSection name)
  | some info =>
    if info.type = Elf.SectionHeader.noBits then .error (.emptySection name) else .ok info

/-- Finds the debug sections of a file. -/
def ofContainer (container : Elf.Container) : Except Cause DebugSections := do
  let info ← pick container ".debug_info"
  let abbreviations ← pick container ".debug_abbrev"
  let line ← pick container ".debug_line"
  return { info, abbreviations, line }

end DebugSections

/-- An opened file and the contents of its debug sections. -/
structure DebugFile where
  container : Elf.Container
  sections : DebugSections
  info : Bytes
  abbreviations : Bytes
  line : Bytes
  deriving DecidableEq, Repr

/-- Opens a file and finds its debug sections. -/
def DebugFile.ofBytes (data : Bytes) : Traced DebugFile := do
  let container ← (Traced.ofElf (Elf.Container.ofBytes data)).during .openingContainer
  let sections ← match DebugSections.ofContainer container with
    | .ok sections => pure sections
    | .error cause => Traced.fail cause
  let info ← Traced.ofElf (container.contents? sections.info.index)
  let abbreviations ← Traced.ofElf (container.contents? sections.abbreviations.index)
  let line ← Traced.ofElf (container.contents? sections.line.index)
  return { container, sections, info, abbreviations, line }

end DwarfLines
