/-!
# Errors of ELF files
-/

namespace DwarfLines.Elf

/-- The structures of a file whose sizes its header records. -/
inductive Part where
  | fileHeader
  | segment
  | section
  deriving DecidableEq, Repr

/-- The name of a structure. -/
def Part.name : Part → String
  | fileHeader => "ELF header"
  | segment => "program header"
  | «section» => "section header"

/-- The size of a structure in a 32-bit file. -/
def Part.size : Part → Nat
  | fileHeader => 52
  | segment => 32
  | «section» => 40

/-- Why a file cannot be opened or laid out. -/
inductive Error where
  | badMagic
  /-- The file is not a 32-bit one. -/
  | unsupportedClass
  /-- The file is not a little-endian one. -/
  | unsupportedEncoding
  | truncated
  /-- A table lies outside the file, or an offset does not fit 32 bits. -/
  | invalidOffset
  /-- The header records another size for a structure than a 32-bit file has. -/
  | malformedContainer (part : Part) (found : UInt16)
  /-- The contents of a section lie outside the file. -/
  | sectionOutOfBounds (index : Nat)
  | noSuchSection (index : Nat)
  deriving DecidableEq, Repr

/-- The text of an error. -/
def Error.message : Error → String
  | badMagic => "invalid ELF magic bytes"
  | unsupportedClass => "unsupported ELF class (expected ELFCLASS32)"
  | unsupportedEncoding => "unsupported data encoding (expected little-endian)"
  | truncated => "input data truncated"
  | invalidOffset => "invalid header offset or size"
  | malformedContainer part found =>
    s!"malformed ELF container: {part.name} is {found} bytes, expected {part.size}"
  | sectionOutOfBounds index => s!"section {index} lies outside the file"
  | noSuchSection index => s!"no section with index {index}"

end DwarfLines.Elf
