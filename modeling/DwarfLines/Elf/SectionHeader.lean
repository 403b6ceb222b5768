import DwarfLines.Elf.FileHeader
import DwarfLines.Text.Utf8

/-!
# Section headers and names

A section header says where a section's contents are in the file. Names are stored in a section of
their own, as strings that a zero byte ends.
-/

namespace DwarfLines.Elf

/-- An entry in the table of sections. -/
structure SectionHeader where
  /-- Where the section's name starts in the section of names. -/
  name : UInt32
  type : UInt32
  flags : UInt32
  /-- The address of the section in memory. -/
  address : UInt32
  /-- Where the section's contents start in the file. -/
  offset : UInt32
  /-- The size of the contents. -/
  size : UInt32
  link : UInt32
  info : UInt32
  /-- The alignment as recorded; 0 stands for 1. -/
  addressAlignment : UInt32
  entrySize : UInt32
  deriving DecidableEq, Repr

namespace SectionHeader

/-- The type of an unused entry. -/
def null : UInt32 := 0

/-- The type of a section without contents in the file. -/
def noBits : UInt32 := 8

/-- Reads an entry. -/
def decode : Decoder SectionHeader := do
  let name ← Decoder.word32
  let type ← Decoder.word32
  let flags ← Decoder.word32
  let address ← Decoder.word32
  let offset ← Decoder.word32
  let size ← Decoder.word32
  let link ← Decoder.word32
  let info ← Decoder.word32
  let addressAlignment ← Decoder.word32
  let entrySize ← Decoder.word32
  return { name, type, flags, address, offset, size, link, info, addressAlignment, entrySize }

/-- The fields in the order in which they are stored. -/
def fields (header : SectionHeader) : List UInt32 :=
  [header.name, header.type, header.flags, header.address, header.offset, header.size, header.link,
    header.info, header.addressAlignment, header.entrySize]

/-- The entry as it is stored. -/
def bytes (header : SectionHeader) : Bytes := header.fields.flatMap bytesOfWord32

/-- Whether the section has contents in the file. -/
def hasFileData (header : SectionHeader) : Bool := header.type != noBits && header.type != null

/-- The alignment of the section, at least 1. -/
def alignment (header : SectionHeader) : UInt32 := max header.addressAlignment 1

end SectionHeader

/-- Reads the sections that a header announces. -/
def readSectionHeaders (data : Bytes) (header : FileHeader) : Except Error (List SectionHeader) :=
  readTable data .section SectionHeader.decode header.sectionOffset header.sectionCount

/-- The name that starts at `offset` in a section of names, if it ends there and is well-formed
text. -/
def nameAt? (names : Bytes) (offset : UInt32) : Option String := do
  let (name, _) ← Decoder.cstring (names.drop offset.toNat)
  Utf8.decode? name

end DwarfLines.Elf
