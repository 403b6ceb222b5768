import DwarfLines.Decoder
import DwarfLines.Elf.Error

/-!
# File headers

The header of a 32-bit little-endian ELF file, and the tables that it points at.
-/

namespace DwarfLines.Elf

/-- The header of a file. -/
structure FileHeader where
  type : UInt16
  machine : UInt16
  /-- The address at which the program starts. -/
  entry : UInt32
  /-- Where the table of segments starts. -/
  segmentOffset : UInt32
  /-- Where the table of sections starts. -/
  sectionOffset : UInt32
  /-- The recorded size of this header. -/
  headerSize : UInt16
  /-- The recorded size of an entry in the table of segments. -/
  segmentSize : UInt16
  segmentCount : UInt16
  /-- The recorded size of an entry in the table of sections. -/
  sectionSize : UInt16
  sectionCount : UInt16
  /-- The section that holds the names of sections. -/
  nameSection : UInt16
  deriving DecidableEq, Repr

/-- Where a file header stores the offset of the table of sections. -/
def sectionOffsetField : Nat := 32

namespace FileHeader

/-- The four bytes that every file starts with. -/
def magic : Bytes := [0x7f, 0x45, 0x4c, 0x46]

/-- Reads the fields of a header. -/
def decode : Decoder FileHeader := do
  let _identification ← Decoder.take 16
  let type ← Decoder.word16
  let machine ← Decoder.word16
  let _version ← Decoder.word32
  let entry ← Decoder.word32
  let segmentOffset ← Decoder.word32
  let sectionOffset ← Decoder.word32
  let _flags ← Decoder.word32
  let headerSize ← Decoder.word16
  let segmentSize ← Decoder.word16
  let segmentCount ← Decoder.word16
  let sectionSize ← Decoder.word16
  let sectionCount ← Decoder.word16
  let nameSection ← Decoder.word16
  return { type, machine, entry, segmentOffset, sectionOffset, headerSize, segmentSize,
           segmentCount, sectionSize, sectionCount, nameSection }

/-- Where the table of segments ends. -/
def segmentsStop (header : FileHeader) : Nat :=
  header.segmentOffset.toNat + header.segmentCount.toNat * Part.segment.size

/-- Where the table of sections ends. -/
def sectionsStop (header : FileHeader) : Nat :=
  header.sectionOffset.toNat + header.sectionCount.toNat * Part.section.size

/-- Checks a recorded size. -/
def checkSize (part : Part) (found : UInt16) : Except Error Unit :=
  if found.toNat = part.size then .ok () else .error (.malformedContainer part found)

/-- Reads and checks the header of a file. Entry sizes count only where there are entries; both
tables have to lie within the file. -/
def read (data : Bytes) : Except Error FileHeader := do
  let some (header, _) := decode data | throw .truncated
  if data.take 4 ≠ magic then throw .badMagic
  if data[4]? ≠ some 1 then throw .unsupportedClass
  if data[5]? ≠ some 1 then throw .unsupportedEncoding
  checkSize .fileHeader header.headerSize
  if 0 < header.segmentCount then checkSize .segment header.segmentSize
  if 0 < header.sectionCount then checkSize .section header.sectionSize
  if data.length < header.segmentsStop ∨ data.length < header.sectionsStop then
    throw .invalidOffset
  return header

end FileHeader

/-- Reads the `count` entries of the table at `offset`, which has to lie within the file. -/
def readTable {α : Type} (data : Bytes) (part : Part) (entry : Decoder α) (offset : UInt32)
    (count : UInt16) : Except Error (List α) := do
  if data.length < offset.toNat + count.toNat * part.size then throw .invalidOffset
  let some (entries, _) := entry.times count.toNat (data.drop offset.toNat)
    | throw .invalidOffset
  return entries

end DwarfLines.Elf
