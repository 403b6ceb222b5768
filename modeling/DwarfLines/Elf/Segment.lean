import DwarfLines.Elf.FileHeader

/-!
# Segments

A segment says which bytes of the file are loaded where. Segments are never moved: they bound the
part of the file whose layout has to stay as it is.
-/

namespace DwarfLines.Elf

/-- An entry in the table of segments. -/
structure Segment where
  type : UInt32
  /-- Where the segment's bytes start in the file. -/
  offset : UInt32
  virtualAddress : UInt32
  physicalAddress : UInt32
  /-- The number of bytes in the file. -/
  fileSize : UInt32
  /-- The number of bytes in memory. -/
  memorySize : UInt32
  flags : UInt32
  alignment : UInt32
  deriving DecidableEq, Repr

namespace Segment

/-- Reads an entry. -/
def decode : Decoder Segment := do
  let type ← Decoder.word32
  let offset ← Decoder.word32
  let virtualAddress ← Decoder.word32
  let physicalAddress ← Decoder.word32
  let fileSize ← Decoder.word32
  let memorySize ← Decoder.word32
  let flags ← Decoder.word32
  let alignment ← Decoder.word32
  return { type, offset, virtualAddress, physicalAddress, fileSize, memorySize, flags, alignment }

/-- Whether the segment is loaded into memory. -/
def isLoad (segment : Segment) : Bool := segment.type == 1

/-- Where the segment's bytes end in the file. -/
def fileStop (segment : Segment) : Nat := segment.offset.toNat + segment.fileSize.toNat

end Segment

/-- The end of the bytes that segments cover, 0 if they cover none. -/
def coveredStop (segments : List Segment) : Nat :=
  ((segments.filter fun s => 0 < s.fileSize).map Segment.fileStop).foldl max 0

/-- Reads the segments that a header announces. -/
def readSegments (data : Bytes) (header : FileHeader) : Except Error (List Segment) :=
  readTable data .segment Segment.decode header.segmentOffset header.segmentCount

end DwarfLines.Elf
