import DwarfLines.Elf.SectionHeader
import DwarfLines.Elf.Segment
import DwarfLines.Span

/-!
# Containers

A container is an opened file: its header, segments and sections, each section with its name and the
bytes that hold its contents. The front of the file up to the end of what segments cover is fixed: a
section that starts there is never moved.
-/

namespace DwarfLines.Elf

/-- A section of an opened file. -/
structure Section where
  /-- The entry as it is to be written. -/
  header : SectionHeader
  name : String
  /-- The contents in the file that was opened. -/
  source : Span
  /-- Whether the section has its place in the output. -/
  placed : Bool
  deriving DecidableEq, Repr

/-- An opened file. -/
structure Container where
  data : Bytes
  header : FileHeader
  segments : List Segment
  sections : List Section
  /-- The end of the part of the file that keeps its layout. -/
  fixedStop : UInt32
  deriving DecidableEq, Repr

/-- What there is to say about a section that was looked up by name. -/
structure SectionInfo where
  index : Nat
  offset : UInt32
  size : UInt32
  alignment : UInt32
  type : UInt32
  deriving DecidableEq, Repr

/-- The bytes that hold a section's contents, which have to lie within the file. A section without
contents has no bytes. -/
def sourceOf? (length : Nat) (header : SectionHeader) : Option Span :=
  let start := header.offset.toNat
  if header.hasFileData then
    let stop := start + header.size.toNat
    if stop ≤ length then some ⟨start, stop⟩ else none
  else some ⟨min start length, min start length⟩

/-- The contents of each section, `index` being the number of the first. -/
def sourcesFrom (length : Nat) : (index : Nat) → List SectionHeader → Except Error (List Span)
  | _, [] => .ok []
  | index, header :: headers => do
    let some source := sourceOf? length header | throw (.sectionOutOfBounds index)
    let sources ← sourcesFrom length (index + 1) headers
    return source :: sources

namespace Container

/-- Opens a file. -/
def ofBytes (data : Bytes) : Except Error Container := do
  let header ← FileHeader.read data
  let segments ← readSegments data header
  let headers ← readSectionHeaders data header
  let sources ← sourcesFrom data.length 0 headers
  let names := sources[header.nameSection.toNat]?.map fun source => source.slice data
  let nameOf (header : SectionHeader) : String :=
    (names.bind fun names => nameAt? names header.name).getD ""
  let sections := List.zipWith
    (fun header source => { header, name := nameOf header, source, placed := false }) headers sources
  let stop := max (coveredStop segments) (max header.segmentsStop Part.fileHeader.size)
  if data.length < stop then throw .invalidOffset
  let some fixedStop := word32? stop | throw .invalidOffset
  return { data, header, segments, sections, fixedStop }

/-- The section with a given number. -/
def section? (container : Container) (index : Nat) : Except Error Section :=
  match container.sections[index]? with
  | some found => .ok found
  | none => .error (.noSuchSection index)

/-- The contents of a section in the file that was opened. -/
def contents (container : Container) (found : Section) : Bytes := found.source.slice container.data

/-- The contents of the section with a given number. -/
def contents? (container : Container) (index : Nat) : Except Error Bytes :=
  container.contents <$> container.section? index

/-- The first section with a given name. -/
def find? (container : Container) (name : String) : Option SectionInfo :=
  (container.sections.zipIdx.find? fun (found, _) => found.name == name).map fun (found, index) =>
    { index
      offset := found.header.offset
      size := found.header.size
      alignment := found.header.alignment
      type := found.header.type }

end Container

end DwarfLines.Elf
