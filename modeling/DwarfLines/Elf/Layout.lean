import DwarfLines.Elf.Container
import DwarfLines.Elf.Image

/-!
# Laying out a file

The sections of a container are written into an image one after the other, each at the first place
that its alignment allows. Every step takes the offset at which it may begin and returns the offset
at which the next may. A section gets its place once: later steps pass over it.

A step that fails leaves the layout as far as it came.
-/

namespace DwarfLines.Elf

/-- A container whose sections are being written, and the image they are written into. -/
structure Layout where
  container : Container
  image : Image
  deriving DecidableEq, Repr

/-- A step of laying out a file. -/
abbrev Placing := EStateM Error Layout

/-- The first multiple of `alignment` that is not below `offset`, if it fits 32 bits. -/
def alignUp? (offset alignment : UInt32) : Option UInt32 :=
  let a := max alignment.toNat 1
  word32? ((offset.toNat + a - 1) / a * a)

/-- The offset `n` bytes on, if it fits 32 bits. -/
def advance? (offset : UInt32) (n : Nat) : Option UInt32 := word32? (offset.toNat + n)

namespace Layout

/-- A container before anything is written. -/
def start (container : Container) : Layout := ⟨container, .empty⟩

/-- Replaces the section with a given number. -/
def setSection (layout : Layout) (index : Nat) (found : Section) : Layout :=
  { layout with container := { layout.container with
      sections := layout.container.sections.set index found } }

/-- Writes bytes into the image. -/
def writeAt (layout : Layout) (offset : Nat) (data : Bytes) : Layout :=
  { layout with image := layout.image.writeAt offset data }

/-- Writes a section's contents at `offset` and moves the section there. -/
def move (layout : Layout) (index : Nat) (found : Section) (offset : UInt32) : Layout :=
  (layout.writeAt offset.toNat (layout.container.contents found)).setSection index
    { found with header := { found.header with offset }, placed := true }

/-- Writes a section's contents where they were. -/
def keep (layout : Layout) (index : Nat) (found : Section) : Layout :=
  (layout.writeAt found.source.start (layout.container.contents found)).setSection index
    { found with placed := true }

end Layout

namespace Placing

/-- The value, or the error that an offset does not fit. -/
def orInvalidOffset {α : Type} : Option α → Placing α
  | some a => pure a
  | none => throw .invalidOffset

/-- The section with a given number. -/
def getSection (index : Nat) : Placing Section := do
  match (← get).container.section? index with
  | .ok found => return found
  | .error e => throw e

/-- Copies a section to the first place at or after `dest` that its alignment allows, and returns the
aligned end of the copy. A section that has its place, or has no contents, is left alone. -/
def copySection (dest : UInt32) (index : Nat) : Placing UInt32 := do
  let found ← getSection index
  if found.placed || !found.header.hasFileData then return dest
  let offset ← orInvalidOffset (alignUp? dest found.header.alignment)
  modify fun layout => layout.move index found offset
  -- The section stays moved even if there is no room for what comes after it.
  let stop ← orInvalidOffset (advance? offset found.source.length)
  orInvalidOffset (alignUp? stop found.header.alignment)

/-- Copies a section to where it was, if it starts in the fixed part, and returns the later of `stop`
and its end. -/
def keepSection (stop : UInt32) (index : Nat) : Placing UInt32 := do
  let found ← getSection index
  let fixedStop := (← get).container.fixedStop
  if found.placed || !found.header.hasFileData || fixedStop ≤ found.header.offset then return stop
  modify fun layout => layout.keep index found
  let sectionStop ← orInvalidOffset (word32? found.source.stop)
  return max stop sectionStop

/-- Copies the fixed part as it is and every section that starts in it to where it was, and returns
the first offset past all of them. -/
def copyFixed : Placing UInt32 := do
  let container := (← get).container
  modify fun layout => layout.writeAt 0 (container.data.take container.fixedStop.toNat)
  (List.range container.sections.length).foldlM keepSection container.fixedStop

/-- Copies every section that has no place yet, in the order of the table, from `start` on, and
returns the end. -/
def copySections (start : UInt32) : Placing UInt32 := do
  let count := (← get).container.sections.length
  (List.range count).foldlM copySection start

/-- Records the size of a section whose contents were generated. -/
def setSize (index : Nat) (size : UInt32) : Placing Unit := do
  let found ← getSection index
  modify fun layout => layout.setSection index { found with header := { found.header with size } }

/-- Records that a section's contents were written at `offset`. -/
def markPlaced (index : Nat) (offset : UInt32) : Placing Unit := do
  let found ← getSection index
  modify fun layout => layout.setSection index
    { found with header := { found.header with offset }, placed := true }

/-- Writes the table of segments where it was. -/
def writeSegments : Placing Unit := modify fun layout =>
  let header := layout.container.header
  layout.writeAt header.segmentOffset.toNat
    (Span.slice ⟨header.segmentOffset.toNat, header.segmentsStop⟩ layout.container.data)

/-- Writes the table of sections at the first multiple of 4 at or after `offset`, points the header
at it, and ends the image after it. Returns the length of the image. Without sections the header
points nowhere and the image ends at `offset`. -/
def writeSectionHeaders (offset : UInt32) : Placing UInt32 := do
  let sections := (← get).container.sections
  if sections.isEmpty then
    finish 0 offset
    return offset
  let start ← orInvalidOffset (alignUp? offset 4)
  modify fun layout => layout.writeAt start.toNat (sections.flatMap fun s => s.header.bytes)
  let stop ← orInvalidOffset (advance? start (sections.length * Part.section.size))
  finish start stop
  return stop
where
  /-- Points the header at a table of sections and ends the image. -/
  finish (table stop : UInt32) : Placing Unit := modify fun layout =>
    { layout with
      image := (layout.image.writeWord32 sectionOffsetField table).setLength stop.toNat }

end Placing

end DwarfLines.Elf
