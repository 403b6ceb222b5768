import DwarfLines.DebugFile
import DwarfLines.Elf.Layout
import DwarfLines.Info.Events
import DwarfLines.Line.Assembly
import DwarfLines.Line.Events
import DwarfLines.Line.Reduction
import DwarfLines.Line.Section

/-!
# Shrinking the line section of a file

The output holds, in this order: the fixed part of the file as it is, the compile units, the line
programs that compile units refer to, each once and without redundant rows, the other sections in
the order of the table, and the table of sections. Each compile unit's reference to its line program
is changed to where the program went.
-/

namespace DwarfLines

namespace Elf

/-- What placing one section tells, seen from its state before and after. -/
def Section.placingEvents (index : Nat) (before after : Section) : List Event :=
  if before.placed || !after.placed then []
  else
    match advance? after.header.offset after.source.length with
    | some stop => [.copiedSection index after.name after.header.offset stop]
    | none => []

/-- What placing sections tells, in the order of the table. -/
def Layout.placingEvents (before after : Layout) : List Event :=
  (List.zip before.container.sections after.container.sections).zipIdx.flatMap
    fun ((old, new), index) => Section.placingEvents index old new

/-- Takes a step of laying out a file, and tells what `events` says of the layouts before and after
it. -/
def Placing.traced {α : Type} (events : Layout → Layout → List Event) (step : Placing α)
    (layout : Layout) : Traced (α × Layout) :=
  match step layout with
  | .ok a after => ⟨events layout after, .ok (a, after)⟩
  | .error e after => ⟨events layout after, .error (.ofCause (.elf e))⟩

/-- Takes a step of laying out a file that tells nothing. -/
def Placing.silent {α : Type} (step : Placing α) (layout : Layout) : Traced (α × Layout) :=
  step.traced (fun _ _ => []) layout

end Elf

/-- A line program without its redundant rows. -/
structure ShrunkProgram where
  /-- The unit that was read. -/
  unit : Bytes
  program : Program
  /-- The rows that are left. -/
  rows : List Row
  /-- The unit that is written. -/
  bytes : Bytes
  deriving DecidableEq, Repr

/-- Reads the line program that the unit at `unitOffset` refers to and writes it without its
redundant rows. -/
def shrinkProgram (line : Bytes) (unitOffset : Nat) (lineOffset : UInt32) : Traced ShrunkProgram := do
  let unit ← (Traced.ofDebug (unitAt line lineOffset)).during (.findingProgram unitOffset)
  Traced.tell (decodingEvents unit)
  let program ← (Traced.ofDebug (Program.decode unit)).during (.decodingProgram lineOffset.toNat)
  let rows := reduce program.rows
  let bytes ← (Traced.ofDebug (program.encode rows)).during (.encodingProgram lineOffset.toNat)
  return { unit, program, rows, bytes }

/-- A line section in the making. -/
structure LineOutput where
  layout : Elf.Layout
  /-- Where the line section ends so far. -/
  stop : UInt32
  /-- Where programs went: offsets in the old section, and in the new one. -/
  moved : List (UInt32 × UInt32)
  units : Nat
  rowsDecoded : Nat
  rowsKept : Nat
  deriving DecidableEq, Repr

namespace LineOutput

/-- A line section without programs. -/
def start (layout : Elf.Layout) (stop : UInt32) : LineOutput :=
  { layout, stop, moved := [], units := 0, rowsDecoded := 0, rowsKept := 0 }

/-- Where the fixed places are that writing a line section needs. -/
structure Places where
  /-- The line section that is read. -/
  line : Bytes
  /-- Where the compile units are in the output. -/
  info : UInt32
  /-- Where the line section starts in the output. -/
  start : UInt32
  deriving DecidableEq, Repr

/-- Adds a program at the end of the section, and returns its offset in the section. -/
def add (places : Places) (output : LineOutput) (lineOffset : UInt32) (shrunk : ShrunkProgram) :
    Traced (UInt32 × LineOutput) := do
  let relative := output.stop - places.start
  let stop ← Traced.orFail .offsetOverflow (Elf.advance? output.stop shrunk.bytes.length)
  Traced.tell [.wroteProgram lineOffset relative shrunk.program.rows.length shrunk.rows.length
    shrunk.unit.length shrunk.bytes.length]
  return (relative, {
    layout := output.layout.writeAt output.stop.toNat shrunk.bytes
    stop
    moved := (lineOffset, relative) :: output.moved
    units := output.units + 1
    rowsDecoded := output.rowsDecoded + shrunk.program.rows.length
    rowsKept := output.rowsKept + shrunk.rows.length })

/-- Serves a compile unit: its program is added unless it is there already, and its reference is
changed. -/
def serve (places : Places) (output : LineOutput) (visit : UnitVisit) : Traced LineOutput :=
  match visit.root with
  | .absent | .withoutStatementList => do
    Traced.tell visit.events
    return output
  | .statementList valueOffset lineOffset => do
    let (relative, output) ← match output.moved.lookup lineOffset with
      | some relative => do
        Traced.tell [.sharedProgram lineOffset visit.offset]
        pure (relative, output)
      | none => do
        let shrunk ← shrinkProgram places.line visit.offset lineOffset
        output.add places lineOffset shrunk
    let place := places.info.toNat + valueOffset
    return { output with layout := output.layout.writeAt place (bytesOfWord32 relative) }

/-- Serves the compile units that a walk yields, and fails if the walk stopped early. -/
def serveAll (places : Places) (output : LineOutput) :
    List UnitVisit × Option DebugError → Traced LineOutput
  | (visits, stopped) => do
    let output ← visits.foldlM (serve places) output
    match stopped with
    | some e => (Traced.fail (.debug e)).during .walkingUnits
    | none => return output

end LineOutput

/-- Shrinks the line section of a file. -/
def shrink (data : Bytes) : Traced (Bytes × Stats) := do
  let file ← DebugFile.ofBytes data
  let { container, sections, .. } := file
  if sections.line.offset < container.fixedStop then Traced.fail .loadedLineSection
  let (offset, layout) ← Elf.Placing.copyFixed.silent (.start container)
  Traced.tell [.copiedFixed container.fixedStop offset]
  -- Compile units go first, so that their references can be changed where they went.
  let (offset, layout) ← (Elf.Placing.copySection offset sections.info.index).traced
    Elf.Layout.placingEvents layout
  let placedInfo ← Traced.ofElf (layout.container.section? sections.info.index)
  -- The line section follows. Its size shows only when it is complete, so nothing else is placed
  -- before.
  let start ← Traced.orFail .offsetOverflow (Elf.alignUp? offset sections.line.alignment)
  let ((), layout) ← (Elf.Placing.markPlaced sections.line.index start).silent layout
  let places : LineOutput.Places := { line := file.line, info := placedInfo.header.offset, start }
  let output ← (LineOutput.start layout start).serveAll places (walk file.info file.abbreviations)
  let size := output.stop - start
  let ((), layout) ← (Elf.Placing.setSize sections.line.index size).silent output.layout
  let (stop, layout) ← (Elf.Placing.copySections output.stop).traced
    Elf.Layout.placingEvents layout
  let ((), layout) ← Elf.Placing.writeSegments.silent layout
  let (fileSize, layout) ← (Elf.Placing.writeSectionHeaders stop).silent layout
  let tableSize := container.sections.length * Elf.Part.section.size
  Traced.tell [.wroteSectionTable (fileSize - UInt32.ofNat tableSize) fileSize]
  return (layout.image.bytes, {
    units := output.units
    rowsDecoded := output.rowsDecoded
    rowsKept := output.rowsKept
    oldLineSize := sections.line.size
    newLineSize := size
    fileSize })

end DwarfLines
