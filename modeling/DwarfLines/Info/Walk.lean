import DwarfLines.Info.CompileUnit

/-!
# The walk over compile units

The units of a section follow each other without gaps. The walk reads the root entry of each in turn
and stops for good at the first unit it cannot read, so it yields the units before that one and the
reason why it stopped.
-/

namespace DwarfLines

/-- A compile unit as the walk meets it. -/
structure UnitVisit where
  /-- The offset of the unit in its section. -/
  offset : Nat
  header : CompileUnitHeader
  root : RootEntry
  deriving DecidableEq, Repr

namespace UnitVisit

/-- Reads the unit at the front of `bytes`, which stand at `offset` in their section. The header is
read first; the root entry has to lie within the length that the header gives. -/
def read (abbreviations : Bytes) (offset : Nat) (bytes : Bytes) : Except DebugError UnitVisit := do
  let header ← CompileUnitHeader.read.value ⟨offset, bytes⟩
  let body ← orTruncated (Cursor.bounded? ⟨offset, bytes⟩ header.totalSize)
  let rootEntry : Reading RootEntry := do
    let _ ← Cursor.read (Decoder.take CompileUnitHeader.size)
    RootEntry.read abbreviations header
  return { offset, header, root := ← rootEntry.value body }

/-- The reference to a line program that a unit holds. -/
def statementList? (visit : UnitVisit) : Option StatementList :=
  match visit.root with
  | .statementList valueOffset lineOffset => some ⟨visit.offset, valueOffset, lineOffset⟩
  | .absent | .withoutStatementList => none

end UnitVisit

/-- The units that can be read from `bytes`, which stand at `offset`, and why the walk stopped if it
did not reach the end. -/
def walkFrom (abbreviations : Bytes) (offset : Nat) (bytes : Bytes) :
    List UnitVisit × Option DebugError :=
  if bytes.isEmpty then ([], none)
  else
    match UnitVisit.read abbreviations offset bytes with
    | .error e => ([], some e)
    | .ok visit =>
      let (visits, stopped) := walkFrom abbreviations (offset + visit.header.totalSize)
        (bytes.drop visit.header.totalSize)
      (visit :: visits, stopped)
termination_by bytes.length
decreasing_by
  have : bytes ≠ [] := by simpa using ‹¬bytes.isEmpty = true›
  have := List.length_pos_iff.mpr this
  simp only [List.length_drop, CompileUnitHeader.totalSize]
  omega

/-- The units of a whole section. -/
def walk (info abbreviations : Bytes) : List UnitVisit × Option DebugError :=
  walkFrom abbreviations 0 info

/-- The references to line programs in a section, in the order of their units. -/
def statementLists (info abbreviations : Bytes) : List StatementList × Option DebugError :=
  let (visits, stopped) := walk info abbreviations
  (visits.filterMap UnitVisit.statementList?, stopped)

end DwarfLines
