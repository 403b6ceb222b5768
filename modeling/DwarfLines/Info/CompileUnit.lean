import DwarfLines.Cursor
import DwarfLines.Info.Abbreviation
import DwarfLines.UnitFormat

/-!
# Compile units

A compile unit starts with a header and a root entry. Of its root entry only the reference to a line
program matters: the attributes before it are passed over by their forms, those after it are not
read.
-/

namespace DwarfLines

/-- The header of a compile unit. -/
structure CompileUnitHeader where
  /-- The length of the unit after this field. -/
  unitLength : UInt32
  version : UInt16
  /-- Where the unit's abbreviation table starts. -/
  abbreviationOffset : UInt32
  /-- The size of a target address. -/
  addressSize : UInt8
  deriving DecidableEq, Repr

namespace CompileUnitHeader

/-- The number of bytes in a header. -/
def size : Nat := 11

/-- Reads a header field by field, refusing a length or version as soon as it is read. -/
def read : Reading CompileUnitHeader := do
  let unitLength ← Cursor.read Decoder.word32
  if wideFormatLength ≤ unitLength then throw .wideFormat
  let version ← Cursor.read Decoder.word16
  unless supportedVersion version do throw (.unsupportedVersion version)
  let abbreviationOffset ← Cursor.read Decoder.word32
  let addressSize ← Cursor.read Decoder.byte
  return { unitLength, version, abbreviationOffset, addressSize }

/-- The length of the unit with its length field. -/
def totalSize (header : CompileUnitHeader) : Nat := 4 + header.unitLength.toNat

/-- What the sizes of values in the unit depend on. -/
def layout (header : CompileUnitHeader) : Form.Layout := ⟨header.version, header.addressSize⟩

end CompileUnitHeader

/-- The name of the attribute that refers to a line program. -/
def statementListName : Nat := 0x10

/-- Where a unit's reference to a line program is stored, and what it says. -/
structure StatementList where
  /-- The offset of the unit in its section. -/
  unitOffset : Nat
  /-- The offset of the stored reference in its section. -/
  valueOffset : Nat
  /-- The offset of the line program in its own section. -/
  lineOffset : UInt32
  deriving DecidableEq, Repr

/-- What the root entry of a unit has to say about line programs. -/
inductive RootEntry where
  /-- There is no root entry. -/
  | absent
  /-- The root entry has no reference to a line program. -/
  | withoutStatementList
  | statementList (valueOffset : Nat) (lineOffset : UInt32)
  deriving DecidableEq, Repr

/-- Passes over the value of an attribute. -/
def skipValue (layout : Form.Layout) (form : Form) : Reading Unit := do
  match ← Cursor.read form.resolve with
  | .unknown code => throw (.unknownForm code)
  | form => Cursor.read (form.value layout)

/-- Finds the first reference to a line program among attributes. -/
def RootEntry.ofAttributes (layout : Form.Layout) : List AttributeSpec → Reading RootEntry
  | [] => return .withoutStatementList
  | spec :: specs =>
    if spec.name = statementListName then do
      let form ← Cursor.read spec.form.resolve
      unless form = .data4 ∨ form = .secOffset do throw (.invalidHeader .statementListForm)
      let valueOffset := (← get).position
      return .statementList valueOffset (← Cursor.read Decoder.word32)
    else do
      skipValue layout spec.form
      ofAttributes layout specs

/-- Reads a root entry. -/
def RootEntry.read (abbreviations : Bytes) (header : CompileUnitHeader) : Reading RootEntry := do
  let code ← Cursor.read Leb128.unsigned
  if code = 0 then return .absent
  match AbbreviationTable.read? abbreviations header.abbreviationOffset.toNat with
  | none => throw .truncated
  | some table =>
    match table.get? code with
    | none => throw (.invalidHeader .unknownAbbreviation)
    | some abbreviation => ofAttributes header.layout abbreviation.attributes

end DwarfLines
