import DwarfLines.DebugError
import DwarfLines.Line.FileEntry
import DwarfLines.Line.Params
import DwarfLines.Span
import DwarfLines.UnitFormat

/-!
# Unit headers

The header of a line program gives its length, version and parameters, then a table of operand
counts, a table of directories and a table of files. The program may start later than the tables
end. A header of version 4 has one byte more than those before it, which must be 1; its lengths are
given here without that byte, so that a unit of any version looks like one of version 3.
-/

namespace DwarfLines

/-- The part of a header that stands before its tables. -/
structure Preamble where
  version : UInt16
  /-- The length of the unit after its length field, as in version 3. -/
  unitLength : UInt32
  /-- The length of the header after its length field, as in version 3. -/
  headerLength : UInt32
  params : Params
  /-- Where the tables start. -/
  tablesStart : Nat
  program : Span
  deriving DecidableEq, Repr

namespace Preamble

/-- Reads the parameters of a header of the given version. -/
def readParams (version : UInt16) (bytes : Bytes) : Except DebugError (Params × Bytes) := do
  let (minimumInstructionLength, bytes) ← orTruncated (Decoder.byte bytes)
  let bytes ← if version = 4 then
      let (operations, bytes) ← orTruncated (Decoder.byte bytes)
      if operations ≠ 1 then throw (.invalidHeader .operationsPerInstruction)
      pure bytes
    else pure bytes
  let fields : Decoder Params := do
    let defaultIsStatement := (← Decoder.byte) != 0
    let lineBase := (← Decoder.byte).toInt8
    let lineRange ← Decoder.byte
    let opcodeBase ← Decoder.byte
    return { minimumInstructionLength, defaultIsStatement, lineBase, lineRange, opcodeBase }
  orTruncated (fields bytes)

/-- Reads a preamble and returns the bytes of the unit after it. -/
def read (data : Bytes) : Except DebugError (Preamble × Bytes) := do
  let (unitLength, data) ← orTruncated (Decoder.word32 data)
  if wideFormatLength ≤ unitLength then throw .wideFormat
  let (body, _) ← orTruncated (Decoder.take unitLength.toNat data)
  let (version, body) ← orTruncated (Decoder.word16 body)
  unless supportedVersion version do throw (.unsupportedVersion version)
  let (headerLength, body) ← orTruncated (Decoder.word32 body)
  if body.length < headerLength.toNat then throw .truncated
  let (params, tables) ← readParams version body
  -- The byte that only version 4 has is not counted in the lengths.
  let extra : UInt32 := if version = 4 then 1 else 0
  if headerLength < extra then throw .truncated
  if params.minimumInstructionLength = 0 then throw (.invalidHeader .zeroInstructionLength)
  if params.lineRange = 0 then throw (.invalidHeader .zeroLineRange)
  let stop := 4 + unitLength.toNat
  return ({
    version, params
    unitLength := unitLength - extra
    headerLength := headerLength - extra
    tablesStart := stop - tables.length
    program := ⟨10 + headerLength.toNat, stop⟩ }, tables)

end Preamble

/-- The tables of a header. -/
structure Tables where
  /-- The operand count of each standard opcode, from opcode 1 on. -/
  operandCounts : Bytes
  directories : List String
  files : List FileEntry
  deriving DecidableEq, Repr

namespace Tables

/-- Reads the operand counts of the standard opcodes. -/
def decodeOperandCounts (opcodeBase : UInt8) : Decoder Bytes :=
  Decoder.take (opcodeBase.toNat - 1)

/-- Reads a table of directories. -/
def decodeDirectories : Decoder (List String) :=
  Decoder.table decodeDirectory decodeDirectory_shortens

/-- Reads the tables of a header. -/
def decode (opcodeBase : UInt8) : Decoder Tables := do
  let operandCounts ← decodeOperandCounts opcodeBase
  let directories ← decodeDirectories
  let files ← Decoder.table FileEntry.decodeItem FileEntry.decodeItem_shortens
  return { operandCounts, directories, files }

/-- The files that `decode` comes to, whether or not the table of files ends, and the directories
before them. -/
def filesRead (opcodeBase : UInt8) (bytes : Bytes) : List String × List FileEntry :=
  let directories : Decoder (List String) := do
    let _ ← decodeOperandCounts opcodeBase
    decodeDirectories
  match directories bytes with
  | none => ([], [])
  | some (names, bytes) =>
    (names, (Decoder.items FileEntry.decodeItem FileEntry.decodeItem_shortens bytes).1)

end Tables

/-- The header of a line program. -/
structure UnitHeader where
  version : UInt16
  /-- The length of the unit after its length field, as in version 3. -/
  unitLength : UInt32
  /-- The length of the header after its length field, as in version 3. -/
  headerLength : UInt32
  params : Params
  /-- The operand count of each standard opcode, from opcode 1 on. -/
  operandCounts : Bytes
  directories : List String
  files : List FileEntry
  /-- The bytes of all three tables. -/
  tables : Span
  /-- The bytes of the program. -/
  program : Span
  deriving DecidableEq, Repr

namespace UnitHeader

/-- Reads the header at the front of `data`, which may go on after the unit. -/
def read (data : Bytes) : Except DebugError UnitHeader := do
  let (preamble, bytes) ← Preamble.read data
  let (tables, rest) ← orTruncated (Tables.decode preamble.params.opcodeBase bytes)
  let tablesStop := preamble.program.stop - rest.length
  if preamble.program.start < tablesStop then throw (.invalidHeader .tablesOverrun)
  return {
    version := preamble.version
    unitLength := preamble.unitLength
    headerLength := preamble.headerLength
    params := preamble.params
    operandCounts := tables.operandCounts
    directories := tables.directories
    files := tables.files
    tables := ⟨preamble.tablesStart, tablesStop⟩
    program := preamble.program }

/-- The version that a program is written back with: version 4 becomes 3. -/
def outputVersion (header : UnitHeader) : UInt16 := min header.version 3

end UnitHeader

end DwarfLines
