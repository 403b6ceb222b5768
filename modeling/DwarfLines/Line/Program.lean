import DwarfLines.Line.Execution
import DwarfLines.Line.UnitHeader

/-!
# Line programs

Decoding a unit reads its header, runs its program, and collects the rows. The files that the
program itself defines are added to those of the header, and their stored form to the tables, so
that the program can be written back without its definitions.
-/

namespace DwarfLines

/-- A decoded unit. -/
structure Program where
  header : UnitHeader
  /-- The rows in the order in which the program commits them. -/
  rows : List Row
  /-- The files of the header, then those that the program defines. -/
  files : List FileEntry
  /-- The tables of the header as bytes, the file table with the program's own files added. -/
  tables : Bytes
  deriving DecidableEq, Repr

namespace UnitHeader

/-- What the meaning of the unit's opcodes depends on. -/
def instructionSet (header : UnitHeader) : InstructionSet :=
  { opcodeBase := header.params.opcodeBase, operandCounts := header.operandCounts }

/-- The instructions of the unit's program up to the first that runs past the end, and whether there
is none such. The program is taken from `data`, which has to hold all of it. -/
def instructions? (header : UnitHeader) (data : Bytes) : Option (List Instruction × Bool) :=
  (header.program.slice? data).map (Instruction.scan header.instructionSet)

/-- The rows that the unit's program commits before it ends or runs past the end, and whether it
ends. -/
def rows? (header : UnitHeader) (data : Bytes) : Option (List Row × Bool) :=
  (header.instructions? data).map fun (instructions, complete) =>
    (Instruction.run header.params (.initial header.params.defaultIsStatement) instructions,
      complete)

end UnitHeader

/-- Adds entries in their stored form to tables, in front of the byte that ends the file table. -/
def extendTables (tables added : Bytes) : Bytes :=
  if added.isEmpty then tables else tables.dropLast ++ added ++ [0]

namespace Program

/-- Decodes the unit at the front of `data`, which may go on after the unit. -/
def decode (data : Bytes) : Except DebugError Program := do
  let header ← UnitHeader.read data
  let (instructions, complete) ← orTruncated (header.instructions? data)
  unless complete do throw .truncated
  let definitions := instructions.filterMap Instruction.definition?
  return {
    header
    rows := Instruction.run header.params (.initial header.params.defaultIsStatement) instructions
    files := header.files ++ definitions.map (·.2)
    tables := extendTables (header.tables.slice data) (definitions.flatMap (·.1)) }

/-- The file with a given number, counted from 1. -/
def file? (program : Program) (number : Nat) : Option FileEntry := numbered? program.files number

end Program

end DwarfLines
