import DwarfLines.Line.Instruction
import DwarfLines.Line.Params
import DwarfLines.Line.Row

/-!
# Running a program

The machine keeps one row of registers. Instructions change registers, and some commit the registers
as a row of the line table. Registers are 32 bits wide and wrap.
-/

namespace DwarfLines.Row

/-- Advances the address by a number of instruction lengths. -/
def advance (p : Params) (units : Nat) (row : Row) : Row :=
  { row with address := row.address + UInt32.ofNat (units * p.minimumInstructionLength.toNat) }

/-- Advances the line. -/
def advanceLine (delta : Int) (row : Row) : Row :=
  { row with line := row.line + Int32.ofInt delta }

end DwarfLines.Row

namespace DwarfLines.Params

/-- The address advance that a special opcode stands for, in instruction lengths. -/
def specialUnits (p : Params) (opcode : UInt8) : Nat :=
  (opcode.toNat - p.opcodeBase.toNat) / p.lineRange.toNat

/-- The line advance that a special opcode stands for. -/
def specialLines (p : Params) (opcode : UInt8) : Int :=
  ((opcode.toNat - p.opcodeBase.toNat) % p.lineRange.toNat : Nat) + p.lineBase.toInt

end DwarfLines.Params

namespace DwarfLines.Instruction

/-- The registers after an instruction, and the row that it commits. -/
def execute (p : Params) (registers : Row) : Instruction → Row × Option Row
  | special opcode =>
    let row := (registers.advance p (p.specialUnits opcode)).advanceLine (p.specialLines opcode)
    (row, some row)
  | copy => (registers, some registers)
  | advanceAddress units => (registers.advance p units, none)
  | advanceLine delta => (registers.advanceLine delta, none)
  | setFile file => ({ registers with file := UInt32.ofNat file }, none)
  | setColumn column => ({ registers with column := UInt32.ofNat column }, none)
  | negateStatement => ({ registers with isStatement := !registers.isStatement }, none)
  | constAddAddress => (registers.advance p p.constAddUnits, none)
  | fixedAdvanceAddress delta =>
    ({ registers with address := registers.address + delta.toUInt32 }, none)
  | extended .endSequence =>
    (Row.initial p.defaultIsStatement, some { registers with endSequence := true })
  | extended (.setAddress address) => ({ registers with address }, none)
  | extended (.setDiscriminator discriminator) =>
    ({ registers with discriminator := UInt32.ofNat discriminator }, none)
  | other _ _ | extended .empty | extended (.defineFile _ _) | extended .defineNoFile
  | extended (.unknown _ _) => (registers, none)

/-- The rows that a run of instructions commits. -/
def run (p : Params) (registers : Row) : List Instruction → List Row
  | [] => []
  | instruction :: instructions =>
    let (registers, committed) := instruction.execute p registers
    committed.toList ++ run p registers instructions

/-- The file entry that an instruction defines, with the bytes it is stored in. -/
def definition? : Instruction → Option (Bytes × FileEntry)
  | extended (.defineFile stored entry) => some (stored, entry)
  | _ => none

end DwarfLines.Instruction
