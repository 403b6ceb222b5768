import DwarfLines.Bytes

/-!
# Program parameters

The header of a unit fixes the arithmetic of its program: how address advances scale, and which
address and line advance each special opcode stands for.
-/

namespace DwarfLines

/-- The numbers in a header that the program's opcodes depend on. -/
structure Params where
  /-- Address advances are multiples of this many bytes. -/
  minimumInstructionLength : UInt8
  /-- The statement flag at the start of a sequence. -/
  defaultIsStatement : Bool
  /-- The least line advance of a special opcode. -/
  lineBase : Int8
  /-- The number of line advances that special opcodes offer. -/
  lineRange : UInt8
  /-- The first special opcode. -/
  opcodeBase : UInt8
  deriving DecidableEq, Repr

namespace Params

/-- The address advance of the opcode that adds a constant, in instruction lengths: that of special
opcode 255. -/
def constAddUnits (p : Params) : Nat := (255 - p.opcodeBase.toNat) / p.lineRange.toNat

/-- The same advance in bytes. -/
def constAddDelta (p : Params) : Nat := p.constAddUnits * p.minimumInstructionLength.toNat

/-- The parameters as a header of version 2 or 3 stores them. -/
def bytes (p : Params) : Bytes :=
  [p.minimumInstructionLength, if p.defaultIsStatement then 1 else 0, p.lineBase.toUInt8,
    p.lineRange, p.opcodeBase]

end Params

end DwarfLines
