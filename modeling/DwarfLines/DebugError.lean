import DwarfLines.Text.Columns

/-!
# Errors of debugging information

Everything that can be wrong with a line program, an abbreviation table or a compile unit, and the
text of each.
-/

namespace DwarfLines

/-- What a header or a root entry says that cannot be worked with. -/
inductive HeaderFault where
  /-- A version 4 unit for a machine that issues several operations per instruction. -/
  | operationsPerInstruction
  | zeroInstructionLength
  | zeroLineRange
  /-- The file table ends after the place where the header says the program starts. -/
  | tablesOverrun
  /-- The root entry of a compile unit names an abbreviation that its table does not declare. -/
  | unknownAbbreviation
  /-- The reference to a line program is not stored as a four-byte offset. -/
  | statementListForm
  /-- Parameters that no program can be written for. -/
  | zeroParameter
  /-- Parameters that leave no room for the standard opcodes a written program uses. -/
  | opcodeBaseTooSmall
  | tablesTooLarge
  | unitTooLarge
  deriving DecidableEq, Repr

/-- The text of a header fault. -/
def HeaderFault.message : HeaderFault → String
  | operationsPerInstruction => "maximum_operations_per_instruction must be 1"
  | zeroInstructionLength => "minimum_instruction_length is zero"
  | zeroLineRange => "line_range is zero"
  | tablesOverrun => "file table overruns header_length"
  | unknownAbbreviation => "unknown abbreviation code"
  | statementListForm => "DW_AT_stmt_list is not a 4-byte offset"
  | zeroParameter => "zero instruction length or line range"
  | opcodeBaseTooSmall => "opcode_base too small"
  | tablesTooLarge => "tables too large"
  | unitTooLarge => "unit too large"

/-- Why debugging information cannot be read or written. -/
inductive DebugError where
  /-- The bytes end too early, or a number in them does not fit 64 bits. -/
  | truncated
  | unsupportedVersion (version : UInt16)
  | invalidHeader (fault : HeaderFault)
  /-- An attribute whose size is not known, so that the attributes after it cannot be found. -/
  | unknownForm (code : Nat)
  /-- The last row to be written does not end a sequence. -/
  | malformedSequence
  /-- A unit of the 64-bit format. -/
  | wideFormat
  /-- A reference to a line program that lies outside its section. -/
  | lineOffsetOutOfBounds (offset : UInt32)
  deriving DecidableEq, Repr

/-- The text of an error. -/
def DebugError.message : DebugError → String
  | truncated => "DWARF data truncated"
  | unsupportedVersion version => s!"unsupported DWARF version {version}"
  | invalidHeader fault => "invalid line program header: " ++ fault.message
  | unknownForm code => "unknown DWARF attribute form " ++ Text.hex code
  | malformedSequence => "line sequence does not end with DW_LNE_end_sequence"
  | wideFormat => "64-bit DWARF is not supported"
  | lineOffsetOutOfBounds offset =>
    "DW_AT_stmt_list offset " ++ Text.hex offset.toNat ++ " lies outside .debug_line"

/-- The value, or the error that the bytes ended too early. -/
def orTruncated {α : Type} : Option α → Except DebugError α
  | some a => .ok a
  | none => .error .truncated

end DwarfLines
