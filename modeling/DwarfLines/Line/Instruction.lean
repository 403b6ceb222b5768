import DwarfLines.Line.FileEntry

/-!
# Instructions

A program is a run of instructions. The opcodes from the opcode base on are special; opcode 0
introduces an extended instruction, which carries its own length; the opcodes between are standard,
and those without a meaning here are passed over by their operand counts.

`Instruction.decode` reads one instruction, `Instruction.scan` a whole program, and
`Instruction.encode` writes the shortest form of an instruction.
-/

namespace DwarfLines

/-- What the meaning of an opcode depends on. -/
structure InstructionSet where
  /-- The first special opcode. -/
  opcodeBase : UInt8
  /-- The operand count of each standard opcode, from opcode 1 on. -/
  operandCounts : Bytes
  deriving DecidableEq, Repr

/-- An instruction behind the extended opcode. Bytes that its operands leave unused are not part of
it. -/
inductive Extended where
  /-- An instruction of length 0. -/
  | empty
  | endSequence
  | setAddress (address : UInt32)
  /-- Adds an entry to the file table, given with the bytes it is stored in. -/
  | defineFile (stored : Bytes) (entry : FileEntry)
  /-- A definition with an empty name, which adds nothing. -/
  | defineNoFile
  | setDiscriminator (discriminator : Nat)
  /-- An instruction to be passed over. -/
  | unknown (opcode : UInt8) (operands : Bytes)
  deriving DecidableEq, Repr

/-- An instruction of a line program. -/
inductive Instruction where
  /-- Advances address and line at once and commits a row. -/
  | special (opcode : UInt8)
  /-- Commits a row. -/
  | copy
  | advanceAddress (units : Nat)
  | advanceLine (delta : Int)
  | setFile (file : Nat)
  | setColumn (column : Nat)
  | negateStatement
  /-- Advances the address as special opcode 255 does. -/
  | constAddAddress
  /-- Advances the address by bytes, whatever the instruction length. -/
  | fixedAdvanceAddress (delta : UInt16)
  /-- A standard opcode to be passed over. -/
  | other (opcode : UInt8) (operands : List Nat)
  | extended (instruction : Extended)
  deriving DecidableEq, Repr

namespace Extended

/-- Reads the body of an extended instruction, of which there is at least the opcode. -/
def decodeBody : Bytes → Option Extended
  | [] => none
  | opcode :: operands =>
    match opcode.toNat with
    | 1 => some endSequence
    | 2 => (Decoder.word32 operands).map fun (address, _) => setAddress address
    | 3 => (FileEntry.decodeItem operands).map fun
      | (none, _) => defineNoFile
      | (some entry, rest) => defineFile (operands.take (operands.length - rest.length)) entry
    | 4 => (Leb128.unsigned operands).map fun (discriminator, _) => setDiscriminator discriminator
    | _ => some (unknown opcode operands)

/-- Reads the length and the body of an extended instruction. -/
def decode : Decoder Extended := do
  let length ← Leb128.unsigned
  if length = 0 then return empty
  let body ← Decoder.take length
  decodeBody body

/-- The body of an extended instruction in its shortest form. -/
def body : Extended → Bytes
  | empty => []
  | endSequence => [1]
  | setAddress address => 2 :: bytesOfWord32 address
  | defineFile stored _ => 3 :: stored
  | defineNoFile => [3, 0]
  | setDiscriminator discriminator => 4 :: Leb128.encodeUnsigned discriminator
  | unknown opcode operands => opcode :: operands

/-- Writes the length and the body of an extended instruction. -/
def encode (instruction : Extended) : Bytes :=
  Leb128.encodeUnsigned instruction.body.length ++ instruction.body

end Extended

namespace Instruction

/-- Reads the operands of a standard opcode. -/
def decodeStandard (operandCounts : Bytes) (opcode : UInt8) : Decoder Instruction := fun bytes =>
  match opcode.toNat with
  | 1 => some (copy, bytes)
  | 2 => (advanceAddress <$> Leb128.unsigned) bytes
  | 3 => (advanceLine <$> Leb128.signed) bytes
  | 4 => (setFile <$> Leb128.unsigned) bytes
  | 5 => (setColumn <$> Leb128.unsigned) bytes
  | 6 => some (negateStatement, bytes)
  | 8 => some (constAddAddress, bytes)
  | 9 => (fixedAdvanceAddress <$> Decoder.word16) bytes
  | number =>
    let count := (numbered? operandCounts number).getD 0
    (other opcode <$> Leb128.unsigned.times count.toNat) bytes

/-- Reads what follows an opcode. -/
def decodeAfter (set : InstructionSet) (opcode : UInt8) : Decoder Instruction :=
  if set.opcodeBase ≤ opcode then return special opcode
  else if opcode = 0 then return extended (← Extended.decode)
  else decodeStandard set.operandCounts opcode

/-- Reads an instruction. -/
def decode (set : InstructionSet) : Decoder Instruction := do
  decodeAfter set (← Decoder.byte)

/-- Writes an instruction in its shortest form. -/
def encode : Instruction → Bytes
  | special opcode => [opcode]
  | copy => [1]
  | advanceAddress units => 2 :: Leb128.encodeUnsigned units
  | advanceLine delta => 3 :: Leb128.encodeSigned delta
  | setFile file => 4 :: Leb128.encodeUnsigned file
  | setColumn column => 5 :: Leb128.encodeUnsigned column
  | negateStatement => [6]
  | constAddAddress => [8]
  | fixedAdvanceAddress delta => 9 :: bytesOfWord16 delta
  | other opcode operands => opcode :: operands.flatMap Leb128.encodeUnsigned
  | extended instruction => 0 :: instruction.encode

theorem length_le_of_decodeExtended {bytes rest : Bytes} {instruction : Extended}
    (h : Extended.decode bytes = some (instruction, rest)) : rest.length ≤ bytes.length := by
  obtain ⟨length, rest₁, h₁, h⟩ := Decoder.bind_eq_some_iff.mp h
  have := Leb128.length_lt_of_unsigned h₁
  split at h
  · obtain ⟨-, rfl⟩ := Decoder.pure_eq_some_iff.mp h
    omega
  · obtain ⟨body, rest₂, h₂, h⟩ := Decoder.bind_eq_some_iff.mp h
    have := Decoder.length_take_le h₂
    obtain ⟨_, -, h⟩ := Option.bind_eq_some_iff.mp h
    cases h
    omega

theorem length_le_of_decodeStandard {operandCounts : Bytes} {opcode : UInt8} {bytes rest : Bytes}
    {instruction : Instruction}
    (h : decodeStandard operandCounts opcode bytes = some (instruction, rest)) :
    rest.length ≤ bytes.length := by
  unfold decodeStandard at h
  split at h
  case h_1 | h_6 | h_7 => cases h; exact Nat.le_refl _
  case h_2 | h_4 | h_5 =>
    obtain ⟨_, h₁, -⟩ := Decoder.map_eq_some_iff.mp h
    exact Nat.le_of_lt (Leb128.length_lt_of_unsigned h₁)
  case h_3 =>
    obtain ⟨_, h₁, -⟩ := Decoder.map_eq_some_iff.mp h
    exact Nat.le_of_lt (Leb128.length_lt_of_signed h₁)
  case h_8 =>
    obtain ⟨_, h₁, -⟩ := Decoder.map_eq_some_iff.mp h
    obtain ⟨_, _, h₂, h₁⟩ := Decoder.bind_eq_some_iff.mp h₁
    obtain ⟨-, rfl⟩ := Decoder.pure_eq_some_iff.mp h₁
    exact Decoder.length_take_le h₂
  case h_9 =>
    obtain ⟨_, h₁, -⟩ := Decoder.map_eq_some_iff.mp h
    exact Decoder.length_le_of_times (fun _ _ _ => Leb128.length_lt_of_unsigned) h₁

/-- An instruction takes at least its opcode. -/
theorem decode_shortens (set : InstructionSet) : (decode set).Shortens := by
  intro bytes instruction rest h
  obtain ⟨opcode, rest₁, h₁, h⟩ := Decoder.bind_eq_some_iff.mp h
  have := Decoder.length_lt_of_byte h₁
  suffices rest.length ≤ rest₁.length by omega
  unfold decodeAfter at h
  split at h
  · obtain ⟨-, rfl⟩ := Decoder.pure_eq_some_iff.mp h
    exact Nat.le_refl _
  · split at h
    · obtain ⟨_, rest₂, h₂, h⟩ := Decoder.bind_eq_some_iff.mp h
      obtain ⟨-, rfl⟩ := Decoder.pure_eq_some_iff.mp h
      exact length_le_of_decodeExtended h₂
    · exact length_le_of_decodeStandard h

/-- The instructions of a program, and whether all of them could be read. The instructions before
the first that runs past the end are there in any case. -/
def scan (set : InstructionSet) (bytes : Bytes) : List Instruction × Bool :=
  if bytes.isEmpty then ([], true)
  else
    match _h : decode set bytes with
    | none => ([], false)
    | some (instruction, rest) =>
      let (instructions, complete) := scan set rest
      (instruction :: instructions, complete)
termination_by bytes.length
decreasing_by exact decode_shortens set _ _ _ _h

end Instruction

end DwarfLines
