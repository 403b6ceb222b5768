import DwarfLines.Proofs.Line.Program
import DwarfLines.Proofs.Line.Spelling

/-!
# Registers without bounds

The registers of a program are 32 bits wide and wrap at each step. A machine whose registers are
integers without bounds commits the same rows, if it reduces them to 32 bits when it commits them:
wrapping commutes with all that a program does to its registers. So a program, however its
instructions are spelled, decodes to the rows of that machine.
-/

namespace DwarfLines

/-- Registers that do not wrap. -/
structure Unbounded where
  address : Nat
  line : Int
  file : Nat
  column : Nat
  discriminator : Nat
  isStatement : Bool
  deriving DecidableEq, Repr

namespace Unbounded

/-- The registers at the start of a sequence. -/
def initial (isStatement : Bool) : Unbounded :=
  { address := 0, line := 1, file := 1, column := 0, discriminator := 0, isStatement }

/-- The registers as a row: the line becomes the signed number, and the others the unsigned number,
of 32 bits with the same residue. -/
def toRow (registers : Unbounded) (endSequence : Bool) : Row :=
  { address := UInt32.ofNat registers.address
    line := Int32.ofInt registers.line
    file := UInt32.ofNat registers.file
    column := UInt32.ofNat registers.column
    discriminator := UInt32.ofNat registers.discriminator
    isStatement := registers.isStatement
    endSequence }

/-- Advances the address by a number of instruction lengths. -/
def advance (p : Params) (units : Nat) (registers : Unbounded) : Unbounded :=
  { registers with address := registers.address + units * p.minimumInstructionLength.toNat }

/-- The registers after an instruction, and the row that it commits. -/
def execute (p : Params) (registers : Unbounded) : Instruction → Unbounded × Option Row
  | .special opcode =>
    let adjusted := opcode.toNat - p.opcodeBase.toNat
    let line := registers.line + (p.lineBase.toInt + (adjusted % p.lineRange.toNat : Nat))
    let registers := { registers.advance p (adjusted / p.lineRange.toNat) with line }
    (registers, some (registers.toRow false))
  | .copy => (registers, some (registers.toRow false))
  | .advanceAddress units => (registers.advance p units, none)
  | .advanceLine delta => ({ registers with line := registers.line + delta }, none)
  | .setFile file => ({ registers with file }, none)
  | .setColumn column => ({ registers with column }, none)
  | .negateStatement => ({ registers with isStatement := !registers.isStatement }, none)
  | .constAddAddress =>
    (registers.advance p ((255 - p.opcodeBase.toNat) / p.lineRange.toNat), none)
  | .fixedAdvanceAddress delta =>
    ({ registers with address := registers.address + delta.toNat }, none)
  | .extended .endSequence => (initial p.defaultIsStatement, some (registers.toRow true))
  | .extended (.setAddress address) => ({ registers with address := address.toNat }, none)
  | .extended (.setDiscriminator discriminator) => ({ registers with discriminator }, none)
  | .other _ _ | .extended .empty | .extended (.defineFile _ _) | .extended .defineNoFile
  | .extended (.unknown _ _) => (registers, none)

/-- The rows that a run of instructions commits. -/
def run (p : Params) (registers : Unbounded) : List Instruction → List Row
  | [] => []
  | instruction :: instructions =>
    let (registers, committed) := registers.execute p instruction
    committed.toList ++ run p registers instructions

/-! ## Wrapping early or late -/

theorem toRow_advance (p : Params) (units : Nat) (registers : Unbounded) :
    (registers.advance p units).toRow false = (registers.toRow false).advance p units := by
  simp [advance, toRow, Row.advance, UInt32.ofNat_add]

theorem toRow_advanceLine (delta : Int) (registers : Unbounded) :
    { registers with line := registers.line + delta }.toRow false =
      (registers.toRow false).advanceLine delta := by
  simp [toRow, Row.advanceLine, Int32.ofInt_add]

/-- One step of the machine that wraps is one step of the machine that does not. -/
theorem execute_toRow (p : Params) (registers : Unbounded) (instruction : Instruction) :
    instruction.execute p (registers.toRow false) =
      ((registers.execute p instruction).1.toRow false, (registers.execute p instruction).2) := by
  cases instruction with
  | special opcode =>
    -- the program adds the parts of the line advance in the other order
    have hlines : p.specialLines opcode = p.lineBase.toInt +
        ((opcode.toNat - p.opcodeBase.toNat) % p.lineRange.toNat : Nat) := Int.add_comm _ _
    have hrow := toRow_advanceLine (p.specialLines opcode)
      (registers.advance p (p.specialUnits opcode))
    rw [toRow_advance, hlines] at hrow
    simp only [Instruction.execute, hlines, ← hrow]
    rfl
  | advanceAddress units => simp only [Instruction.execute, execute, toRow_advance]
  | advanceLine delta => simp only [Instruction.execute, execute, toRow_advanceLine]
  | constAddAddress =>
    simp only [Instruction.execute, execute, toRow_advance]
    rfl
  | fixedAdvanceAddress delta => simp [Instruction.execute, execute, toRow, UInt32.ofNat_add]
  | extended instruction =>
    cases instruction with
    | setAddress address => simp [Instruction.execute, execute, toRow]
    | empty | endSequence | defineFile | defineNoFile | setDiscriminator | unknown => rfl
  | copy | setFile | setColumn | negateStatement | other => rfl

/-- The machine that wraps commits the rows of the machine that does not. -/
theorem run_toRow (p : Params) (registers : Unbounded) (instructions : List Instruction) :
    Instruction.run p (registers.toRow false) instructions = registers.run p instructions := by
  induction instructions generalizing registers with
  | nil => rfl
  | cons instruction instructions ih =>
    rw [Instruction.run, run, execute_toRow]
    simp only [ih]

end Unbounded

/-- A unit whose header can be read and whose program is made of instructions of its set, in any
encoding, is decoded: to the rows that the program commits on registers without bounds, and to the
files of the header and then those that the program defines. -/
theorem Program.decode_spelled {unit : Bytes} {header : UnitHeader} {spelled : List Bytes}
    {instructions : List Instruction} (hheader : UnitHeader.read unit = .ok header)
    (hprogram : header.program.slice unit = spelled.flatten)
    (hspelled : List.Forall₂ (Instruction.Spells header.instructionSet) spelled instructions) :
    ∃ program, decode unit = .ok program ∧ program.header = header ∧
      program.rows =
        Unbounded.run header.params (.initial header.params.defaultIsStatement) instructions ∧
      program.files =
        header.files ++ (instructions.filterMap Instruction.definition?).map (·.2) := by
  have hslice : header.program.slice? unit = some spelled.flatten := by
    rw [Span.slice?, if_pos (UnitHeader.program_stop_le hheader), hprogram]
  refine ⟨_, decode_eq_ok_iff.mpr ⟨header, spelled.flatten, instructions, hheader, hslice,
    Instruction.scan_of_spells hspelled, rfl⟩, rfl, ?_, rfl⟩
  rw [← Unbounded.run_toRow]
  rfl

/-- What the opcodes of `paddedUnit` mean. -/
def paddedSet : InstructionSet :=
  { opcodeBase := 13, operandCounts := [0, 1, 1, 1, 1, 0, 0, 0, 1, 0, 0, 1] }

/-- Instructions with empty groups in their numbers, numbers over 32 bits, and bytes behind operands.
The address passes `2 ^ 32`. -/
def paddedInstructions : List (Bytes × Instruction) :=
  [([0, 0x87, 0, 2, 0xf0, 0xff, 0xff, 0xff, 9, 9], .extended (.setAddress 0xfffffff0)),
   ([2, 0x85, 0x80, 0], .advanceAddress 5), ([3, 0x7b], .advanceLine (-5)),
   ([4, 0x82, 0x80, 0x80, 0x80, 0x10], .setFile (2 ^ 32 + 2)), ([1], .copy),
   ([12, 0x81, 0], .other 12 [1]), ([0, 0x80, 0], .extended .empty),
   ([0, 7, 3, 97, 0, 0, 0, 0, 5], .extended (.defineFile [97, 0, 0, 0, 0]
     { name := Utf8.decodeLossy [97], directoryIndex := 0, modified := 0, size := 0 })),
   ([0, 3, 0x80, 1, 2], .extended (.unknown 0x80 [1, 2])), ([200], .special 200),
   ([0, 2, 1, 7], .extended .endSequence)]

/-- A unit of version 2 with these instructions. -/
def paddedUnit : Bytes :=
  bytesOfWord32 73 ++ bytesOfWord16 2 ++ bytesOfWord32 19 ++ [4, 0, 253, 12, 13] ++
    paddedSet.operandCounts ++ [0, 0] ++ (paddedInstructions.map Prod.fst).flatten

theorem forall₂_spells_paddedInstructions :
    List.Forall₂ (Instruction.Spells paddedSet) (paddedInstructions.map Prod.fst)
      (paddedInstructions.map Prod.snd) := by
  -- the spellings that are not the shortest are written out below
  refine .cons ?setAddress <| .cons (.advanceAddress (by decide) (by decide)) <|
    .cons (.advanceLine (by decide) (by decide)) <| .cons (.setFile (by decide) (by decide)) <|
    .cons (.copy (by decide)) <| .cons ?other <| .cons ?empty <| .cons ?defineFile <|
    .cons ?unknown <| .cons (.special (by decide)) <| .cons ?endSequence .nil
  case setAddress =>
    exact @Instruction.Spells.extended _ [0x87, 0] _ _ (by decide) (by decide) rfl
      (.setAddress 0xfffffff0 [9, 9])
  case other =>
    exact @Instruction.Spells.other _ 12 1 [[0x81, 0]] (.inr (by decide)) (by decide) rfl rfl
      (by decide)
  case empty => exact @Instruction.Spells.extended _ [0x80, 0] _ _ (by decide) (by decide) rfl .empty
  case defineFile =>
    have hentry := @FileEntry.Spells.mk [97] [0] [0] [0] (by decide) (by decide) (by decide)
      (by decide) (by decide)
    exact @Instruction.Spells.extended _ [7] _ _ (by decide) (by decide) rfl (.defineFile [5] hentry)
  case unknown =>
    exact @Instruction.Spells.extended _ [3] _ _ (by decide) (by decide) rfl
      (.unknown [1, 2] (by decide))
  case endSequence =>
    exact @Instruction.Spells.extended _ [2] _ _ (by decide) (by decide) rfl (.endSequence [7])

theorem Program.decode_spelled_paddedUnit :
    ∃ header, UnitHeader.read paddedUnit = .ok header ∧
      header.program.slice paddedUnit = (paddedInstructions.map Prod.fst).flatten ∧
      List.Forall₂ (Instruction.Spells header.instructionSet) (paddedInstructions.map Prod.fst)
        (paddedInstructions.map Prod.snd) ∧
      ∃ program, decode paddedUnit = .ok program ∧ program.header = header ∧
        program.rows = Unbounded.run header.params (.initial header.params.defaultIsStatement)
          (paddedInstructions.map Prod.snd) ∧
        program.files = header.files ++
          ((paddedInstructions.map Prod.snd).filterMap Instruction.definition?).map (·.2) := by
  have hread : (UnitHeader.read paddedUnit).toOption.any (fun header =>
      header.instructionSet = paddedSet ∧ header.program.slice paddedUnit =
        (paddedInstructions.map Prod.fst).flatten) = true := by decide +kernel
  cases hheader : UnitHeader.read paddedUnit with
  | error e =>
    -- the header of the unit decides how the instructions are spelled, so it is read first
    rw [hheader] at hread
    cases hread
  | ok header =>
    rw [hheader] at hread
    obtain ⟨hset, hprogram⟩ := of_decide_eq_true hread
    have hspelled := forall₂_spells_paddedInstructions
    rw [← hset] at hspelled
    exact ⟨header, rfl, hprogram, hspelled, decode_spelled hheader hprogram hspelled⟩

end DwarfLines
