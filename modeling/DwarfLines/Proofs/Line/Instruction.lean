import DwarfLines.Line.Instruction
import DwarfLines.Proofs.Leb128

/-!
# Instructions are read back

An instruction in its shortest form is read back as itself, whatever follows it, as long as its
operands fit their encoding. A program is therefore read instruction by instruction, and reading
does not look past the end of an instruction.
-/

namespace DwarfLines

/-! ## File definitions -/

namespace FileEntry

/-- Whether a file entry reads, and what it reads, does not depend on the bytes after it. -/
theorem local_decodeItem : decodeItem.Local := by
  refine Decoder.local_cstring.bind fun name => .ite (.pure _) ?_
  exact Leb128.local_unsigned.bind fun _ => Leb128.local_unsigned.bind fun _ =>
    Leb128.local_unsigned.bind fun _ => .pure _

end FileEntry

namespace Instruction

/-! ## Locality -/

/-- An extended instruction is read from its own bytes. -/
theorem local_decodeExtended : Extended.decode.Local := by
  refine Leb128.local_unsigned.bind fun length => .ite (.pure _) ?_
  exact (Decoder.local_take length).bind fun body => .lift _

/-- The operands of a standard opcode are read from their own bytes. -/
theorem local_decodeStandard (operandCounts : Bytes) (opcode : UInt8) :
    (decodeStandard operandCounts opcode).Local := by
  unfold decodeStandard
  split
  case h_1 | h_6 | h_7 => exact .pure _
  case h_2 | h_4 | h_5 => exact Leb128.local_unsigned.map _
  case h_3 => exact Leb128.local_signed.map _
  case h_8 => exact Decoder.local_word16.map _
  case h_9 => exact (Leb128.local_unsigned.times _).map _

/-- An instruction is read from its own bytes. -/
theorem local_decode (set : InstructionSet) : (decode set).Local := by
  refine Decoder.local_byte.bind fun opcode => ?_
  refine .ite (.pure _) (.ite ?_ (local_decodeStandard _ _))
  exact local_decodeExtended.bind fun _ => .pure _

/-! ## Programs -/

/-- No bytes are a complete program of no instructions. -/
theorem scan_nil (set : InstructionSet) : scan set [] = ([], true) := by
  rw [scan]
  rfl

/-- A program is read by reading its first instruction and then the others. -/
theorem scan_of_reads {set : InstructionSet} {front : Bytes} {instruction : Instruction}
    (h : (decode set).Reads front instruction) (rest : Bytes) :
    scan set (front ++ rest) = (instruction :: (scan set rest).1, (scan set rest).2) := by
  have hlength := decode_shortens set _ _ _ (h rest)
  have hne : (front ++ rest).isEmpty = false := by
    rw [List.isEmpty_eq_false_iff, ← List.length_pos_iff]
    omega
  rw [scan]
  simp only [hne, Bool.false_eq_true, if_false]
  -- the front reads as `instruction`, so it is the head of the scan
  split
  · rename_i hnone
    rw [h rest] at hnone
    cases hnone
  · rename_i first rest' hsome
    rw [h rest] at hsome
    cases hsome
    rfl

/-- The instructions of a program that is read whole are there in front of any others. -/
theorem scan_append_of_reads {set : InstructionSet} {fronts : List Bytes}
    {instructions : List Instruction} (h : List.Forall₂ (decode set).Reads fronts instructions)
    (rest : Bytes) :
    scan set (fronts.flatten ++ rest) =
      (instructions ++ (scan set rest).1, (scan set rest).2) := by
  induction h with
  | nil => rfl
  | cons hfirst _ ih =>
    rw [List.flatten_cons, List.append_assoc, scan_of_reads hfirst, ih]
    rfl

/-! ## The shortest form -/

/-- Whether an instruction is one that programs are written with, and its operands fit. -/
def Fits (set : InstructionSet) : Instruction → Prop
  | special opcode => set.opcodeBase ≤ opcode
  | copy | negateStatement | constAddAddress => True
  | advanceAddress n | setFile n | setColumn n => n < 2 ^ 64
  | advanceLine delta => -2 ^ 63 ≤ delta ∧ delta < 2 ^ 63
  | extended .endSequence | extended (.setAddress _) => True
  | extended (.setDiscriminator n) => n < 2 ^ 64
  | fixedAdvanceAddress _ | other _ _ | extended .empty | extended (.defineFile _ _)
  | extended .defineNoFile | extended (.unknown _ _) => False

/-- An extended instruction reads back from its encoding where its body decodes to it. -/
theorem reads_decodeBody {instruction : Extended}
    (h : Extended.decodeBody instruction.body = some instruction)
    (hne : instruction.body ≠ []) (hlength : instruction.body.length < 2 ^ 64) :
    Extended.decode.Reads instruction.encode instruction := by
  refine (Leb128.reads_encodeUnsigned hlength).bind ?_
  rw [if_neg (by simpa using hne)]
  exact (Decoder.reads_take rfl).bind_last (.lift h)

/-- A standard opcode is followed by its operands. -/
theorem reads_standard {set : InstructionSet} {opcode : UInt8} (hopcode : opcode ≠ 0)
    (hbase : opcode < set.opcodeBase) {operands : Bytes} {instruction : Instruction}
    (h : (decodeStandard set.operandCounts opcode).Reads operands instruction) :
    (decode set).Reads (opcode :: operands) instruction := by
  refine (Decoder.reads_byte opcode).bind ?_
  rw [decodeAfter, if_neg (UInt8.not_le.mpr hbase), if_neg hopcode]
  exact h

/-- A zero byte leads the reading of an extended instruction. -/
theorem reads_extended {set : InstructionSet} (hbase : 0 < set.opcodeBase) {operands : Bytes}
    {instruction : Extended} (h : Extended.decode.Reads operands instruction) :
    (decode set).Reads (0 :: operands) (extended instruction) := by
  refine (Decoder.reads_byte 0).bind ?_
  rw [decodeAfter, if_neg (UInt8.not_le.mpr hbase), if_pos rfl]
  exact h.bind_last (.pure _)

/-- An instruction that fits is read back from its shortest form. -/
theorem reads_encode {set : InstructionSet} (hbase : 9 ≤ set.opcodeBase)
    {instruction : Instruction} (h : instruction.Fits set) :
    (decode set).Reads instruction.encode instruction := by
  -- opcodes below 9 are standard under any base the encoder accepts
  have hstandard {opcode : UInt8} (hopcode : opcode < 9) : opcode < set.opcodeBase :=
    UInt8.lt_of_lt_of_le hopcode hbase
  cases instruction with
  | special opcode =>
    have hspecial : set.opcodeBase ≤ opcode := h
    refine (Decoder.reads_byte opcode).bind_last ?_
    rw [decodeAfter, if_pos hspecial]
    exact .pure _
  | copy => exact reads_standard (by decide) (hstandard (by decide)) (.pure copy)
  | advanceAddress n =>
    exact reads_standard (by decide) (hstandard (by decide)) ((Leb128.reads_encodeUnsigned h).map _)
  | advanceLine delta =>
    exact reads_standard (by decide) (hstandard (by decide))
      ((Leb128.reads_encodeSigned h.1 h.2).map _)
  | setFile n =>
    exact reads_standard (by decide) (hstandard (by decide)) ((Leb128.reads_encodeUnsigned h).map _)
  | setColumn n =>
    exact reads_standard (by decide) (hstandard (by decide)) ((Leb128.reads_encodeUnsigned h).map _)
  | negateStatement => exact reads_standard (by decide) (hstandard (by decide)) (.pure _)
  | constAddAddress => exact reads_standard (by decide) (hstandard (by decide)) (.pure _)
  | fixedAdvanceAddress delta => exact h.elim
  | other opcode operands => exact h.elim
  | extended instruction =>
    refine reads_extended (UInt8.lt_of_lt_of_le (by decide) hbase) ?_
    cases instruction with
    | endSequence => exact reads_decodeBody rfl (by simp [Extended.body]) (by simp [Extended.body])
    | setAddress address =>
      refine reads_decodeBody ?_ (by simp [Extended.body]) (by simp [Extended.body])
      simp [Extended.decodeBody, Extended.body, (Decoder.reads_word32 address).whole]
    | setDiscriminator n =>
      refine reads_decodeBody ?_ (by simp [Extended.body]) ?_
      · simp [Extended.decodeBody, Extended.body, (Leb128.reads_encodeUnsigned h).whole]
      · have : (Leb128.encodeUnsigned n).length ≤ 10 :=
          Leb128.length_encodeUnsigned_le (Nat.lt_trans h (by decide))
        simp only [Extended.body, List.length_cons]
        omega
    | empty | defineFile | defineNoFile | unknown => exact h.elim

/-- A program of instructions that fit is read back whole. -/
theorem scan_flatMap_encode {set : InstructionSet} (hbase : 9 ≤ set.opcodeBase)
    {instructions : List Instruction} (h : ∀ i ∈ instructions, i.Fits set) :
    scan set (instructions.flatMap encode) = (instructions, true) := by
  have hreads : List.Forall₂ (decode set).Reads (instructions.map encode) instructions := by
    rw [List.forall₂_map_left_iff, List.forall₂_same]
    exact fun i hi => reads_encode hbase (h i hi)
  have hscan := scan_append_of_reads hreads []
  rwa [List.append_nil, scan_nil, List.append_nil, ← List.flatMap_def] at hscan

end Instruction

end DwarfLines
