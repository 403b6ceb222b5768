import DwarfLines.Proofs.Line.UnitHeader

/-!
# Instructions in any encoding

An instruction has many encodings: a number may be padded with empty groups, and the declared length
of an extended instruction may leave bytes behind its operands. `Instruction.Spells` lists them all
without a decoder. However it is spelled, an instruction is read as itself, and reading stops where
its spelling ends.
-/

namespace DwarfLines

/-- Whether some bytes are one signed number of 64 bits, written in as many bytes as may be. -/
structure Leb128.IsSignedNumber (bytes : Bytes) : Prop where
  isGroups : IsGroups bytes
  length_le : bytes.length ≤ maxLength
  le_signedPayload : -2 ^ 63 ≤ signedPayload bytes
  signedPayload_lt : signedPayload bytes < 2 ^ 63

/-- A signed number reads back from any spelling of it. -/
theorem Leb128.IsSignedNumber.reads {bytes : Bytes} (h : IsSignedNumber bytes) :
    signed.Reads bytes (signedPayload bytes) := by
  have hlow := h.le_signedPayload
  have hhigh := h.signedPayload_lt
  have hfits : (signedPayload bytes).bmod (2 ^ 64) = signedPayload bytes := by
    rw [Int.bmod_def]
    omega
  have hread := reads_signed h.isGroups h.length_le
  rwa [hfits] at hread

/-- Bytes that the reader takes whole are a number. -/
theorem Leb128.isNumber_of_unsigned {bytes : Bytes} {n : Nat} (h : unsigned bytes = some (n, [])) :
    IsNumber bytes ∧ payload bytes = n := by
  obtain ⟨gs, rest, hgs, hpayload⟩ := Decoder.bind_eq_some_iff.mp h
  obtain ⟨rfl, hisGroups, hlength⟩ := isGroups_of_groups hgs
  split at hpayload
  · rename_i hvalue
    obtain ⟨rfl, rfl⟩ := Decoder.pure_eq_some_iff.mp hpayload
    rw [List.append_nil]
    exact ⟨⟨hisGroups, hlength, hvalue⟩, rfl⟩
  · cases hpayload

/-- Bytes spell a number exactly where they are read as one to their end. -/
theorem Leb128.isNumber_iff {bytes : Bytes} :
    IsNumber bytes ↔ unsigned bytes = some (payload bytes, []) :=
  ⟨fun h => h.reads.whole, fun h => (isNumber_of_unsigned h).1⟩

instance : DecidablePred Leb128.IsNumber := fun _ => decidable_of_iff _ Leb128.isNumber_iff.symm

/-- Bytes spell a signed number exactly where they are read as one to their end. -/
theorem Leb128.isSignedNumber_iff {bytes : Bytes} :
    IsSignedNumber bytes ↔ signed bytes = some (signedPayload bytes, []) := by
  refine ⟨fun h => h.reads.whole, fun h => ?_⟩
  obtain ⟨gs, rest, hgs, h⟩ := Decoder.bind_eq_some_iff.mp h
  obtain ⟨rfl, hisGroups, hlength⟩ := isGroups_of_groups hgs
  obtain ⟨hvalue, rfl⟩ := Decoder.pure_eq_some_iff.mp h
  rw [List.append_nil] at hvalue ⊢
  -- A number that 64 bits do not hold is not read as itself.
  have hfits : (signedPayload gs).bmod (2 ^ 64) = signedPayload gs := hvalue
  have hlow := Int.le_bmod (x := signedPayload gs) (m := 2 ^ 64) (by decide)
  have hhigh := Int.bmod_lt (x := signedPayload gs) (m := 2 ^ 64) (by decide)
  exact ⟨hisGroups, hlength, by omega, by omega⟩

instance : DecidablePred Leb128.IsSignedNumber :=
  fun _ => decidable_of_iff _ Leb128.isSignedNumber_iff.symm

/-- Whether some bytes are an entry of a file table, and which. -/
inductive FileEntry.Spells : Bytes → FileEntry → Prop where
  | mk {name directoryIndex modified size : Bytes} : name ≠ [] → 0 ∉ name →
      Leb128.IsNumber directoryIndex → Leb128.IsNumber modified → Leb128.IsNumber size →
      Spells (name ++ [0] ++ (directoryIndex ++ (modified ++ size)))
        { name := Utf8.decodeLossy name, directoryIndex := Leb128.payload directoryIndex,
          modified := Leb128.payload modified, size := Leb128.payload size }

/-- A file entry reads back from any spelling of its numbers. -/
theorem FileEntry.Spells.reads {bytes : Bytes} {entry : FileEntry} (h : Spells bytes entry) :
    decodeItem.Reads bytes (some entry) := by
  obtain ⟨hne, hname, hdirectory, hmodified, hsize⟩ := h
  refine (Decoder.reads_cstring hname).bind ?_
  rw [if_neg (by simpa using hne)]
  exact hdirectory.reads.bind (hmodified.reads.bind (hsize.reads.bind_last (.pure _)))

/-! ## Extended instructions -/

/-- Whether some bytes are the body of an extended instruction. Where the operands do not say
themselves where they end, or end before the body does, any bytes may follow. -/
inductive Extended.Spells : Bytes → Extended → Prop where
  | empty : Spells [] .empty
  | endSequence (trailing : Bytes) : Spells (1 :: trailing) .endSequence
  | setAddress (address : UInt32) (trailing : Bytes) :
      Spells (2 :: (bytesOfWord32 address ++ trailing)) (.setAddress address)
  | defineFile {stored : Bytes} {entry : FileEntry} (trailing : Bytes) : entry.Spells stored →
      Spells (3 :: (stored ++ trailing)) (.defineFile stored entry)
  | defineNoFile (trailing : Bytes) : Spells (3 :: 0 :: trailing) .defineNoFile
  | setDiscriminator {number : Bytes} (trailing : Bytes) : Leb128.IsNumber number →
      Spells (4 :: (number ++ trailing)) (.setDiscriminator (Leb128.payload number))
  | unknown {opcode : UInt8} (operands : Bytes) : opcode ∉ [1, 2, 3, 4] →
      Spells (opcode :: operands) (.unknown opcode operands)

/-- A body that is not empty is read as what it spells. -/
theorem Extended.Spells.decodeBody_eq {body : Bytes} {instruction : Extended}
    (h : Spells body instruction) (hne : body ≠ []) : decodeBody body = some instruction := by
  cases h with
  | empty => exact absurd rfl hne
  | endSequence trailing => rfl
  | setAddress address trailing => simp [decodeBody, Decoder.reads_word32 address trailing]
  | defineFile trailing hentry =>
    -- The bytes kept for the entry are those that the reader went past.
    simp [decodeBody, hentry.reads trailing]
  | defineNoFile trailing =>
    have hstop := FileEntry.reads_decodeItem_stop trailing
    rw [List.singleton_append] at hstop
    simp [decodeBody, hstop]
  | setDiscriminator trailing hnumber => simp [decodeBody, hnumber.reads trailing]
  | unknown operands hopcode =>
    rename_i opcode
    have hother (known : UInt8) (hknown : known ∈ [1, 2, 3, 4]) : opcode.toNat ≠ known.toNat :=
      fun h => hopcode (UInt8.toNat_inj.mp h ▸ hknown)
    rw [decodeBody]
    split
    · exact absurd ‹_› (hother 1 (by decide))
    · exact absurd ‹_› (hother 2 (by decide))
    · exact absurd ‹_› (hother 3 (by decide))
    · exact absurd ‹_› (hother 4 (by decide))
    · rfl

/-- The empty body spells the empty instruction only. -/
theorem Extended.Spells.eq_empty {instruction : Extended} (h : Spells [] instruction) :
    instruction = .empty := by
  cases h
  rfl

/-- An extended instruction is read from its length, however that is written, and its body, and no
further. -/
theorem Extended.Spells.reads {length body : Bytes} {instruction : Extended}
    (h : Spells body instruction) (hlength : Leb128.IsNumber length)
    (hpayload : Leb128.payload length = body.length) :
    decode.Reads (length ++ body) instruction := by
  refine hlength.reads.bind ?_
  rw [hpayload]
  by_cases hne : body = []
  · subst hne
    obtain rfl := h.eq_empty
    exact .pure _
  · rw [if_neg (by simpa using hne)]
    exact (Decoder.reads_take rfl).bind_last (.lift (h.decodeBody_eq hne))

/-! ## Instructions -/

namespace Instruction

/-- Whether some bytes are an instruction of a set. The opcode base decides which standard opcodes
there are, and the operand counts how many numbers follow one that has no meaning here. -/
inductive Spells (set : InstructionSet) : Bytes → Instruction → Prop where
  | special {opcode : UInt8} : set.opcodeBase ≤ opcode → Spells set [opcode] (.special opcode)
  | copy : 1 < set.opcodeBase → Spells set [1] .copy
  | advanceAddress {number : Bytes} : 2 < set.opcodeBase → Leb128.IsNumber number →
      Spells set (2 :: number) (.advanceAddress (Leb128.payload number))
  | advanceLine {number : Bytes} : 3 < set.opcodeBase → Leb128.IsSignedNumber number →
      Spells set (3 :: number) (.advanceLine (Leb128.signedPayload number))
  | setFile {number : Bytes} : 4 < set.opcodeBase → Leb128.IsNumber number →
      Spells set (4 :: number) (.setFile (Leb128.payload number))
  | setColumn {number : Bytes} : 5 < set.opcodeBase → Leb128.IsNumber number →
      Spells set (5 :: number) (.setColumn (Leb128.payload number))
  | negateStatement : 6 < set.opcodeBase → Spells set [6] .negateStatement
  | constAddAddress : 8 < set.opcodeBase → Spells set [8] .constAddAddress
  | fixedAdvanceAddress (delta : UInt16) : 9 < set.opcodeBase →
      Spells set (9 :: bytesOfWord16 delta) (.fixedAdvanceAddress delta)
  | other {opcode count : UInt8} {operands : List Bytes} : opcode = 7 ∨ 10 ≤ opcode →
      opcode < set.opcodeBase → set.operandCounts[opcode.toNat - 1]? = some count →
      operands.length = count.toNat → (∀ operand ∈ operands, Leb128.IsNumber operand) →
      Spells set (opcode :: operands.flatten) (.other opcode (operands.map Leb128.payload))
  | extended {length body : Bytes} {instruction : Extended} : 0 < set.opcodeBase →
      Leb128.IsNumber length → Leb128.payload length = body.length → instruction.Spells body →
      Spells set (0 :: (length ++ body)) (.extended instruction)

/-- A standard opcode without a meaning is passed over with as many numbers as it declares. -/
theorem decodeStandard_of_other {operandCounts : Bytes} {opcode count : UInt8}
    (hopcode : opcode = 7 ∨ 10 ≤ opcode) (hcount : operandCounts[opcode.toNat - 1]? = some count) :
    decodeStandard operandCounts opcode =
      (other opcode <$> Leb128.unsigned.times count.toNat) := by
  have hnumber : opcode.toNat = 7 ∨ 10 ≤ opcode.toNat :=
    hopcode.imp (congrArg UInt8.toNat) UInt8.le_iff_toNat_le.mp
  have hdeclared : numbered? operandCounts opcode.toNat = some count := by
    obtain ⟨index, hindex⟩ : ∃ index, opcode.toNat = index + 1 := ⟨opcode.toNat - 1, by omega⟩
    rw [hindex] at hcount ⊢
    exact hcount
  unfold decodeStandard
  funext bytes
  split
  all_goals try omega
  rw [hdeclared]
  rfl

/-- However it is spelled, an instruction is read as itself. -/
theorem Spells.reads {set : InstructionSet} {bytes : Bytes} {instruction : Instruction}
    (h : Spells set bytes instruction) : (decode set).Reads bytes instruction := by
  cases h with
  | special hbase =>
    rename_i opcode
    refine (Decoder.reads_byte opcode).bind_last ?_
    rw [decodeAfter, if_pos hbase]
    exact .pure _
  | copy hbase => exact reads_standard (by decide) hbase (.pure _)
  | advanceAddress hbase hnumber => exact reads_standard (by decide) hbase (hnumber.reads.map _)
  | advanceLine hbase hnumber => exact reads_standard (by decide) hbase (hnumber.reads.map _)
  | setFile hbase hnumber => exact reads_standard (by decide) hbase (hnumber.reads.map _)
  | setColumn hbase hnumber => exact reads_standard (by decide) hbase (hnumber.reads.map _)
  | negateStatement hbase => exact reads_standard (by decide) hbase (.pure _)
  | constAddAddress hbase => exact reads_standard (by decide) hbase (.pure _)
  | fixedAdvanceAddress delta hbase =>
    exact reads_standard (by decide) hbase ((Decoder.reads_word16 delta).map _)
  -- an opcode the reader does not know passes over as many numbers as the header says
  | other hopcode hbase hcount hlength hoperands =>
    rename_i opcode count operands
    have hne : opcode ≠ 0 := by
      rintro rfl
      revert hopcode
      decide
    refine reads_standard hne hbase ?_
    rw [decodeStandard_of_other hopcode hcount, ← hlength]
    have hreads : List.Forall₂ Leb128.unsigned.Reads operands (operands.map Leb128.payload) := by
      rw [List.forall₂_map_right_iff, List.forall₂_same]
      exact fun operand hoperand => (hoperands operand hoperand).reads
    have htimes := Decoder.Reads.times hreads
    rw [List.length_map] at htimes
    exact htimes.map _
  | extended hbase hnumber hlength hbody => exact reads_extended hbase (hbody.reads hnumber hlength)

/-- A program is read as the instructions that it spells. -/
theorem scan_of_spells {set : InstructionSet} {spelled : List Bytes}
    {instructions : List Instruction} (h : List.Forall₂ (Spells set) spelled instructions) :
    scan set spelled.flatten = (instructions, true) := by
  have hscan := scan_append_of_reads (h.imp fun _ _ => Spells.reads) []
  rwa [List.append_nil, scan_nil, List.append_nil] at hscan

end Instruction

end DwarfLines
