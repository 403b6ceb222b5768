import DwarfLines.Proofs.Leb128.Shortest
import DwarfLines.Proofs.Line.Program

/-!
# The shortest form of an instruction

The bytes that an instruction is read from are never fewer than the bytes it is written in, as that is
so for the numbers in it. So a program takes at least the bytes of its instructions, each in its
shortest form.
-/

namespace DwarfLines

namespace Extended

theorem length_body_le {bytes : Bytes} {instruction : Extended}
    (h : decodeBody bytes = some instruction) : instruction.body.length ≤ bytes.length := by
  cases bytes with
  | nil => cases h
  -- the body of each extended opcode is its operands in the shortest spelling
  | cons opcode operands =>
    simp only [decodeBody] at h
    split at h
    case h_1 | h_5 =>
      cases h
      simp [body]
    case h_2 =>
      obtain ⟨⟨address, rest⟩, haddress, rfl⟩ := Option.map_eq_some_iff.mp h
      have := Decoder.takes_word32 _ _ _ haddress
      rw [body, List.length_cons, length_bytesOfWord32, List.length_cons]
      omega
    case h_3 =>
      obtain ⟨⟨_ | entry, rest⟩, hentry, rfl⟩ := Option.map_eq_some_iff.mp h
      · have := FileEntry.decodeItem_shortens _ _ _ hentry
        simp only [body, List.length_cons, List.length_nil]
        omega
      · simp only [body, List.length_cons, List.length_take]
        omega
    case h_4 =>
      obtain ⟨⟨discriminator, rest⟩, hnumber, rfl⟩ := Option.map_eq_some_iff.mp h
      have := Leb128.length_encodeUnsigned_le_of_unsigned hnumber
      simp only [body, List.length_cons]
      omega

theorem length_encode_le_of_decode {bytes rest : Bytes} {instruction : Extended}
    (h : decode bytes = some (instruction, rest)) :
    instruction.encode.length + rest.length ≤ bytes.length := by
  obtain ⟨length, rest₁, hlength, h⟩ := Decoder.bind_eq_some_iff.mp h
  have hnumber := Leb128.length_encodeUnsigned_le_of_unsigned hlength
  split at h
  · rename_i hzero
    obtain ⟨rfl, rfl⟩ := Decoder.pure_eq_some_iff.mp h
    rw [hzero] at hnumber
    rw [encode, List.length_append]
    exact hnumber
  · obtain ⟨bytes', rest₂, htake, h⟩ := Decoder.bind_eq_some_iff.mp h
    obtain ⟨hbody, rfl⟩ := Decoder.lift_eq_some_iff.mp h
    obtain ⟨rfl, hcount⟩ := Decoder.take_eq_some_iff.mp htake
    have hle := length_body_le hbody
    -- What the body leaves unused makes its length no shorter.
    have hshorter := Leb128.length_encodeUnsigned_mono (Nat.le_trans hle (Nat.le_of_eq hcount))
    rw [List.length_append] at hnumber
    rw [encode, List.length_append]
    omega

end Extended

namespace Instruction

theorem length_encode_le_of_decodeStandard {operandCounts : Bytes} {opcode : UInt8}
    {bytes rest : Bytes} {instruction : Instruction}
    (h : decodeStandard operandCounts opcode bytes = some (instruction, rest)) :
    instruction.encode.length + rest.length ≤ bytes.length + 1 := by
  -- opcode by opcode: each keeps the value of its operands and spells them no longer
  unfold decodeStandard at h
  split at h
  case h_1 | h_6 | h_7 =>
    cases h
    rw [encode, List.length_singleton]
    omega
  case h_2 | h_4 | h_5 =>
    obtain ⟨n, hn, rfl⟩ := Decoder.map_eq_some_iff.mp h
    have := Leb128.length_encodeUnsigned_le_of_unsigned hn
    rw [encode, List.length_cons]
    omega
  case h_3 =>
    obtain ⟨n, hn, rfl⟩ := Decoder.map_eq_some_iff.mp h
    have := Leb128.length_encodeSigned_le_of_signed hn
    rw [encode, List.length_cons]
    omega
  case h_8 =>
    obtain ⟨delta, hdelta, rfl⟩ := Decoder.map_eq_some_iff.mp h
    have := Decoder.takes_word16 _ _ _ hdelta
    rw [encode, List.length_cons, length_bytesOfWord16]
    omega
  case h_9 =>
    obtain ⟨numbers, hnumbers, rfl⟩ := Decoder.map_eq_some_iff.mp h
    have := Leb128.length_encodeUnsigned_le_of_times hnumbers
    rw [encode, List.length_cons]
    omega

/-- An instruction is read from no fewer bytes than it is written in. -/
theorem length_encode_le_of_decode {set : InstructionSet} {bytes rest : Bytes}
    {instruction : Instruction} (h : decode set bytes = some (instruction, rest)) :
    instruction.encode.length + rest.length ≤ bytes.length := by
  obtain ⟨opcode, rest₁, hopcode, h⟩ := Decoder.bind_eq_some_iff.mp h
  have hbyte := Decoder.takes_byte _ _ _ hopcode
  unfold decodeAfter at h
  split at h
  · obtain ⟨rfl, rfl⟩ := Decoder.pure_eq_some_iff.mp h
    rw [encode, List.length_singleton]
    omega
  · split at h
    · obtain ⟨extended, rest₂, hextended, h⟩ := Decoder.bind_eq_some_iff.mp h
      obtain ⟨rfl, rfl⟩ := Decoder.pure_eq_some_iff.mp h
      have := Extended.length_encode_le_of_decode hextended
      rw [encode, List.length_cons]
      omega
    · have := length_encode_le_of_decodeStandard h
      omega

/-- A program takes no fewer bytes than its instructions are written in. -/
theorem length_flatMap_encode_le_of_scan {set : InstructionSet} {bytes : Bytes}
    {instructions : List Instruction} {complete : Bool}
    (h : scan set bytes = (instructions, complete)) :
    (instructions.flatMap encode).length ≤ bytes.length := by
  fun_induction scan set bytes generalizing instructions complete with
  | case1 | case2 =>
    cases h
    exact Nat.zero_le _
  | case3 bytes _ instruction rest hi instructions' complete' hrest ih =>
    cases h
    have := length_encode_le_of_decode hi
    have := ih hrest
    rw [List.flatMap_cons, List.length_append]
    omega

end Instruction

end DwarfLines
