import DwarfLines.Proofs.Line.Section

/-!
# Decoding stays within the unit

The length of a unit bounds its header, its tables and its program. What stands behind the unit has no
part in what it decodes to, be it a program or an error.
-/

namespace DwarfLines

open Outcome

namespace Span

variable {span : Span} {bytes : Bytes}

theorem slice_append_left (h : span.stop ≤ bytes.length) (extra : Bytes) :
    span.slice (bytes ++ extra) = span.slice bytes :=
  slice_congr fun _ hi => List.getElem?_append_left (Nat.lt_of_lt_of_le hi.2 h)

theorem slice?_append_left (h : span.stop ≤ bytes.length) (extra : Bytes) :
    span.slice? (bytes ++ extra) = span.slice? bytes := by
  have hlonger : span.stop ≤ (bytes ++ extra).length := by
    rw [List.length_append]
    omega
  rw [slice?, slice?, if_pos h, if_pos hlonger, slice_append_left h]

end Span

/-- The fields of a header are taken from the bytes that the length of the unit counts. -/
theorem Preamble.read_append {unit : Bytes} (h : IsUnit unit) (extra : Bytes) :
    read (unit ++ extra) = read unit := by
  obtain ⟨unitLength, back, rfl, -, hlength⟩ := h
  have hback : back.length = unitLength.toNat := by simpa using hlength
  have hword := Decoder.reads_word32 unitLength
  have htake := Decoder.reads_take hback
  unfold read
  rw [List.append_assoc, hword, hword back, orTruncated_some_bind, orTruncated_some_bind]
  dsimp only
  rw [htake, htake.whole]
  rfl

theorem UnitHeader.read_append {unit : Bytes} (h : IsUnit unit) (extra : Bytes) :
    read (unit ++ extra) = read unit := by
  unfold read
  rw [Preamble.read_append h]

/-- The tables of a header that is read are bytes that are there. -/
theorem UnitHeader.tables_stop_le {data : Bytes} {header : UnitHeader} (h : read data = .ok header) :
    header.tables.stop ≤ data.length := by
  obtain ⟨preamble, bytes, tables, rest, hpreamble, -, -, rfl⟩ := exists_of_read h
  exact Nat.le_trans (Nat.sub_le _ _) (Preamble.read_spans hpreamble).1

/-- A unit of a section decodes to the same with any bytes behind it as with none. -/
theorem Program.decode_append_of_unitAt {data unit : Bytes} {offset : UInt32}
    (h : unitAt data offset = .ok unit) (extra : Bytes) : decode (unit ++ extra) = decode unit := by
  obtain ⟨hunit, -⟩ := takeUnit_eq_ok_iff.mp h
  unfold decode
  rw [UnitHeader.read_append hunit]
  cases hheader : UnitHeader.read unit with
  | error e => rfl
  | ok header =>
    have hprogram := Span.slice?_append_left (UnitHeader.program_stop_le hheader) extra
    have htables := Span.slice_append_left (UnitHeader.tables_stop_le hheader) extra
    have hinstructions : header.instructions? (unit ++ extra) = header.instructions? unit := by
      rw [UnitHeader.instructions?, UnitHeader.instructions?, hprogram]
    show (orTruncated (header.instructions? (unit ++ extra)) >>= _) = _
    rw [hinstructions, htables]
    rfl

/-- A unit whose last instruction lacks its operand. -/
def cutUnit : Bytes :=
  bytesOfWord32 23 ++ bytesOfWord16 2 ++ bytesOfWord32 16 ++ [1, 1, 251, 14, 10] ++
    [0, 1, 1, 1, 1, 0, 0, 0, 1] ++ [0, 0] ++ [2]

/-- A byte behind the unit that would do as the operand is not taken for it. -/
theorem Program.decode_append_cutUnit :
    unitAt ([7, 7] ++ cutUnit ++ [5, 1]) 2 = .ok cutUnit ∧
      decode (cutUnit ++ [5, 1]) = decode cutUnit ∧ decode cutUnit = .error .truncated := by
  have hunit : unitAt ([7, 7] ++ cutUnit ++ [5, 1]) 2 = .ok cutUnit := by decide +kernel
  exact ⟨hunit, decode_append_of_unitAt hunit [5, 1], by decide +kernel⟩

end DwarfLines
