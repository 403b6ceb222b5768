import DwarfLines.Line.Section
import DwarfLines.Proofs.Line.Program

/-!
# Units in a line section

A unit of a section is what its length says, wherever it stands. A program that is written again with
other rows is a unit, and decodes to these rows with everything else as it was.
-/

namespace DwarfLines

open Outcome

/-- Whether a byte string has the length that it starts with. -/
def IsUnit (unit : Bytes) : Prop :=
  ∃ unitLength back, unit = bytesOfWord32 unitLength ++ back ∧ unitLength < wideFormatLength ∧
    unit.length = 4 + unitLength.toNat

theorem IsUnit.length_pos {unit : Bytes} (h : IsUnit unit) : 0 < unit.length := by
  obtain ⟨unitLength, back, -, -, hlength⟩ := h
  omega

theorem takeUnit_eq_ok_iff {offset : UInt32} {bytes unit : Bytes} :
    takeUnit offset bytes = .ok unit ↔ IsUnit unit ∧ ∃ rest, bytes = unit ++ rest := by
  unfold takeUnit IsUnit
  constructor
  · intro h
    split at h
    · rename_i unitLength rest hword
      simp only [throw_bind, ite_throw_eq_ok_iff, bind_eq_ok_iff, orTruncated_eq_ok_iff,
        pure_eq_ok_iff, Prod.exists, UInt32.not_le] at h
      obtain ⟨hwide, unit, rest', htake, rfl⟩ := h
      obtain ⟨hbytes, hlength⟩ := Decoder.take_eq_some_iff.mp htake
      obtain rfl := Decoder.word32_eq_some_iff.mp hword
      -- the length is stored in the first four bytes of the unit itself
      have hfront : bytesOfWord32 unitLength = unit.take 4 := by
        have := congrArg (List.take 4) hbytes
        rwa [List.take_left' (length_bytesOfWord32 _),
          List.take_append_of_le_length (by omega)] at this
      refine ⟨⟨unitLength, unit.drop 4, ?_, hwide, hlength⟩, rest', hbytes⟩
      rw [hfront, List.take_append_drop]
    · cases h
  · rintro ⟨⟨unitLength, back, hunit, hwide, hlength⟩, rest, rfl⟩
    have hword : Decoder.word32 (unit ++ rest) = some (unitLength, back ++ rest) := by
      rw [Decoder.word32_eq_some_iff, hunit, List.append_assoc]
    have htake : Decoder.take (4 + unitLength.toNat) (unit ++ rest) = some (unit, rest) :=
      Decoder.take_eq_some_iff.mpr ⟨rfl, hlength⟩
    rw [hword]
    simp only [throw_bind, ite_throw_eq_ok_iff, bind_eq_ok_iff, orTruncated_eq_ok_iff,
      pure_eq_ok_iff, Prod.exists, UInt32.not_le]
    exact ⟨hwide, unit, rest, htake, rfl⟩

/-- There are no units in an empty section. -/
theorem unitAt_nil_ne_ok {offset : UInt32} {unit : Bytes} : unitAt [] offset ≠ .ok unit := by
  intro h
  rw [unitAt, List.drop_nil, takeUnit_eq_ok_iff] at h
  obtain ⟨hunit, rest, hrest⟩ := h
  have := hunit.length_pos
  rw [(List.append_eq_nil_iff.mp hrest.symm).1] at this
  simp at this

/-- A unit is a part of its section. -/
theorem stop_le_of_unitAt {data unit : Bytes} {offset : UInt32} (h : unitAt data offset = .ok unit) :
    offset.toNat + unit.length ≤ data.length := by
  obtain ⟨hunit, rest, hrest⟩ := takeUnit_eq_ok_iff.mp h
  have hpositive := hunit.length_pos
  have hlength := congrArg List.length hrest
  rw [List.length_drop, List.length_append] at hlength
  omega

/-- A unit is taken from where it stands. -/
theorem unitAt_append {front unit : Bytes} (hunit : IsUnit unit) (back : Bytes) {offset : UInt32}
    (hoffset : offset.toNat = front.length) : unitAt (front ++ (unit ++ back)) offset = .ok unit := by
  rw [unitAt, hoffset, List.drop_left, takeUnit_eq_ok_iff]
  exact ⟨hunit, back, rfl⟩

/-- A unit is the same wherever the same bytes stand. -/
theorem unitAt_of_same {data other unit : Bytes} {offset : UInt32}
    (h : unitAt data offset = .ok unit)
    (hsame : ∀ j < unit.length, other[offset.toNat + j]? = data[offset.toNat + j]?) :
    unitAt other offset = .ok unit := by
  obtain ⟨hunit, rest, hrest⟩ := takeUnit_eq_ok_iff.mp h
  refine takeUnit_eq_ok_iff.mpr ⟨hunit, (other.drop offset.toNat).drop unit.length, ?_⟩
  -- the two sections agree on the bytes of the unit, so the same unit is cut out
  have htake : (other.drop offset.toNat).take unit.length = unit := by
    apply List.ext_getElem?
    intro j
    rw [List.getElem?_take]
    split
    · rename_i hj
      rw [List.getElem?_drop, hsame j hj, ← List.getElem?_drop, hrest,
        List.getElem?_append_left hj]
    · rename_i hj
      rw [List.getElem?_eq_none (by omega)]
  conv_lhs => rw [← List.take_append_drop unit.length (other.drop offset.toNat), htake]

theorem two_le_min_three {version : UInt16} (h : supportedVersion version = true) :
    2 ≤ min version 3 := by
  have hmin : min version 3 = if version ≤ 3 then version else 3 := rfl
  rw [supportedVersion, Bool.and_eq_true, decide_eq_true_eq] at h
  rw [hmin]
  split
  · exact h.1
  · decide

/-- Whether a program is what is left of another when its rows are set aside and its own files are
moved to the table of the header. -/
structure Program.Restates (new old : Program) : Prop where
  outputVersion_eq : new.header.outputVersion = old.header.outputVersion
  params_eq : new.header.params = old.header.params
  operandCounts_eq : new.header.operandCounts = old.header.operandCounts
  directories_eq : new.header.directories = old.header.directories
  headerFiles_eq : new.header.files = old.files
  files_eq : new.files = old.files
  tables_eq : new.tables = old.tables

/-- A decoded program that is written with other rows is a unit, which decodes to these rows and is
otherwise the same. -/
theorem Program.decode_of_encode {unit bytes : Bytes} {program : Program} {rows : List Row}
    (h : decode unit = .ok program) (hencode : program.encode rows = .ok bytes)
    (hwide : bytes.length < 4 + wideFormatLength.toNat) :
    IsUnit bytes ∧ ∃ program', decode bytes = .ok program' ∧ program'.rows = rows ∧
      program'.Restates program := by
  have htables := reads_tables h
  have hversion : 2 ≤ program.header.outputVersion := by
    obtain ⟨header, _, _, hheader, -, -, rfl⟩ := decode_eq_ok_iff.mp h
    exact two_le_min_three (UnitHeader.supportedVersion_of_read hheader)
  obtain ⟨-, -, headerLength, unitLength, -, hunit, hbytes⟩ := encodeUnit_eq_ok_iff.mp hencode
  have hparams : program.header.params.bytes.length = 5 := rfl
  have hlength : bytes.length = 4 + unitLength.toNat := by
    rw [hbytes, List.length_append, length_bytesOfWord32, hunit]
    simp only [List.length_append, length_bytesOfWord16, length_bytesOfWord32, hparams]
    omega
  have hshort : unitLength < wideFormatLength := UInt32.lt_iff_toNat_lt.mpr (by omega)
  obtain ⟨program', hdecode, hrows, htables', hversion', hparams', hcounts, hdirectories,
      hheaderFiles, hfiles⟩ :=
    decode_of_encodeUnit hversion htables hencode (by
      rw [← hunit]
      exact UInt32.lt_iff_toNat_lt.mp hshort)
  -- A version that was capped once stays as it is when it is capped again.
  have hcapped : program'.header.outputVersion = program.header.outputVersion := by
    rw [UnitHeader.outputVersion, hversion', UnitHeader.outputVersion]
    simp only [min_min_three]
  exact ⟨⟨unitLength, _, hbytes, hshort, hlength⟩, program', hdecode, hrows,
    ⟨hcapped, hparams', hcounts, hdirectories, hheaderFiles, hfiles, htables'⟩⟩

end DwarfLines
