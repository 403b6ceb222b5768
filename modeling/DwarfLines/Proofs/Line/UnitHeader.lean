import DwarfLines.Line.UnitHeader
import DwarfLines.Proofs.Line.Instruction
import DwarfLines.Proofs.Outcomes

/-!
# Headers of units

The tables of a header are a run of operand counts, directories and files, each table with its end.
`Tables.IsStored` says so without a decoder. Tables are read back from exactly such bytes, whatever
follows them, and more files may be put in front of the byte that ends the file table.
-/

namespace DwarfLines

/-- Whether some bytes are one number, written in as many bytes as may be. -/
structure Leb128.IsNumber (bytes : Bytes) : Prop where
  isGroups : IsGroups bytes
  length_le : bytes.length ≤ maxLength
  payload_lt : payload bytes < 2 ^ 64

/-- A number is read from its groups. -/
theorem Leb128.IsNumber.reads {bytes : Bytes} (h : IsNumber bytes) :
    unsigned.Reads bytes (payload bytes) :=
  reads_unsigned h.isGroups h.length_le h.payload_lt

/-- Whether some bytes are an entry of a file table: a name that is not empty, the byte that ends
it, and three numbers. -/
def FileEntry.IsStored (bytes : Bytes) : Prop :=
  ∃ name directoryIndex modified size : Bytes, name ≠ [] ∧ 0 ∉ name ∧
    Leb128.IsNumber directoryIndex ∧ Leb128.IsNumber modified ∧ Leb128.IsNumber size ∧
    bytes = name ++ [0] ++ (directoryIndex ++ (modified ++ size))

/-- Whether some bytes are the tables of a header: the operand counts of the standard opcodes, names
of directories and an empty one, entries of files and an empty one. -/
def Tables.IsStored (opcodeBase : UInt8) (bytes : Bytes) : Prop :=
  ∃ (counts : Bytes) (directories files : List Bytes), counts.length = opcodeBase.toNat - 1 ∧
    (∀ name ∈ directories, name ≠ [] ∧ 0 ∉ name) ∧ (∀ entry ∈ files, FileEntry.IsStored entry) ∧
    bytes = counts ++ ((directories.map (· ++ [0])).flatten ++ [0] ++ (files.flatten ++ [0]))

/-! ## Reading tables back -/

/-- A directory is read from its name. -/
theorem reads_decodeDirectory {name : Bytes} (hne : name ≠ []) (hname : 0 ∉ name) :
    decodeDirectory.Reads (name ++ [0]) (some (Utf8.decodeLossy name)) := by
  refine (Decoder.reads_cstring hname).bind_last ?_
  rw [if_neg (by simpa using hne)]
  exact .pure _

/-- An empty name ends the directories. -/
theorem reads_decodeDirectory_stop : decodeDirectory.Reads [0] none :=
  (Decoder.reads_cstring List.not_mem_nil).bind_last (.pure _)

theorem local_decodeDirectory : decodeDirectory.Local :=
  Decoder.local_cstring.bind fun _ => .pure _

namespace FileEntry

/-- A stored entry is read. -/
theorem IsStored.exists_reads {bytes : Bytes} (h : IsStored bytes) :
    ∃ entry, decodeItem.Reads bytes (some entry) := by
  obtain ⟨name, directoryIndex, modified, size, hne, hname, hdirectory, hmodified, hsize, rfl⟩ := h
  let entry : FileEntry :=
    { name := Utf8.decodeLossy name, directoryIndex := Leb128.payload directoryIndex,
      modified := Leb128.payload modified, size := Leb128.payload size }
  refine ⟨entry, (Decoder.reads_cstring hname).bind ?_⟩
  rw [if_neg (by simpa using hne)]
  exact hdirectory.reads.bind (hmodified.reads.bind (hsize.reads.bind_last (.pure _)))

/-- An empty name ends the files. -/
theorem reads_decodeItem_stop : decodeItem.Reads [0] none :=
  (Decoder.reads_cstring List.not_mem_nil).bind_last (.pure _)

/-- Only an empty name ends a file table. -/
theorem eq_of_reads_decodeItem_none {stop : Bytes} (h : decodeItem.Reads stop none) :
    stop = [0] := by
  obtain ⟨name, rest, hname, h⟩ := Decoder.bind_eq_some_iff.mp h.whole
  split at h
  · rename_i hempty
    obtain ⟨-, rfl⟩ := Decoder.pure_eq_some_iff.mp h
    obtain ⟨rfl, -⟩ := Decoder.cstring_eq_some_iff.mp hname
    rw [List.isEmpty_iff.mp hempty]
    rfl
  · obtain ⟨_, _, _, h⟩ := Decoder.bind_eq_some_iff.mp h
    obtain ⟨_, _, _, h⟩ := Decoder.bind_eq_some_iff.mp h
    obtain ⟨_, _, _, h⟩ := Decoder.bind_eq_some_iff.mp h
    cases (Decoder.pure_eq_some_iff.mp h).1

end FileEntry

namespace Tables

/-- What is behind the tables is not looked at. -/
theorem local_decode (opcodeBase : UInt8) : (decode opcodeBase).Local := by
  refine (Decoder.local_take _).bind fun counts => ?_
  refine (Decoder.local_table local_decodeDirectory).bind fun directories => ?_
  exact (Decoder.local_table FileEntry.local_decodeItem).bind fun files => .pure _

/-- Tables that are stored as they should be are read back. -/
theorem IsStored.exists_reads {opcodeBase : UInt8} {bytes : Bytes} (h : IsStored opcodeBase bytes) :
    ∃ tables, (decode opcodeBase).Reads bytes tables := by
  obtain ⟨counts, directories, files, hcounts, hdirectories, hfiles, rfl⟩ := h
  -- the three tables are read one after the other, each up to its own stop byte
  have hnames : List.Forall₂ (fun front a => decodeDirectory.Reads front (some a))
      (directories.map (· ++ [0])) (directories.map Utf8.decodeLossy) := by
    rw [List.forall₂_map_left_iff, List.forall₂_map_right_iff, List.forall₂_same]
    exact fun name hname => reads_decodeDirectory (hdirectories name hname).1
      (hdirectories name hname).2
  have hentries : ∃ entries, List.Forall₂ (fun front a => FileEntry.decodeItem.Reads front (some a))
      files entries := by
    clear hnames
    induction files with
    | nil => exact ⟨[], .nil⟩
    | cons file files ih =>
      obtain ⟨entry, hentry⟩ := (hfiles file List.mem_cons_self).exists_reads
      obtain ⟨entries, hentries⟩ := ih fun f hf => hfiles f (List.mem_cons_of_mem _ hf)
      exact ⟨entry :: entries, .cons hentry hentries⟩
  obtain ⟨entries, hentries⟩ := hentries
  refine ⟨⟨counts, directories.map Utf8.decodeLossy, entries⟩, ?_⟩
  refine (Decoder.reads_take hcounts).bind ?_
  refine (Decoder.reads_table hnames reads_decodeDirectory_stop).bind ?_
  exact (Decoder.reads_table hentries FileEntry.reads_decodeItem_stop).bind_last (.pure _)

end Tables

/-! ## Reading written headers back -/

namespace Preamble

open Outcome

/-- Parameters of an old version are read from their bytes. -/
theorem reads_params (p : Params) (rest : Bytes) {version : UInt16} (hversion : version ≤ 3) :
    readParams version (p.bytes ++ rest) = .ok (p, rest) := by
  have hne : version ≠ 4 := by
    rintro rfl
    exact absurd hversion (by decide)
  have hstatement : ((if p.defaultIsStatement then 1 else 0 : UInt8) != 0) = p.defaultIsStatement := by
    cases p.defaultIsStatement <;> rfl
  unfold readParams
  simp only [bind_eq_ok_iff, throw_bind, orTruncated_eq_ok_iff, pure_eq_ok_iff, Prod.exists,
    if_neg hne]
  refine ⟨p.minimumInstructionLength, _, rfl, _, rfl, ?_⟩
  show some (_, rest) = some (p, rest)
  rw [hstatement, Int8.toInt8_toUInt8]

/-- A header is read back from its fields. -/
theorem read_fields {version : UInt16} (hsupported : supportedVersion version = true)
    (hversion : version ≤ 3) {unitLength headerLength : UInt32} {p : Params} {rest : Bytes}
    (hwide : unitLength < wideFormatLength) (hunit : unitLength.toNat = 11 + rest.length)
    (hheader : headerLength.toNat ≤ 5 + rest.length) (hlength : p.minimumInstructionLength ≠ 0)
    (hrange : p.lineRange ≠ 0) :
    read (bytesOfWord32 unitLength ++
        (bytesOfWord16 version ++ (bytesOfWord32 headerLength ++ (p.bytes ++ rest)))) =
      .ok ({ version, unitLength, headerLength, params := p, tablesStart := 15,
             program := ⟨10 + headerLength.toNat, 4 + unitLength.toNat⟩ }, rest) := by
  -- version 4 has an extra byte and is not written by the encoder
  have hne : version ≠ 4 := by
    rintro rfl
    exact absurd hversion (by decide)
  have hbody : (bytesOfWord16 version ++
      (bytesOfWord32 headerLength ++ (p.bytes ++ rest))).length = unitLength.toNat := by
    simp only [List.length_append, length_bytesOfWord16, length_bytesOfWord32, Params.bytes,
      List.length_cons, List.length_nil, hunit]
    omega
  unfold read
  simp only [bind_eq_ok_iff, throw_bind, ite_throw_eq_ok_iff, ite_else_throw_eq_ok_iff,
    orTruncated_eq_ok_iff, pure_eq_ok_iff, Prod.exists]
  refine ⟨_, _, Decoder.reads_word32 unitLength _, UInt32.not_le.mpr hwide, _, _,
    (Decoder.reads_take hbody).whole, _, _, Decoder.reads_word16 version _, hsupported, _, _,
    Decoder.reads_word32 headerLength _, ?_, _, _, reads_params p rest hversion, ?_, hlength, hrange,
    ?_⟩
  · simp only [List.length_append, Params.bytes, List.length_cons, List.length_nil]
    omega
  · simp [hne]
  · have hstart : 4 + unitLength.toNat - rest.length = 15 := by omega
    simp [hne, hstart]

/-- The parameters after the first. -/
def decodeFields (minimumInstructionLength : UInt8) : Decoder Params := do
  let defaultIsStatement := (← Decoder.byte) != 0
  let lineBase := (← Decoder.byte).toInt8
  let lineRange ← Decoder.byte
  let opcodeBase ← Decoder.byte
  return { minimumInstructionLength, defaultIsStatement, lineBase, lineRange, opcodeBase }

/-- The parameters look at their own bytes only. -/
theorem local_decodeFields (minimumInstructionLength : UInt8) :
    (decodeFields minimumInstructionLength).Local :=
  Decoder.local_byte.bind fun _ => Decoder.local_byte.bind fun _ =>
    Decoder.local_byte.bind fun _ => Decoder.local_byte.bind fun _ => .pure _

/-- The fields behind the instruction length take four bytes. -/
theorem takes_decodeFields (minimumInstructionLength : UInt8) :
    (decodeFields minimumInstructionLength).Takes 4 :=
  Decoder.takes_byte.bind fun _ => Decoder.takes_byte.bind fun _ =>
    Decoder.takes_byte.bind fun _ => Decoder.takes_byte.bind fun _ => .pure _

/-- The parameters are five bytes, or six with the one that only version 4 has. -/
theorem exists_of_readParams {version : UInt16} {bytes rest : Bytes} {p : Params}
    (h : readParams version bytes = .ok (p, rest)) :
    ∃ first between, Decoder.byte bytes = some (first, between) ∧
      (decodeFields first between = some (p, rest) ∨ ∃ operations fields,
        Decoder.byte between = some (operations, fields) ∧
          decodeFields first fields = some (p, rest)) := by
  unfold readParams at h
  simp only [bind_eq_ok_iff, throw_bind, orTruncated_eq_ok_iff, Prod.exists] at h
  obtain ⟨first, between, hfirst, h⟩ := h
  refine ⟨first, between, hfirst, ?_⟩
  split at h
  · simp only [bind_eq_ok_iff, ite_throw_eq_ok_iff, orTruncated_eq_ok_iff, pure_eq_ok_iff,
      Prod.exists] at h
    obtain ⟨operations, _, hoperations, -, _, rfl, h⟩ := h
    exact .inr ⟨operations, _, hoperations, h⟩
  · simp only [bind_eq_ok_iff, orTruncated_eq_ok_iff, pure_eq_ok_iff] at h
    obtain ⟨_, rfl, h⟩ := h
    exact .inl h

/-- What is left after the parameters is the rest of the bytes. -/
theorem suffix_of_readParams {version : UInt16} {bytes rest : Bytes} {p : Params}
    (h : readParams version bytes = .ok (p, rest)) : rest <:+ bytes := by
  obtain ⟨first, between, hfirst, hfields | ⟨operations, fields, hoperations, hfields⟩⟩ :=
    exists_of_readParams h
  · exact ((local_decodeFields first).suffix hfields).trans (Decoder.local_byte.suffix hfirst)
  · exact ((local_decodeFields first).suffix hfields).trans
      ((Decoder.local_byte.suffix hoperations).trans (Decoder.local_byte.suffix hfirst))

/-- The parameters take five bytes at least. -/
theorem length_of_readParams {version : UInt16} {bytes rest : Bytes} {p : Params}
    (h : readParams version bytes = .ok (p, rest)) : 5 + rest.length ≤ bytes.length := by
  obtain ⟨first, between, hfirst, hfields | ⟨operations, fields, hoperations, hfields⟩⟩ :=
    exists_of_readParams h
  · have := Decoder.takes_byte _ _ _ hfirst
    have := takes_decodeFields first _ _ _ hfields
    omega
  · have := Decoder.takes_byte _ _ _ hfirst
    have := Decoder.takes_byte _ _ _ hoperations
    have := takes_decodeFields first _ _ _ hfields
    omega

/-- A preamble that is read stands between the length of the unit and the tables. -/
theorem exists_of_read {data bytes : Bytes} {preamble : Preamble}
    (h : read data = .ok (preamble, bytes)) :
    ∃ (unitLength : UInt32) (fields after : Bytes),
      data = bytesOfWord32 unitLength ++ (fields ++ bytes) ++ after ∧
      (fields ++ bytes).length = unitLength.toNat ∧ 11 ≤ fields.length ∧
      preamble.tablesStart = 4 + fields.length ∧
      preamble.program.stop = 4 + unitLength.toNat ∧
      supportedVersion preamble.version = true ∧
      preamble.params.minimumInstructionLength ≠ 0 ∧ preamble.params.lineRange ≠ 0 := by
  unfold read at h
  simp only [bind_eq_ok_iff, throw_bind, ite_throw_eq_ok_iff, ite_else_throw_eq_ok_iff,
    orTruncated_eq_ok_iff, pure_eq_ok_iff, Prod.exists, Prod.mk.injEq] at h
  -- the names follow the reads of the source, the rejected alternatives are dropped
  obtain ⟨unitLength, afterLength, hunit, -, body, after, hbody, version, afterVersion, hversion,
    hsupported, headerLength, afterHeader, hheader, -, p, tables, hparams, -, hlength, hrange, rfl,
    rfl⟩ := h
  obtain rfl := Decoder.word32_eq_some_iff.mp hunit
  obtain ⟨rfl, hbodyLength⟩ := Decoder.take_eq_some_iff.mp hbody
  obtain ⟨fields, rfl⟩ : tables <:+ body :=
    (suffix_of_readParams hparams).trans ((Decoder.local_word32.suffix hheader).trans
      (Decoder.local_word16.suffix hversion))
  -- where the fields end is found from what each read takes
  have htakesVersion := Decoder.takes_word16 _ _ _ hversion
  have htakesHeader := Decoder.takes_word32 _ _ _ hheader
  have htakesParams := length_of_readParams hparams
  rw [List.length_append] at hbodyLength htakesVersion
  refine ⟨unitLength, fields, after, (List.append_assoc _ _ _).symm,
    by rw [List.length_append, hbodyLength], by omega, ?_, rfl, hsupported, hlength, hrange⟩
  dsimp only
  omega

/-- A header that is read is of a supported version. -/
theorem supportedVersion_of_read {data bytes : Bytes} {preamble : Preamble}
    (h : read data = .ok (preamble, bytes)) : supportedVersion preamble.version = true := by
  obtain ⟨_, _, _, -, -, -, -, -, hsupported, -⟩ := exists_of_read h
  exact hsupported

/-- A header that is read says where in the unit its tables and its program are. -/
theorem read_spans {data bytes : Bytes} {preamble : Preamble}
    (h : read data = .ok (preamble, bytes)) :
    preamble.program.stop ≤ data.length ∧
      preamble.tablesStart + bytes.length = preamble.program.stop ∧
      (data.take preamble.program.stop).drop preamble.tablesStart = bytes := by
  obtain ⟨unitLength, fields, after, rfl, hlength, -, hstart, hstop, -⟩ := exists_of_read h
  rw [List.length_append] at hlength
  have hunit : (bytesOfWord32 unitLength ++ (fields ++ bytes)).length = preamble.program.stop := by
    simp [hstop, hlength]
  refine ⟨by simp [← hunit], by omega, ?_⟩
  rw [List.take_left' hunit, ← List.append_assoc]
  exact List.drop_left' (by simp [hstart])

/-- The tables stand after all fields of the header. -/
theorem le_tablesStart {data bytes : Bytes} {preamble : Preamble}
    (h : read data = .ok (preamble, bytes)) : 15 ≤ preamble.tablesStart := by
  obtain ⟨_, _, _, -, -, hfields, hstart, -⟩ := exists_of_read h
  omega

/-- A header that is read has parameters that can be divided by. -/
theorem params_ne_zero_of_read {data bytes : Bytes} {preamble : Preamble}
    (h : read data = .ok (preamble, bytes)) :
    preamble.params.minimumInstructionLength ≠ 0 ∧ preamble.params.lineRange ≠ 0 := by
  obtain ⟨_, _, _, -, -, -, -, -, -, hparams⟩ := exists_of_read h
  exact hparams

end Preamble

namespace UnitHeader

open Outcome

/-- A header is a preamble and the tables after it, which end before the program starts. -/
theorem exists_of_read {data : Bytes} {header : UnitHeader} (h : read data = .ok header) :
    ∃ preamble bytes tables rest, Preamble.read data = .ok (preamble, bytes) ∧
      Tables.decode preamble.params.opcodeBase bytes = some (tables, rest) ∧
      preamble.program.stop - rest.length ≤ preamble.program.start ∧
      header = {
        version := preamble.version
        unitLength := preamble.unitLength
        headerLength := preamble.headerLength
        params := preamble.params
        operandCounts := tables.operandCounts
        directories := tables.directories
        files := tables.files
        tables := ⟨preamble.tablesStart, preamble.program.stop - rest.length⟩
        program := preamble.program } := by
  unfold read at h
  simp only [bind_eq_ok_iff, throw_bind, ite_throw_eq_ok_iff, orTruncated_eq_ok_iff,
    pure_eq_ok_iff, Prod.exists] at h
  obtain ⟨preamble, bytes, hpreamble, tables, rest, htables, horder, rfl⟩ := h
  exact ⟨preamble, bytes, tables, rest, hpreamble, htables, Nat.not_lt.mp horder, rfl⟩

theorem supportedVersion_of_read {data : Bytes} {header : UnitHeader}
    (h : read data = .ok header) : supportedVersion header.version = true := by
  obtain ⟨preamble, bytes, tables, rest, hpreamble, -, -, rfl⟩ := exists_of_read h
  exact Preamble.supportedVersion_of_read hpreamble

theorem params_ne_zero_of_read {data : Bytes} {header : UnitHeader} (h : read data = .ok header) :
    header.params.minimumInstructionLength ≠ 0 ∧ header.params.lineRange ≠ 0 := by
  obtain ⟨preamble, bytes, tables, rest, hpreamble, -, -, rfl⟩ := exists_of_read h
  exact Preamble.params_ne_zero_of_read hpreamble

/-- All of the program of a header that is read is there. -/
theorem program_stop_le {data : Bytes} {header : UnitHeader} (h : read data = .ok header) :
    header.program.stop ≤ data.length := by
  obtain ⟨preamble, bytes, tables, rest, hpreamble, -, -, rfl⟩ := exists_of_read h
  exact (Preamble.read_spans hpreamble).1

/-- The fields, tables and program of a header that is read stand one after the other. -/
theorem length_spans_le {data : Bytes} {header : UnitHeader} (h : read data = .ok header) :
    15 + header.tables.length + header.program.length ≤ data.length := by
  obtain ⟨preamble, bytes, tables, rest, hpreamble, htables, horder, rfl⟩ := exists_of_read h
  obtain ⟨hstop, hbytes, -⟩ := Preamble.read_spans hpreamble
  have hstart := Preamble.le_tablesStart hpreamble
  have hrest := ((Tables.local_decode _).suffix htables).length_le
  unfold Span.length
  dsimp only
  omega

/-- The tables of a header that is read are the bytes that its span of tables names. -/
theorem reads_tables {data : Bytes} {header : UnitHeader} (h : read data = .ok header) :
    (Tables.decode header.params.opcodeBase).Reads (header.tables.slice data)
      ⟨header.operandCounts, header.directories, header.files⟩ := by
  obtain ⟨preamble, bytes, tables, rest, hpreamble, htables, -, rfl⟩ := exists_of_read h
  obtain ⟨hstop, hstart, hbytes⟩ := Preamble.read_spans hpreamble
  obtain ⟨front, rfl, hfront⟩ := Tables.local_decode _ _ _ _ htables
  rw [List.length_append] at hstart
  -- the range of the tables ends where the reader of the tables stopped
  have hslice : (Span.mk preamble.tablesStart (preamble.program.stop - rest.length)).slice data =
      front := by
    have hlength : preamble.program.stop - rest.length - preamble.tablesStart = front.length := by
      omega
    have hshort : min front.length (preamble.program.stop - preamble.tablesStart) =
        front.length := by omega
    calc (data.drop preamble.tablesStart).take
          (preamble.program.stop - rest.length - preamble.tablesStart)
        = ((data.drop preamble.tablesStart).take
            (preamble.program.stop - preamble.tablesStart)).take front.length := by
          rw [hlength, List.take_take, hshort]
      _ = (front ++ rest).take front.length := by rw [← List.drop_take, hbytes]
      _ = front := List.take_left' rfl
  dsimp only
  rw [hslice]
  exact hfront

/-- A header is read back from its fields and tables, if the program follows at once. -/
theorem read_fields {version : UInt16} (hsupported : supportedVersion version = true)
    (hversion : version ≤ 3) {unitLength headerLength : UInt32} {p : Params}
    {bytes program : Bytes} {tables : Tables} (hwide : unitLength < wideFormatLength)
    (hunit : unitLength.toNat = 11 + (bytes ++ program).length)
    (hheader : headerLength.toNat = 5 + bytes.length) (hlength : p.minimumInstructionLength ≠ 0)
    (hrange : p.lineRange ≠ 0) (htables : (Tables.decode p.opcodeBase).Reads bytes tables) :
    read (bytesOfWord32 unitLength ++ (bytesOfWord16 version ++
        (bytesOfWord32 headerLength ++ (p.bytes ++ (bytes ++ program))))) =
      .ok { version, unitLength, headerLength, params := p, operandCounts := tables.operandCounts,
            directories := tables.directories, files := tables.files,
            tables := ⟨15, 15 + bytes.length⟩,
            program := ⟨15 + bytes.length, 4 + unitLength.toNat⟩ } := by
  have hle : headerLength.toNat ≤ 5 + (bytes ++ program).length := by
    rw [List.length_append]
    omega
  -- the header length points behind the tables, so there is no padding before the program
  have hpreamble := Preamble.read_fields hsupported hversion hwide hunit hle hlength hrange
  rw [List.length_append] at hunit
  have hstop : 4 + unitLength.toNat - program.length = 15 + bytes.length := by omega
  have hstart : 10 + headerLength.toNat = 15 + bytes.length := by omega
  unfold read
  simp only [bind_eq_ok_iff, throw_bind, ite_throw_eq_ok_iff, orTruncated_eq_ok_iff,
    pure_eq_ok_iff, Prod.exists]
  refine ⟨_, _, hpreamble, tables, program, htables program, ?_, ?_⟩
  · rw [hstop, hstart]
    exact Nat.lt_irrefl _
  · rw [hstop, hstart]

end UnitHeader

end DwarfLines
