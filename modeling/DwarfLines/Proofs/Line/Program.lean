import DwarfLines.Proofs.Line.Assembly
import DwarfLines.Proofs.Line.UnitHeader
import DwarfLines.Proofs.Span

/-!
# Programs are written and read back

Decoding a written unit gives the rows, parameters and tables that it was written with. A program
that was decoded is written back with the files that its instructions define added to its tables, so
the same files are found again.
-/

namespace DwarfLines

open Outcome

/-! ## What a decoded program knows -/

/-- The bytes that a definition keeps are those of its entry, out of the body of the instruction. -/
theorem Extended.reads_of_decodeBody {body stored : Bytes} {entry : FileEntry}
    (h : decodeBody body = some (defineFile stored entry)) :
    stored <:+: body ∧ FileEntry.decodeItem.Reads stored (some entry) := by
  cases body with
  | nil => cases h
  | cons opcode operands =>
    simp only [decodeBody] at h
    -- `define_file` is the third extended opcode; the others store nothing
    split at h
    case h_1 | h_5 => cases h
    case h_2 | h_4 =>
      obtain ⟨_, -, h⟩ := Option.map_eq_some_iff.mp h
      cases h
    case h_3 =>
      obtain ⟨⟨item, rest⟩, hitem, h⟩ := Option.map_eq_some_iff.mp h
      cases item with
      | none => cases h
      | some entry' =>
        cases h
        obtain ⟨front, rfl, hfront⟩ := FileEntry.local_decodeItem _ _ _ hitem
        rw [List.length_append, Nat.add_sub_cancel, List.take_left]
        exact ⟨⟨[opcode], rest, rfl⟩, hfront⟩

namespace Instruction

/-- No standard opcode defines a file. -/
theorem definition?_of_decodeStandard {operandCounts bytes rest : Bytes} {opcode : UInt8}
    {instruction : Instruction}
    (h : decodeStandard operandCounts opcode bytes = some (instruction, rest)) :
    instruction.definition? = none := by
  unfold decodeStandard at h
  split at h
  case h_1 | h_6 | h_7 =>
    cases h
    rfl
  all_goals
    obtain ⟨_, -, rfl⟩ := Decoder.map_eq_some_iff.mp h
    rfl

/-- An instruction that defines a file ends in a body that decodes to the definition. -/
theorem exists_body_of_definition? {set : InstructionSet} {bytes rest stored : Bytes}
    {instruction : Instruction} {entry : FileEntry}
    (h : decode set bytes = some (instruction, rest))
    (hdefinition : instruction.definition? = some (stored, entry)) :
    ∃ body, Extended.decodeBody body = some (.defineFile stored entry) ∧ body ++ rest <:+ bytes := by
  obtain ⟨opcode, rest₁, hopcode, h⟩ := Decoder.bind_eq_some_iff.mp h
  unfold decodeAfter at h
  -- only an extended instruction can define a file
  split at h
  · obtain ⟨rfl, -⟩ := Decoder.pure_eq_some_iff.mp h
    cases hdefinition
  · split at h
    · obtain ⟨operands, rest₂, hoperands, h⟩ := Decoder.bind_eq_some_iff.mp h
      obtain ⟨rfl, rfl⟩ := Decoder.pure_eq_some_iff.mp h
      cases operands with
      | defineFile stored' entry' =>
        cases hdefinition
        obtain ⟨length, rest₃, hlength, h⟩ := Decoder.bind_eq_some_iff.mp hoperands
        split at h
        · cases (Decoder.pure_eq_some_iff.mp h).1
        · obtain ⟨body, rest₄, htake, h⟩ := Decoder.bind_eq_some_iff.mp h
          obtain ⟨hbody, rfl⟩ := Decoder.lift_eq_some_iff.mp h
          obtain ⟨rfl, -⟩ := Decoder.take_eq_some_iff.mp htake
          exact ⟨body, hbody,
            (Leb128.local_unsigned.suffix hlength).trans (Decoder.local_byte.suffix hopcode)⟩
      | _ => cases hdefinition
    · rw [definition?_of_decodeStandard h] at hdefinition
      cases hdefinition

/-- Each definition of a program comes with the bytes of its entry. -/
theorem forall₂_reads_definitions {set : InstructionSet} {bytes : Bytes}
    {instructions : List Instruction} {complete : Bool}
    (h : scan set bytes = (instructions, complete)) :
    List.Forall₂ (fun front a => FileEntry.decodeItem.Reads front (some a))
      ((instructions.filterMap definition?).map (·.1))
      ((instructions.filterMap definition?).map (·.2)) := by
  rw [List.forall₂_map_left_iff, List.forall₂_map_right_iff, List.forall₂_same]
  -- the definitions come in the order of the scan
  fun_induction scan set bytes generalizing instructions with
  | case1 =>
    cases h
    simp
  | case2 =>
    cases h
    simp
  | case3 bytes hne instruction rest hi instructions' complete' hrest ih =>
    cases h
    rintro ⟨stored, entry⟩ hmem
    rcases List.mem_filterMap.mp hmem with ⟨i, hi', hdefinition⟩
    rcases List.mem_cons.mp hi' with rfl | hi'
    · obtain ⟨body, hbody, -⟩ := exists_body_of_definition? hi hdefinition
      exact (Extended.reads_of_decodeBody hbody).2
    · exact ih hrest _ (List.mem_filterMap.mpr ⟨i, hi', hdefinition⟩)

end Instruction

/-- A definition is added to the file table before its stop byte. -/
theorem extendTables_concat (tables added : Bytes) :
    extendTables (tables ++ [0]) added = tables ++ added ++ [0] := by
  unfold extendTables
  split
  · rename_i h
    rw [List.isEmpty_iff.mp h, List.append_nil]
  · rw [List.dropLast_concat]

/-- Entries may be put in front of the byte that ends a file table. -/
theorem Tables.reads_extendTables {opcodeBase : UInt8} {bytes : Bytes} {tables : Tables}
    (h : (decode opcodeBase).Reads bytes tables) {stored : List Bytes} {entries : List FileEntry}
    (hentries : List.Forall₂ (fun front a => FileEntry.decodeItem.Reads front (some a))
      stored entries) :
    (decode opcodeBase).Reads (extendTables bytes stored.flatten)
      { tables with files := tables.files ++ entries } := by
  obtain ⟨counts, rest₁, hcounts, h⟩ := Decoder.bind_eq_some_iff.mp h.whole
  obtain ⟨directories, rest₂, hdirectories, h⟩ := Decoder.bind_eq_some_iff.mp h
  obtain ⟨files, rest₃, hfiles, h⟩ := Decoder.bind_eq_some_iff.mp h
  obtain ⟨rfl, rfl⟩ := Decoder.pure_eq_some_iff.mp h
  -- the tables are cut into the counts, the directories and the files, and the new files go before
  -- the stop
  obtain ⟨xs, rfl, hxs⟩ := Decoder.local_take _ _ _ _ hcounts
  obtain ⟨ys, rfl, hys⟩ := Decoder.local_table local_decodeDirectory _ _ _ hdirectories
  obtain ⟨fronts, stop, rfl, hfronts, hstop⟩ :=
    Decoder.exists_reads_of_table FileEntry.local_decodeItem hfiles
  obtain rfl := FileEntry.eq_of_reads_decodeItem_none hstop
  have hextend : extendTables (xs ++ (ys ++ (fronts.flatten ++ [0] ++ []))) stored.flatten =
      xs ++ (ys ++ ((fronts ++ stored).flatten ++ [0])) := by
    have hconcat : xs ++ (ys ++ (fronts.flatten ++ [0] ++ [])) =
        (xs ++ ys ++ fronts.flatten) ++ [0] := by simp
    rw [hconcat, extendTables_concat]
    simp
  rw [hextend]
  refine hxs.bind (hys.bind (Decoder.Reads.bind_last ?_ (.pure _)))
  exact Decoder.reads_table (List.rel_append hfronts hentries) FileEntry.reads_decodeItem_stop

/-- A unit is decoded if its header can be read and all of its program can. -/
theorem Program.decode_eq_ok_iff {data : Bytes} {program : Program} :
    decode data = .ok program ↔
      ∃ header bytes instructions, UnitHeader.read data = .ok header ∧
        header.program.slice? data = some bytes ∧
        Instruction.scan header.instructionSet bytes = (instructions, true) ∧
        program = {
          header
          rows := Instruction.run header.params (.initial header.params.defaultIsStatement)
            instructions
          files := header.files ++ (instructions.filterMap Instruction.definition?).map (·.2)
          tables := extendTables (header.tables.slice data)
            ((instructions.filterMap Instruction.definition?).flatMap (·.1)) } := by
  unfold decode UnitHeader.instructions?
  simp only [bind_eq_ok_iff, throw_bind, ite_else_throw_eq_ok_iff, orTruncated_eq_ok_iff,
    pure_eq_ok_iff, Prod.exists, Option.map_eq_some_iff]
  constructor
  · rintro ⟨header, hheader, instructions, _, ⟨bytes, hbytes, hscan⟩, rfl, rfl⟩
    exact ⟨header, bytes, instructions, hheader, hbytes, hscan, rfl⟩
  · rintro ⟨header, bytes, instructions, hheader, hbytes, hscan, rfl⟩
    exact ⟨header, hheader, instructions, true, ⟨bytes, hbytes, hscan⟩, rfl, rfl⟩

/-- The tables of a decoded program hold all its files, those of its instructions included. -/
theorem Program.reads_tables {data : Bytes} {program : Program} (h : decode data = .ok program) :
    (Tables.decode program.header.params.opcodeBase).Reads program.tables
      ⟨program.header.operandCounts, program.header.directories, program.files⟩ := by
  obtain ⟨header, bytes, instructions, hheader, -, hscan, rfl⟩ := decode_eq_ok_iff.mp h
  have hdefinitions := Instruction.forall₂_reads_definitions hscan
  have htables := Tables.reads_extendTables (UnitHeader.reads_tables hheader) hdefinitions
  rwa [← List.flatMap_def] at htables

/-! ## Writing and reading back -/

/-- The instructions of a written unit as bytes. -/
def programBytes (p : Params) (rows : List Row) : Bytes :=
  (Row.assembleAll p (.initial p.defaultIsStatement) rows).flatMap Instruction.encode

/-- A unit can be written exactly when the parameters allow it, the last row ends a sequence and the
lengths fit their fields, and then it is its length, its header, its tables and its program. -/
theorem encodeUnit_eq_ok_iff {version : UInt16} {p : Params} {tables unit : Bytes}
    {rows : List Row} :
    encodeUnit version p tables rows = .ok unit ↔
      p.fault? = none ∧ endsSequence rows = true ∧ ∃ headerLength unitLength : UInt32,
        headerLength.toNat = 5 + tables.length ∧
        unitLength.toNat = 11 + (tables ++ programBytes p rows).length ∧
        unit = bytesOfWord32 unitLength ++ (bytesOfWord16 (min version 3) ++
          (bytesOfWord32 headerLength ++ (p.bytes ++ (tables ++ programBytes p rows)))) := by
  unfold encodeUnit programBytes
  dsimp only
  generalize (Row.assembleAll p (.initial p.defaultIsStatement) rows).flatMap Instruction.encode =
    program
  have hparams : p.bytes.length = 5 := rfl
  have hbody (headerLength : UInt32) : (bytesOfWord16 (min version 3) ++
      (bytesOfWord32 headerLength ++ (p.bytes ++ (tables ++ program)))).length =
        11 + (tables ++ program).length := by
    simp only [List.length_append, length_bytesOfWord16, length_bytesOfWord32, hparams]
    omega
  simp only [hparams, List.append_assoc]
  constructor
  · intro h
    split at h
    · cases h
    · rename_i hfault
      simp only [throw_bind, ite_else_throw_eq_ok_iff] at h
      obtain ⟨hends, h⟩ := h
      split at h
      · rename_i headerLength hheader
        split at h
        · rename_i unitLength hunit
          cases h
          rw [word32?_eq_some_iff, hbody] at hunit
          exact ⟨Option.eq_none_iff_forall_ne_some.mpr hfault, hends, headerLength, unitLength,
            word32?_eq_some_iff.mp hheader, hunit, rfl⟩
        · cases h
      · cases h
  · rintro ⟨hfault, hends, headerLength, unitLength, hheader, hunit, rfl⟩
    rw [← word32?_eq_some_iff] at hheader
    rw [← hbody headerLength, ← word32?_eq_some_iff] at hunit
    simp only [hfault, hends, hheader, hunit, if_true]
    rfl

/-- The parameters have no fault exactly where the encoder can use them. -/
theorem fault?_eq_none_iff {p : Params} :
    p.fault? = none ↔
      p.minimumInstructionLength ≠ 0 ∧ p.lineRange ≠ 0 ∧ 9 ≤ p.opcodeBase := by
  have hbase : 9 ≤ p.opcodeBase ↔ ¬ p.opcodeBase ≤ 8 := by
    rw [UInt8.not_le, UInt8.le_iff_toNat_le, UInt8.lt_iff_toNat_lt]
    exact Nat.succ_le_iff
  unfold Params.fault?
  split
  · rename_i h
    simp only [reduceCtorEq, false_iff]
    tauto
  · rename_i h
    split <;> simp_all

/-- The version that is written is one the parser supports. -/
theorem supportedVersion_min {version : UInt16} (h : 2 ≤ version) :
    supportedVersion (min version 3) = true := by
  have hmin : min version 3 = if version ≤ 3 then version else 3 := rfl
  rw [hmin, supportedVersion]
  split
  · rename_i hle
    have : version ≤ 4 := UInt16.le_trans hle (by decide)
    simp [h, this]
  · rfl

/-- The version that is written is at most 3. -/
theorem min_three_le (version : UInt16) : min version 3 ≤ 3 := by
  have hmin : min version 3 = if version ≤ 3 then version else 3 := rfl
  rw [hmin]
  split
  · assumption
  · exact UInt16.le_refl 3

/-- Instructions the encoder emits define no files. -/
theorem filterMap_definition?_of_fits {set : InstructionSet} {instructions : List Instruction}
    (h : ∀ i ∈ instructions, i.Fits set) : instructions.filterMap Instruction.definition? = [] := by
  rw [List.filterMap_eq_nil_iff]
  intro i hi
  have hfits := h i hi
  unfold Instruction.definition?
  split
  · exact hfits.elim
  · rfl

/-- Whatever a unit is written from is decoded again. -/
theorem decode_of_encodeUnit {version : UInt16} {p : Params} {bytes unit : Bytes} {tables : Tables}
    {rows : List Row} (hversion : 2 ≤ version)
    (htables : (Tables.decode p.opcodeBase).Reads bytes tables)
    (h : encodeUnit version p bytes rows = .ok unit)
    (hwide : 11 + (bytes ++ programBytes p rows).length < wideFormatLength.toNat) :
    ∃ program, Program.decode unit = .ok program ∧ program.rows = rows ∧
      program.tables = bytes ∧ program.header.version = min version 3 ∧
      program.header.params = p ∧ program.header.operandCounts = tables.operandCounts ∧
      program.header.directories = tables.directories ∧ program.header.files = tables.files ∧
      program.files = tables.files := by
  obtain ⟨hfault, -, headerLength, unitLength, hheader, hunit, rfl⟩ := encodeUnit_eq_ok_iff.mp h
  obtain ⟨hlength, hrange, hbase⟩ := fault?_eq_none_iff.mp hfault
  have hread := UnitHeader.read_fields (supportedVersion_min hversion) (min_three_le version)
    (UInt32.lt_iff_toNat_lt.mpr (by rwa [hunit])) hunit hheader hlength hrange htables
  -- The unit is its fields, its tables and its program, where the header says they are.
  generalize hfields : bytesOfWord32 unitLength ++ (bytesOfWord16 (min version 3) ++
    (bytesOfWord32 headerLength ++ p.bytes)) = fields
  have hfieldsLength : fields.length = 15 := by
    rw [← hfields]
    simp [Params.bytes]
  have hsplit : bytesOfWord32 unitLength ++ (bytesOfWord16 (min version 3) ++
      (bytesOfWord32 headerLength ++ (p.bytes ++ (bytes ++ programBytes p rows)))) =
        fields ++ (bytes ++ (programBytes p rows ++ [])) := by
    rw [← hfields]
    simp
  rw [hsplit] at hread ⊢
  have hprogram : (Span.mk (15 + bytes.length) (4 + unitLength.toNat)).slice?
      (fields ++ (bytes ++ (programBytes p rows ++ []))) = some (programBytes p rows) := by
    rw [List.length_append] at hunit
    rw [Span.slice?, if_pos (by simp [hfieldsLength, hunit]; omega), ← List.append_assoc]
    exact congrArg some (Span.slice_append [] (by simp [hfieldsLength])
      (by simp [hfieldsLength, hunit]; omega))
  have htablesSlice : (Span.mk 15 (15 + bytes.length)).slice
      (fields ++ (bytes ++ (programBytes p rows ++ []))) = bytes :=
    Span.slice_append _ hfieldsLength.symm (by rw [hfieldsLength])
  have hfits : ∀ i ∈ Row.assembleAll p (.initial p.defaultIsStatement) rows,
      i.Fits ⟨p.opcodeBase, tables.operandCounts⟩ := Instruction.fits_assembleAll _ rows rfl
  have hscan := Instruction.scan_flatMap_encode hbase hfits
  refine ⟨_, Program.decode_eq_ok_iff.mpr ⟨_, _, _, hread, hprogram, hscan, rfl⟩, ?_⟩
  rw [filterMap_definition?_of_fits hfits, htablesSlice]
  exact ⟨Instruction.run_assembleAll _ rows rfl, rfl, rfl, rfl, rfl, rfl, rfl, List.append_nil _⟩

/-- A number below 2 ^ 32 is the value of a word. -/
theorem exists_word32 {n : Nat} (h : n < 2 ^ 32) : ∃ w : UInt32, w.toNat = n :=
  ⟨UInt32.ofNat n, by rw [UInt32.toNat_ofNat', Nat.mod_eq_of_lt h]⟩

/-- Writing a version a second time changes nothing. -/
theorem min_min_three (version : UInt16) : min (min version 3) 3 = min version 3 := by
  have hmin (v : UInt16) : min v 3 = if v ≤ 3 then v else 3 := rfl
  rw [hmin (min version 3), if_pos (min_three_le version)]

/-- A decoded program is written as it would be with the version of its header. -/
theorem Program.encode_eq_ok_iff {program : Program} {version : UInt16}
    (h : program.header.version = min version 3) (rows : List Row) (unit : Bytes) :
    program.encode rows = .ok unit ↔
      encodeUnit version program.header.params program.tables rows = .ok unit := by
  rw [encode, UnitHeader.outputVersion, h, encodeUnit_eq_ok_iff, encodeUnit_eq_ok_iff,
    min_min_three, min_min_three]

/-- Rows that end with the end of a sequence can be written with any parameters that a program can be
written for, into a unit of any size that the 32-bit format has; the unit decodes to these rows,
parameters and tables, and is written again from them byte for byte. -/
theorem encodeUnit_round_trip {version : UInt16} {p : Params} {tables : Bytes} {rows : List Row}
    (hversion : 2 ≤ version) (hlength : p.minimumInstructionLength ≠ 0) (hrange : p.lineRange ≠ 0)
    (hbase : 9 ≤ p.opcodeBase) (htables : Tables.IsStored p.opcodeBase tables)
    (hrows : ∀ last ∈ rows.getLast?, last.endSequence = true)
    (hwide : 11 + (tables ++ programBytes p rows).length < 0xfffffff0) :
    ∃ unit program, encodeUnit version p tables rows = .ok unit ∧
      Program.decode unit = .ok program ∧ program.rows = rows ∧ program.header.params = p ∧
      program.tables = tables ∧ program.header.version = min version 3 ∧
      program.encode program.rows = .ok unit := by
  obtain ⟨parsed, hparsed⟩ := htables.exists_reads
  have hends : endsSequence rows = true := by
    unfold endsSequence
    cases hlast : rows.getLast? with
    | none => rfl
    | some last => exact hrows last hlast
  have htablesLength : tables.length ≤ (tables ++ programBytes p rows).length := by simp
  obtain ⟨headerLength, hheader⟩ := exists_word32 (n := 5 + tables.length) (by omega)
  obtain ⟨unitLength, hunit⟩ :=
    exists_word32 (n := 11 + (tables ++ programBytes p rows).length) (by omega)
  have hencode : encodeUnit version p tables rows = .ok _ :=
    encodeUnit_eq_ok_iff.mpr ⟨fault?_eq_none_iff.mpr ⟨hlength, hrange, hbase⟩, hends, headerLength,
      unitLength, hheader, hunit, rfl⟩
  obtain ⟨program, hdecode, hrows', htables', hversion', hparams, -⟩ :=
    decode_of_encodeUnit hversion hparsed hencode hwide
  refine ⟨_, program, hencode, hdecode, hrows', hparams, htables', hversion', ?_⟩
  rw [Program.encode_eq_ok_iff hversion', hrows', hparams, htables']
  exact hencode

/-- Parameters whose special opcodes cannot leave the line as it is. -/
def steepParams : Params :=
  { minimumInstructionLength := 2, defaultIsStatement := true, lineBase := 3, lineRange := 200,
    opcodeBase := 9 }

/-- Tables with one directory and one file. -/
def smallTables : Bytes := [0, 1, 1, 1, 1, 0, 0, 0] ++ [97, 0, 0] ++ [98, 0, 1, 0, 0x80, 1, 0]

/-- Rows that go back, to an odd address, and far on. -/
def jumpingRows : List Row :=
  [{ Row.initial true with address := 0x1000, line := 1 },
   { Row.initial true with address := 0x1002, line := 205, column := 7 },
   { Row.initial false with address := 0x3, line := -2147483648, discriminator := 300 },
   { Row.initial true with address := 0xffffffff, line := 2147483647, endSequence := true }]

/-- The round trip at rows whose addresses and lines jump both ways. -/
theorem encodeUnit_round_trip_jumpingRows :
    Tables.IsStored steepParams.opcodeBase smallTables ∧
      (∀ last ∈ jumpingRows.getLast?, last.endSequence = true) ∧
      11 + (smallTables ++ programBytes steepParams jumpingRows).length < 0xfffffff0 ∧
      ∃ unit program, encodeUnit 4 steepParams smallTables jumpingRows = .ok unit ∧
        Program.decode unit = .ok program ∧ program.rows = jumpingRows ∧
        program.header.params = steepParams ∧ program.tables = smallTables ∧
        program.header.version = min 4 3 ∧ program.encode program.rows = .ok unit := by
  have htables : Tables.IsStored steepParams.opcodeBase smallTables := by
    refine ⟨[0, 1, 1, 1, 1, 0, 0, 0], [[97]], [[98, 0, 1, 0, 0x80, 1]], rfl, by decide, ?_, rfl⟩
    rw [List.forall_mem_singleton]
    exact ⟨[98], [1], [0], [0x80, 1], by decide, by decide,
      ⟨.last (by decide), by decide, by decide⟩, ⟨.last (by decide), by decide, by decide⟩,
      ⟨.more (by decide) (.last (by decide)), by decide, by decide⟩, rfl⟩
  have hrows : ∀ last ∈ jumpingRows.getLast?, last.endSequence = true := by decide
  have hwide : 11 + (smallTables ++ programBytes steepParams jumpingRows).length < 0xfffffff0 := by
    decide +kernel
  exact ⟨htables, hrows, hwide, encodeUnit_round_trip (by decide) (by decide) (by decide)
    (by decide) htables hrows hwide⟩

end DwarfLines
