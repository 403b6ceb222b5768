import DwarfLines.Proofs.Line.Spelling

/-!
# The grammar of headers

A unit is a header, padding and a program. Its header is a run of fields and three tables. `UnitParts`
holds the parts of a unit, `UnitParts.IsUnit` says when they make one, and `UnitParts.header` is the
header that they have. A header is read from a unit, whatever comes after it, and from nothing else.
-/

namespace DwarfLines

open Outcome

/-! ## Items of tables -/

namespace Decoder

variable {α : Type} {d : Decoder α}

/-- What a local decoder accepts is some bytes that it reads, and the rest. -/
theorem Local.eq_some_iff (hd : d.Local) {bytes rest : Bytes} {a : α} :
    d bytes = some (a, rest) ↔ ∃ front, d.Reads front a ∧ bytes = front ++ rest := by
  constructor
  · intro h
    obtain ⟨front, hbytes, hfront⟩ := hd _ _ _ h
    exact ⟨front, hfront, hbytes⟩
  · rintro ⟨front, hfront, rfl⟩
    exact hfront rest

end Decoder

/-- A byte is read exactly from bytes that start with it. -/
theorem Decoder.byte_eq_some_iff {bytes rest : Bytes} {b : UInt8} :
    byte bytes = some (b, rest) ↔ bytes = b :: rest := by
  cases bytes <;> simp [byte]

/-- A number that is read is stored in the bytes that it is read from. -/
theorem Leb128.exists_of_unsigned {bytes rest : Bytes} {n : Nat} (h : unsigned bytes = some (n, rest)) :
    ∃ number, IsNumber number ∧ payload number = n ∧ bytes = number ++ rest := by
  obtain ⟨number, hnumber, rfl⟩ := local_unsigned.eq_some_iff.mp h
  obtain ⟨hisNumber, hpayload⟩ := isNumber_of_unsigned hnumber.whole
  exact ⟨number, hisNumber, hpayload, rfl⟩

/-- Whether some bytes are the name of a directory in a table, and which. -/
inductive SpellsDirectory : Bytes → String → Prop where
  | mk {name : Bytes} : name ≠ [] → 0 ∉ name → SpellsDirectory (name ++ [0]) (Utf8.decodeLossy name)

/-- A directory is read exactly from its spelling. -/
theorem reads_decodeDirectory_iff {bytes : Bytes} {directory : String} :
    decodeDirectory.Reads bytes (some directory) ↔ SpellsDirectory bytes directory := by
  constructor
  · intro h
    obtain ⟨name, rest, hname, hitem⟩ := Decoder.bind_eq_some_iff.mp h.whole
    obtain ⟨rfl, hzero⟩ := Decoder.cstring_eq_some_iff.mp hname
    obtain ⟨hitem, rfl⟩ := Decoder.pure_eq_some_iff.mp hitem
    split at hitem
    · cases hitem
    · rename_i hne
      cases hitem
      exact .mk (by simpa using hne) hzero
  · rintro ⟨hne, hzero⟩
    exact reads_decodeDirectory hne hzero

/-- The directory table is ended by a zero byte only. -/
theorem eq_of_reads_decodeDirectory_none {stop : Bytes} (h : decodeDirectory.Reads stop none) :
    stop = [0] := by
  obtain ⟨name, rest, hname, hitem⟩ := Decoder.bind_eq_some_iff.mp h.whole
  obtain ⟨rfl, hzero⟩ := Decoder.cstring_eq_some_iff.mp hname
  obtain ⟨hitem, rfl⟩ := Decoder.pure_eq_some_iff.mp hitem
  split at hitem
  · rename_i hempty
    rw [List.isEmpty_iff.mp hempty]
    rfl
  · cases hitem

/-- A file entry is read exactly from its spellings. -/
theorem FileEntry.reads_decodeItem_iff {bytes : Bytes} {entry : FileEntry} :
    decodeItem.Reads bytes (some entry) ↔ Spells bytes entry := by
  refine ⟨fun h => ?_, Spells.reads⟩
  -- each operand is one spelling of its number, so the bytes are put together again from the
  -- spellings
  obtain ⟨name, rest, hname, hitem⟩ := Decoder.bind_eq_some_iff.mp h.whole
  obtain ⟨rfl, hzero⟩ := Decoder.cstring_eq_some_iff.mp hname
  split at hitem
  · obtain ⟨hnone, -⟩ := Decoder.pure_eq_some_iff.mp hitem
    cases hnone
  · rename_i hne
    obtain ⟨_, _, hdirectory, hitem⟩ := Decoder.bind_eq_some_iff.mp hitem
    obtain ⟨_, _, hmodified, hitem⟩ := Decoder.bind_eq_some_iff.mp hitem
    obtain ⟨_, _, hsize, hitem⟩ := Decoder.bind_eq_some_iff.mp hitem
    obtain ⟨hentry, rfl⟩ := Decoder.pure_eq_some_iff.mp hitem
    obtain ⟨directoryIndex, hisDirectory, rfl, rfl⟩ := Leb128.exists_of_unsigned hdirectory
    obtain ⟨modified, hisModified, rfl, rfl⟩ := Leb128.exists_of_unsigned hmodified
    obtain ⟨size, hisSize, rfl, rfl⟩ := Leb128.exists_of_unsigned hsize
    cases hentry
    have hspells := Spells.mk (by simpa using hne) hzero hisDirectory hisModified hisSize
    simpa using hspells

/-! ## Tables -/

namespace Tables

/-- Whether some bytes are the tables of a header, and which: the operand counts of the standard
opcodes, the names of directories and the byte that ends them, entries of files and the byte that ends
them. -/
inductive Spells (opcodeBase : UInt8) : Bytes → Tables → Prop where
  | mk {tables : Tables} {directories files : List Bytes} :
      tables.operandCounts.length = opcodeBase.toNat - 1 →
      List.Forall₂ SpellsDirectory directories tables.directories →
      List.Forall₂ FileEntry.Spells files tables.files →
      Spells opcodeBase
        (tables.operandCounts ++ (directories.flatten ++ [0] ++ (files.flatten ++ [0]))) tables

/-- Tables are read from exactly the bytes that spell them. -/
theorem reads_decode_iff {opcodeBase : UInt8} {bytes : Bytes} {tables : Tables} :
    (decode opcodeBase).Reads bytes tables ↔ Spells opcodeBase bytes tables := by
  constructor
  · intro h
    -- the three parts are read one behind the other; `Reads` lets the last one end anywhere
    obtain ⟨counts, rest, hcounts, hall⟩ := Decoder.bind_eq_some_iff.mp h.whole
    obtain ⟨directories, rest', hdirectories, hall⟩ := Decoder.bind_eq_some_iff.mp hall
    obtain ⟨files, rest'', hfiles, hall⟩ := Decoder.bind_eq_some_iff.mp hall
    obtain ⟨rfl, rfl⟩ := Decoder.pure_eq_some_iff.mp hall
    obtain ⟨rfl, hlength⟩ := Decoder.take_eq_some_iff.mp hcounts
    obtain ⟨names, stop, rfl, hnames, hstop⟩ :=
      Decoder.exists_reads_of_table local_decodeDirectory hdirectories
    obtain ⟨entries, stop', rfl, hentries, hstop'⟩ :=
      Decoder.exists_reads_of_table FileEntry.local_decodeItem hfiles
    obtain rfl := eq_of_reads_decodeDirectory_none hstop
    obtain rfl := FileEntry.eq_of_reads_decodeItem_none hstop'
    rw [List.append_nil]
    exact @Spells.mk _ ⟨counts, directories, files⟩ _ _ hlength
      (hnames.imp fun _ _ => reads_decodeDirectory_iff.mp)
      (hentries.imp fun _ _ => FileEntry.reads_decodeItem_iff.mp)
  · rintro ⟨hlength, hdirectories, hfiles⟩
    refine (Decoder.reads_take hlength).bind ?_
    refine (Decoder.reads_table (hdirectories.imp fun _ _ => reads_decodeDirectory_iff.mpr)
      reads_decodeDirectory_stop).bind ?_
    exact (Decoder.reads_table (hfiles.imp fun _ _ => FileEntry.reads_decodeItem_iff.mpr)
      FileEntry.reads_decodeItem_stop).bind_last (.pure _)

/-- The tables are read exactly from bytes that start with a spelling of them. -/
theorem decode_eq_some_iff {opcodeBase : UInt8} {bytes rest : Bytes} {tables : Tables} :
    decode opcodeBase bytes = some (tables, rest) ↔
      ∃ stored, Spells opcodeBase stored tables ∧ bytes = stored ++ rest := by
  simp only [(local_decode opcodeBase).eq_some_iff, reads_decode_iff]

end Tables

/-! ## Fields -/

/-- The parameters of a header as they are stored. Only version 4 has the byte 1 behind the first. -/
def Params.stored (version : UInt16) (p : Params) (statement : UInt8) : Bytes :=
  p.minimumInstructionLength :: (if version = 4 then [1] else []) ++
    [statement, p.lineBase.toUInt8, p.lineRange, p.opcodeBase]

namespace Preamble

/-- The parameters are read exactly from their stored bytes; any nonzero statement flag is read as
true. -/
theorem decodeFields_eq_some_iff {bytes rest : Bytes} {first : UInt8} {p : Params} :
    decodeFields first bytes = some (p, rest) ↔
      ∃ statement, p.minimumInstructionLength = first ∧ p.defaultIsStatement = (statement != 0) ∧
        bytes = [statement, p.lineBase.toUInt8, p.lineRange, p.opcodeBase] ++ rest := by
  constructor
  · intro h
    obtain ⟨statement, _, hstatement, h⟩ := Decoder.bind_eq_some_iff.mp h
    obtain ⟨lineBase, _, hlineBase, h⟩ := Decoder.bind_eq_some_iff.mp h
    obtain ⟨lineRange, _, hlineRange, h⟩ := Decoder.bind_eq_some_iff.mp h
    obtain ⟨opcodeBase, _, hopcodeBase, h⟩ := Decoder.bind_eq_some_iff.mp h
    obtain ⟨rfl, rfl⟩ := Decoder.pure_eq_some_iff.mp h
    obtain rfl := Decoder.byte_eq_some_iff.mp hstatement
    obtain rfl := Decoder.byte_eq_some_iff.mp hlineBase
    obtain rfl := Decoder.byte_eq_some_iff.mp hlineRange
    obtain rfl := Decoder.byte_eq_some_iff.mp hopcodeBase
    exact ⟨statement, rfl, rfl, by simp⟩
  · obtain ⟨first', isStatement, lineBase, lineRange, opcodeBase⟩ := p
    rintro ⟨statement, rfl, rfl, rfl⟩
    show some (_, rest) = some (_, rest)
    rw [Int8.toInt8_toUInt8]

/-- The parameters of either version are read exactly from what they store. -/
theorem readParams_eq_ok_iff {version : UInt16} {bytes rest : Bytes} {p : Params} :
    readParams version bytes = .ok (p, rest) ↔
      ∃ statement, p.defaultIsStatement = (statement != 0) ∧
        bytes = p.stored version statement ++ rest := by
  unfold readParams Params.stored
  -- version 4 stores one byte more, which has to be 1
  by_cases hversion : version = 4
  · simp only [if_pos hversion, bind_eq_ok_iff, throw_bind, ite_throw_eq_ok_iff,
      orTruncated_eq_ok_iff, pure_eq_ok_iff, Prod.exists, Decoder.byte_eq_some_iff]
    constructor
    · rintro ⟨first, _, rfl, operations, _, rfl, hone, _, rfl, hfields⟩
      obtain ⟨statement, rfl, hstatement, rfl⟩ := decodeFields_eq_some_iff.mp hfields
      rw [not_not.mp hone]
      exact ⟨statement, hstatement, rfl⟩
    · rintro ⟨statement, hstatement, rfl⟩
      exact ⟨_, _, rfl, 1, _, rfl, not_not_intro rfl, _, rfl,
        decodeFields_eq_some_iff.mpr ⟨statement, rfl, hstatement, rfl⟩⟩
  · simp only [if_neg hversion, bind_eq_ok_iff, orTruncated_eq_ok_iff, pure_eq_ok_iff, Prod.exists,
      Decoder.byte_eq_some_iff]
    constructor
    · rintro ⟨first, _, rfl, _, rfl, hfields⟩
      obtain ⟨statement, rfl, hstatement, rfl⟩ := decodeFields_eq_some_iff.mp hfields
      exact ⟨statement, hstatement, rfl⟩
    · rintro ⟨statement, hstatement, rfl⟩
      exact ⟨_, _, rfl, _, rfl, decodeFields_eq_some_iff.mpr ⟨statement, rfl, hstatement, rfl⟩⟩

end Preamble

/-! ## Units -/

/-- The versions supported are 2, 3 and 4. -/
theorem supportedVersion_iff {version : UInt16} :
    supportedVersion version = true ↔ 2 ≤ version ∧ version ≤ 4 := by
  simp [supportedVersion]

/-- The parts of a unit. -/
structure UnitParts where
  /-- The length of the unit after this field. -/
  unitLength : UInt32
  version : UInt16
  /-- The length of the header after this field, and of what comes between it and the program. -/
  headerLength : UInt32
  params : Params
  /-- The byte in which the parameters have their flag. -/
  statement : UInt8
  tables : Tables
  /-- The bytes in which the tables are stored. -/
  storedTables : Bytes
  padding : Bytes
  program : Bytes

namespace UnitParts

/-- The fields between the length of the header and the tables. -/
def fields (parts : UnitParts) : Bytes := parts.params.stored parts.version parts.statement

/-- The bytes of the unit behind its fields. -/
def rest (parts : UnitParts) : Bytes := parts.storedTables ++ (parts.padding ++ parts.program)

/-- The bytes of the unit behind its length. -/
def body (parts : UnitParts) : Bytes :=
  bytesOfWord16 parts.version ++ (bytesOfWord32 parts.headerLength ++ (parts.fields ++ parts.rest))

/-- The bytes of the unit. -/
def bytes (parts : UnitParts) : Bytes := bytesOfWord32 parts.unitLength ++ parts.body

/-- What the lengths of version 4 count that those of version 3 do not. -/
def extra (parts : UnitParts) : UInt32 := if parts.version = 4 then 1 else 0

/-- Whether the parts make a unit. -/
structure IsUnit (parts : UnitParts) : Prop where
  /-- The length does not announce the 64-bit format. -/
  narrow : parts.unitLength < wideFormatLength
  whole : parts.unitLength.toNat = parts.body.length
  supported : 2 ≤ parts.version ∧ parts.version ≤ 4
  /-- The program starts where the padding ends. -/
  start : parts.headerLength.toNat =
    parts.fields.length + parts.storedTables.length + parts.padding.length
  statement : parts.params.defaultIsStatement = (parts.statement != 0)
  instructionLength : parts.params.minimumInstructionLength ≠ 0
  lineRange : parts.params.lineRange ≠ 0
  tables : parts.tables.Spells parts.params.opcodeBase parts.storedTables

/-- The part of the header that stands before the tables. -/
def preamble (parts : UnitParts) : Preamble where
  version := parts.version
  unitLength := parts.unitLength - parts.extra
  headerLength := parts.headerLength - parts.extra
  params := parts.params
  tablesStart := 10 + parts.fields.length
  program := ⟨10 + parts.headerLength.toNat, 4 + parts.unitLength.toNat⟩

/-- The header of the unit. -/
def header (parts : UnitParts) : UnitHeader where
  version := parts.version
  unitLength := parts.unitLength - parts.extra
  headerLength := parts.headerLength - parts.extra
  params := parts.params
  operandCounts := parts.tables.operandCounts
  directories := parts.tables.directories
  files := parts.tables.files
  tables := ⟨10 + parts.fields.length, 10 + parts.fields.length + parts.storedTables.length⟩
  program := ⟨10 + parts.headerLength.toNat, 4 + parts.unitLength.toNat⟩

/-- The fields of a unit take at least 5 bytes. -/
theorem five_le_length_fields (parts : UnitParts) : 5 ≤ parts.fields.length := by
  simp only [fields, Params.stored, List.length_cons, List.length_append]
  omega

/-- The body of a unit is its 6 bytes of lengths and version, the fields and the rest. -/
theorem length_body (parts : UnitParts) :
    parts.body.length = 6 + parts.fields.length + parts.rest.length := by
  simp only [body, List.length_append, length_bytesOfWord16, length_bytesOfWord32]
  omega

/-- A preamble is read from any bytes that start with a unit. -/
theorem IsUnit.read_preamble {parts : UnitParts} (h : parts.IsUnit) (after : Bytes) :
    Preamble.read (parts.bytes ++ after) = .ok (parts.preamble, parts.rest) := by
  -- the length field counts what follows it, so every later length follows from it by arithmetic
  have hwhole := h.whole
  rw [length_body] at hwhole
  have hstart := h.start
  have hrest : parts.rest.length =
      parts.storedTables.length + (parts.padding.length + parts.program.length) := by
    simp only [rest, List.length_append]
  have hfields := parts.five_le_length_fields
  have hextra : ¬ parts.headerLength < parts.extra := by
    rw [UInt32.not_lt, UInt32.le_iff_toNat_le]
    have : parts.extra.toNat ≤ 1 := by
      unfold extra
      split <;> decide
    omega
  have htablesStart : 4 + parts.unitLength.toNat - parts.rest.length = 10 + parts.fields.length := by
    omega
  rw [bytes, List.append_assoc]
  unfold Preamble.read
  simp only [bind_eq_ok_iff, throw_bind, ite_throw_eq_ok_iff, ite_else_throw_eq_ok_iff,
    orTruncated_eq_ok_iff, pure_eq_ok_iff, Prod.exists]
  -- the checks are met one by one in the order of the reader
  refine ⟨_, _, Decoder.reads_word32 parts.unitLength _, UInt32.not_le.mpr h.narrow, _, _,
    Decoder.reads_take h.whole.symm after, _, _, Decoder.reads_word16 parts.version _,
    supportedVersion_iff.mpr h.supported, _, _, Decoder.reads_word32 parts.headerLength _, ?_, _, _,
    Preamble.readParams_eq_ok_iff.mpr ⟨parts.statement, h.statement, rfl⟩, hextra,
    h.instructionLength, h.lineRange, ?_⟩
  · rw [List.length_append]
    omega
  · rw [htablesStart]
    rfl

/-- A header is read from any bytes that start with a unit. -/
theorem IsUnit.read_eq {parts : UnitParts} (h : parts.IsUnit) (after : Bytes) :
    UnitHeader.read (parts.bytes ++ after) = .ok parts.header := by
  have hwhole := h.whole
  rw [length_body, rest] at hwhole
  have hstart := h.start
  simp only [List.length_append] at hwhole
  have hstop : 4 + parts.unitLength.toNat - (parts.padding ++ parts.program).length =
      10 + parts.fields.length + parts.storedTables.length := by
    rw [List.length_append]
    omega
  unfold UnitHeader.read
  simp only [bind_eq_ok_iff, throw_bind, ite_throw_eq_ok_iff, orTruncated_eq_ok_iff,
    pure_eq_ok_iff, Prod.exists]
  -- what is left between the tables and the program is the padding of the header length
  refine ⟨_, _, h.read_preamble after, parts.tables, parts.padding ++ parts.program,
    Tables.decode_eq_some_iff.mpr ⟨_, h.tables, rfl⟩, ?_, ?_⟩
  · simp only [preamble]
    rw [hstop]
    omega
  · simp only [preamble, header]
    rw [hstop]

/-- A header is read only from bytes that start with a unit. -/
theorem exists_of_read {data : Bytes} {header : UnitHeader} (h : UnitHeader.read data = .ok header) :
    ∃ (parts : UnitParts) (after : Bytes), parts.IsUnit ∧ data = parts.bytes ++ after ∧
      header = parts.header := by
  obtain ⟨preamble, _, tables, rest, hpreamble, htables, horder, rfl⟩ := UnitHeader.exists_of_read h
  obtain ⟨storedTables, hspells, rfl⟩ := Tables.decode_eq_some_iff.mp htables
  unfold Preamble.read at hpreamble
  simp only [bind_eq_ok_iff, throw_bind, ite_throw_eq_ok_iff, ite_else_throw_eq_ok_iff,
    orTruncated_eq_ok_iff, pure_eq_ok_iff, Prod.exists, Prod.mk.injEq] at hpreamble
  obtain ⟨unitLength, _, hunit, hnarrow, body, after, hbody, version, _, hversion, hsupported,
    headerLength, _, hheader, hfits, p, _, hparams, -, hlength, hrange, rfl, rfl⟩ := hpreamble
  obtain rfl := Decoder.word32_eq_some_iff.mp hunit
  obtain ⟨rfl, hwhole⟩ := Decoder.take_eq_some_iff.mp hbody
  obtain rfl := Decoder.word16_eq_some_iff.mp hversion
  obtain rfl := Decoder.word32_eq_some_iff.mp hheader
  obtain ⟨statement, hstatement, rfl⟩ := Preamble.readParams_eq_ok_iff.mp hparams
  dsimp only at horder hspells
  -- The padding is what is left of the header behind its tables.
  obtain ⟨padding, program, rfl, hpadding⟩ : ∃ padding program, rest = padding ++ program ∧
      headerLength.toNat = (p.stored version statement).length + storedTables.length +
        padding.length := by
    refine ⟨rest.take (headerLength.toNat - (p.stored version statement).length -
      storedTables.length), _, (List.take_append_drop _ rest).symm, ?_⟩
    simp only [List.length_append, length_bytesOfWord16, length_bytesOfWord32] at hwhole hfits
    rw [List.length_take]
    omega
  let parts : UnitParts :=
    { unitLength, version, headerLength, params := p, statement, tables, storedTables, padding,
      program }
  have hisUnit : parts.IsUnit :=
    ⟨UInt32.not_le.mp hnarrow, hwhole.symm, supportedVersion_iff.mp hsupported, hpadding, hstatement,
      hlength, hrange, hspells⟩
  have hdata : bytesOfWord32 unitLength ++ ((bytesOfWord16 version ++ (bytesOfWord32 headerLength ++
      (p.stored version statement ++ (storedTables ++ (padding ++ program))))) ++ after) =
        parts.bytes ++ after := (List.append_assoc _ _ _).symm
  refine ⟨parts, after, hisUnit, hdata, ?_⟩
  rw [hdata, hisUnit.read_eq after] at h
  exact (Except.ok.inj h).symm

end UnitParts

/-- A header is read exactly from the bytes that start with a unit, and it is the header of that unit:
its parameters, its tables, and the places of its tables and its program are those of the parts,
whatever comes after the unit. -/
theorem UnitHeader.read_eq_ok_iff_isUnit {data : Bytes} {header : UnitHeader} :
    read data = .ok header ↔ ∃ (parts : UnitParts) (after : Bytes),
      parts.IsUnit ∧ data = parts.bytes ++ after ∧ header = parts.header := by
  refine ⟨UnitParts.exists_of_read, ?_⟩
  rintro ⟨parts, after, hisUnit, rfl, rfl⟩
  exact hisUnit.read_eq after

end DwarfLines
