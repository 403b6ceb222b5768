import DwarfLines.Proofs.Guarded.Reader
import DwarfLines.Proofs.Line.UnitHeader

/-!
# Unit headers within bounds

The header of a line program is read with the lengths that it gives taken at their word, and the
numbers in it that later divide are checked.
-/

namespace DwarfLines

open Guarded

/-- The directory with a given number, counted from 1. That of the compilation has none. -/
def directoryAt (directories : List String) : Nat → Guarded DebugError (Option String)
  | 0 => return none
  | number => do
    let index ← sub number 1
    return directories[index]?

namespace Scan

/-- Reads the name of a directory; an empty name ends the table. -/
def directory : Scan (Option String) := do
  let name ← cstring
  return if name.isEmpty then none else some (Utf8.decodeLossy name)

/-- Reads an entry of a file table and looks up its directory; an empty name ends the table. -/
def fileEntry (directories : List String) : Scan (Option FileEntry) := do
  let name ← cstring
  if name.isEmpty then return none
  let directoryIndex ← unsigned
  let modified ← unsigned
  let size ← unsigned
  let _directory ← lift (directoryAt directories directoryIndex)
  return some { name := Utf8.decodeLossy name, directoryIndex, modified, size }

end Scan

/-- The directory of a file is looked up within bounds. -/
theorem directoryAt_eq (directories : List String) (number : Nat) :
    directoryAt directories number = pure (numbered? directories number) := by
  cases number with
  | zero => rfl
  | succ index =>
    show sub (index + 1) 1 >>= _ = _
    rw [sub_eq (Nat.le_add_left _ _), pure_bind]
    rfl

/-- Scanning a directory reads what decoding one does. -/
theorem Scan.decodes_directory : directory.Decodes decodeDirectory :=
  decodes_cstring.bind fun _ => .pure _

/-- Scanning a file entry reads what decoding one does. -/
theorem Scan.decodes_fileEntry (directories : List String) :
    (fileEntry directories).Decodes FileEntry.decodeItem := by
  refine decodes_cstring.bind fun name => .ite (fun _ => .pure _) fun _ => ?_
  refine decodes_unsigned.bind fun directoryIndex => decodes_unsigned.bind fun modified =>
    decodes_unsigned.bind fun size => ?_
  exact .lift (directoryAt_eq directories directoryIndex) (.pure _)

namespace Preamble

/-- Reads the byte that only version 4 has, and takes it off the lengths. -/
def scanOperations (version : UInt16) (unitLength headerLength : UInt32) :
    Scan (UInt32 × UInt32) := do
  if version ≠ 4 then return (unitLength, headerLength)
  let operations ← Scan.byte
  if operations ≠ 1 then throw (.invalidHeader .operationsPerInstruction)
  let unitLength ← Scan.lift (subWord unitLength 1)
  if headerLength < 1 then throw .truncated
  return (unitLength, headerLength - 1)

/-- Reads the parameters other than the first. -/
def scanFields (minimumInstructionLength : UInt8) : Scan Params := do
  let defaultIsStatement := (← Scan.byte) != 0
  let lineBase := (← Scan.byte).toInt8
  let lineRange ← Scan.byte
  let opcodeBase ← Scan.byte
  return { minimumInstructionLength, defaultIsStatement, lineBase, lineRange, opcodeBase }

/-- Reads the parameters, and takes from the lengths what only version 4 has. -/
def scanParams (version : UInt16) (unitLength headerLength : UInt32) :
    Scan (Params × UInt32 × UInt32) := do
  let minimumInstructionLength ← Scan.byte
  let lengths ← scanOperations version unitLength headerLength
  let params ← scanFields minimumInstructionLength
  return (params, lengths)

/-- Reads a preamble. -/
def scan (data : Bytes) : Guarded DebugError (Preamble × Reader) := do
  let (unitLength, r) ← Scan.word32 (.ofBytes data)
  if wideFormatLength ≤ unitLength then throw .wideFormat
  let r ← r.bounded unitLength.toNat
  let (version, r) ← Scan.word16 r
  unless supportedVersion version do throw (.unsupportedVersion version)
  let (headerLength, r) ← Scan.word32 r
  let start := r.position + headerLength.toNat
  if 2 ^ 64 ≤ start ∨ r.stop < start then throw .truncated
  let ((params, unitLength, headerLength), r) ← scanParams version unitLength headerLength r
  if params.minimumInstructionLength = 0 then throw (.invalidHeader .zeroInstructionLength)
  if params.lineRange = 0 then throw (.invalidHeader .zeroLineRange)
  return ({ version, params, unitLength, headerLength, tablesStart := r.position,
            program := ⟨start, r.stop⟩ }, r)

/-- The byte that only version 4 has. -/
def extra (version : UInt16) : UInt32 := if version = 4 then 1 else 0

/-- The parameters other than the first, without bounds. -/
def fields (minimumInstructionLength : UInt8) : Decoder Params := do
  let defaultIsStatement := (← Decoder.byte) != 0
  let lineBase := (← Decoder.byte).toInt8
  let lineRange ← Decoder.byte
  let opcodeBase ← Decoder.byte
  return { minimumInstructionLength, defaultIsStatement, lineBase, lineRange, opcodeBase }

/-- Scanning the parameters reads what decoding them does. -/
theorem decodes_scanFields (minimumInstructionLength : UInt8) :
    (scanFields minimumInstructionLength).Decodes (fields minimumInstructionLength) :=
  Scan.decodes_byte.bind fun _ => Scan.decodes_byte.bind fun _ => Scan.decodes_byte.bind fun _ =>
    Scan.decodes_byte.bind fun _ => .pure _

/-- Where both outcomes are a truncated header, the reading does not matter. -/
theorem orTruncated_bind_throw {α β : Type} (o : Option α) :
    (orTruncated o >>= fun _ => throw .truncated : Except DebugError β) = throw .truncated := by
  cases o <;> rfl

/-- Scanning the parameters agrees with reading them, and leaves the lengths that version 4 shortens
by one. -/
theorem agrees_scanParams {r : Reader} (hr : r.Valid) {version : UInt16}
    {unitLength headerLength : UInt32} (hlength : 1 ≤ unitLength) :
    Agrees (fun p q => p.1 = (q.1, unitLength - extra version, headerLength - extra version) ∧
        r.Leads p.2 q.2)
      (scanParams version unitLength headerLength r)
      (readParams version r.rest >>= fun q =>
        if headerLength < extra version then throw .truncated else pure q) := by
  unfold scanParams readParams
  rw [bind_assoc]
  refine Scan.decodes_byte.agrees_bind hr fun minimumInstructionLength r₁ hr₁ hdata₁ hstop₁ _ => ?_
  have hleads₁ : r.Leads r₁ r₁.rest := ⟨hr₁, hdata₁, hstop₁, rfl⟩
  -- version 4 has one more byte, which both lengths count: the source takes it off them
  by_cases hversion : version = 4
  · have hextra : extra version = 1 := if_pos hversion
    simp only [scanOperations, hversion, ne_eq, not_true_eq_false, if_false, if_true, bind_assoc]
    refine Scan.decodes_byte.agrees_bind hr₁ fun operations r₂ hr₂ hdata₂ hstop₂ _ => ?_
    have hleads₂ : r.Leads r₂ r₂.rest := hleads₁.trans ⟨hr₂, hdata₂, hstop₂, rfl⟩
    by_cases hone : operations = 1
    · have hsub : subWord unitLength 1 = (pure (unitLength - 1) : Guarded DebugError UInt32) :=
        subWord_eq hlength
      rw [← hversion, hextra]
      simp only [hone, not_true_eq_false, if_false, pure_bind, hsub]
      -- the program asks for room after it has read the byte, the source before it
      by_cases hshort : headerLength < 1
      · simp only [hshort, if_true, orTruncated_bind_throw]
        exact .throw _
      · simp only [hshort, if_false, bind_pure]
        refine (decodes_scanFields minimumInstructionLength _ hr₂).reshape ?_
        rintro ⟨params, r₃⟩ ⟨_, _⟩ - ⟨rfl, hleads⟩
        exact ⟨rfl, hleads₂.trans hleads⟩
    · simp only [hone, not_false_eq_true, if_true]
      exact .throw _
  · have hextra : extra version = 0 := if_neg hversion
    have hoperations : scanOperations version unitLength headerLength =
        pure (unitLength, headerLength) := if_pos hversion
    simp only [hoperations, pure_bind, if_neg hversion, hextra, UInt32.not_lt_zero, if_false,
      bind_pure]
    refine (decodes_scanFields minimumInstructionLength _ hr₁).reshape ?_
    rintro ⟨params, r₂⟩ ⟨_, _⟩ - ⟨rfl, hleads⟩
    exact ⟨by simp, hleads₁.trans hleads⟩

/-- Where a reader is behind a preamble, and what the preamble was checked for. -/
structure Leaves (data : Bytes) (preamble : Preamble) (r : Reader) : Prop where
  valid : r.Valid
  data_eq : r.data = data
  stop_eq : r.stop = preamble.program.stop
  position_eq : r.position = preamble.tablesStart
  start_le : preamble.program.start ≤ preamble.program.stop
  lineRange_ne : preamble.params.lineRange ≠ 0

/-- Scanning a preamble agrees with reading it, and leaves the reader inside the header. -/
theorem agrees_scan {data : Bytes} (hdata : data.length < 2 ^ 64) :
    Agrees (fun p q => p.1 = q.1 ∧ q.1.Leaves data p.2 ∧ p.2.rest = q.2) (scan data)
      (read data) := by
  have hvalid := Reader.valid_ofBytes hdata
  have hread : read data = read (Reader.ofBytes data).rest := by rw [Reader.rest_ofBytes]
  -- the reader's bytes are the data, so the fields are read one by one on both sides
  rw [hread]
  unfold scan read
  refine Scan.decodes_word32.agrees_bind hvalid fun unitLength r hr hdata hstop hlength => ?_
  have hposition := Scan.position_of_takes Decoder.takes_word32 hvalid hr hstop hlength
  refine .check fun hwide => ?_
  refine (hr.agrees_bounded _).bind ?_
  rintro unit ⟨_, _⟩ - ⟨hunit, rfl, rfl⟩
  refine Scan.decodes_word16.agrees_bind hunit fun version r₁ hr₁ hdata₁ hstop₁ hversion => ?_
  have hposition₁ := Scan.position_of_takes Decoder.takes_word16 hunit hr₁ hstop₁ hversion
  refine .check_not fun hsupported => ?_
  refine Scan.decodes_word32.agrees_bind hr₁ fun headerLength r₂ hr₂ hdata₂ hstop₂ hheader => ?_
  have hposition₂ := Scan.position_of_takes Decoder.takes_word32 hr₁ hr₂ hstop₂ hheader
  dsimp -zeta only at *
  -- all three fields are read: the reader stands 10 bytes behind the start
  have hle := hr₂.position_le
  have hremaining := hr₂.length_rest
  have hlt := hr₂.stop_lt
  rw [Reader.remaining] at hremaining
  refine .check_iff (by omega) fun hstart => .bind_check (agrees_scanParams hr₂ ?_) ?_
  · rw [UInt32.le_iff_toNat_le]
    show 1 ≤ unitLength.toNat
    omega
  · rintro ⟨⟨params, _⟩, r₃⟩ ⟨_, tables⟩ - - ⟨hparams, hleads⟩
    cases hparams
    refine .check fun _ => .check fun hrange => .pure ?_
    dsimp only at hleads hrange ⊢
    obtain ⟨hr₃, hdata₃, hstop₃, rfl⟩ := hleads
    -- from here on the two sides are told apart by arithmetic only: where the reader stands, and
    -- where it has to stop
    have hposition₃ : r₃.position = r₃.stop - r₃.rest.length := by
      have := hr₃.position_le
      rw [hr₃.length_rest, Reader.remaining]
      omega
    have hstop' : r₃.stop = 4 + unitLength.toNat := by
      rw [hstop₃, hstop₂, hstop₁, hposition]
      rfl
    have hstart' : r₂.position = 10 := by
      rw [hposition₂, hposition₁, hposition]
      rfl
    refine ⟨?_, ⟨hr₃, ?_, hstop', ?_, ?_, hrange⟩, rfl⟩
    · rw [hposition₃, hstop', hstart']
      rfl
    · rw [hdata₃, hdata₂, hdata₁, hdata]
      rfl
    · rw [hposition₃, hstop']
    · rw [← hstop₃, hstop', hstart'] at hstart
      dsimp only
      omega

end Preamble

/-- Reads the tables of a header. -/
def Tables.scan (opcodeBase : UInt8) : Scan Tables := do
  let operandCounts ← Scan.bytes (opcodeBase.toNat - 1)
  let directories ← Scan.table Scan.directory
  let files ← Scan.table (Scan.fileEntry directories)
  return { operandCounts, directories, files }

/-- Scanning the tables reads what decoding them does. -/
theorem Tables.decodes_scan (opcodeBase : UInt8) :
    (scan opcodeBase).Decodes (decode opcodeBase) := by
  refine (Scan.decodes_bytes _).bind fun operandCounts => ?_
  refine (Scan.decodes_directory.table decodeDirectory_shortens).bind fun directories => ?_
  exact ((Scan.decodes_fileEntry directories).table FileEntry.decodeItem_shortens).bind fun _ =>
    .pure _

namespace UnitHeader

/-- Reads the header at the front of `data`. -/
def scan (data : Bytes) : Guarded DebugError UnitHeader := do
  let (preamble, r) ← Preamble.scan data
  let (tables, r) ← Tables.scan preamble.params.opcodeBase r
  if preamble.program.start < r.position then throw (.invalidHeader .tablesOverrun)
  return {
    version := preamble.version
    unitLength := preamble.unitLength
    headerLength := preamble.headerLength
    params := preamble.params
    operandCounts := tables.operandCounts
    directories := tables.directories
    files := tables.files
    tables := ⟨preamble.tablesStart, r.position⟩
    program := preamble.program }

/-- Whether the spans of a header lie within the bytes it was read from, and whether its parameters
may divide. -/
structure Usable (data : Bytes) (header : UnitHeader) : Prop where
  tables_le : header.tables.start ≤ header.tables.stop
  tables_stop_le : header.tables.stop ≤ data.length
  program_le : header.program.start ≤ header.program.stop
  program_stop_le : header.program.stop ≤ data.length
  lineRange_ne : header.params.lineRange ≠ 0

/-- Scanning a header agrees with reading it; what it finds can be cut out of the data. -/
theorem agrees_scan {data : Bytes} (hdata : data.length < 2 ^ 64) :
    Agrees (fun header header' => header = header' ∧ header.Usable data) (scan data)
      (read data) := by
  unfold scan read
  refine (Preamble.agrees_scan hdata).bind ?_
  rintro ⟨preamble, r⟩ ⟨_, _⟩ - ⟨rfl, h, rfl⟩
  -- the tables are read inside the program's bytes, so the reader cannot pass the end of the header
  refine (Tables.decodes_scan _).agrees_bind h.valid fun tables r₁ hr₁ hdata₁ hstop₁ hrest₁ => ?_
  have hlength := (Tables.local_decode _).suffix hrest₁ |>.length_le
  have hle₁ := hr₁.position_le
  have hle := h.valid.position_le
  have hdata_le := h.valid.stop_le
  have hstop := h.stop_eq
  rw [hr₁.length_rest, h.valid.length_rest, Reader.remaining, Reader.remaining] at hlength
  rw [h.data_eq] at hdata_le
  dsimp only at hlength hle hdata_le hstop hstop₁
  have hposition : preamble.program.stop - r₁.rest.length = r₁.position := by
    rw [hr₁.length_rest, Reader.remaining]
    omega
  dsimp -zeta only
  rw [hposition]
  refine .check fun _ => .pure ⟨rfl, ?_, ?_, h.start_le, ?_, h.lineRange_ne⟩
  · have := h.position_eq
    dsimp only at this ⊢
    omega
  · dsimp only
    omega
  · dsimp only
    omega

end UnitHeader

end DwarfLines
