import DwarfLines.Proofs.Line.Extent
import DwarfLines.Proofs.Line.Unbounded

/-!
# Units of version 4

The header of version 4 has a byte that those before it do not have, the number of operations in an
instruction. A unit of version 2 or 3 that is given this byte, the version and the lengths that go with
it has its tables and its program one byte further on. If the byte is 1, it decodes as before, to the
same program but for where its parts stand, or to the same error. If it is not 1, it decodes to nothing.
-/

namespace DwarfLines

open Outcome

/-! ## What is further on -/

/-- The span `n` bytes further on. -/
def Span.shift (n : Nat) (span : Span) : Span := ⟨span.start + n, span.stop + n⟩

namespace Span

variable {span : Span} {n : Nat}

/-- Shifting a range keeps its length. -/
@[simp]
theorem length_shift (n : Nat) (span : Span) : (span.shift n).length = span.length :=
  Nat.add_sub_add_right span.stop n span.start

/-- What is moved on by the bytes that are put before it stays the same. -/
theorem slice_shift {front longer : Bytes} (hlonger : longer.length = front.length + n)
    (hstart : front.length ≤ span.start) (rest : Bytes) :
    (span.shift n).slice (longer ++ rest) = span.slice (front ++ rest) := by
  have hdrop : (longer ++ rest).drop (span.start + n) = (front ++ rest).drop span.start := by
    rw [List.drop_append, List.drop_append, List.drop_of_length_le (by omega),
      List.drop_of_length_le hstart, hlonger, Nat.add_sub_add_right]
  rw [slice, slice, length_shift, ← hdrop]
  rfl

/-- A range behind the front holds the same bytes when the front grows and the range is shifted
along. -/
theorem slice?_shift {front longer : Bytes} (hlonger : longer.length = front.length + n)
    (hstart : front.length ≤ span.start) (rest : Bytes) :
    (span.shift n).slice? (longer ++ rest) = span.slice? (front ++ rest) := by
  have hstop : (span.shift n).stop ≤ (longer ++ rest).length ↔
      span.stop ≤ (front ++ rest).length := by
    simp only [shift, List.length_append]
    omega
  simp only [slice?, hstop, slice_shift hlonger hstart]

end Span

/-- The preamble of the same unit in version 4. -/
def Preamble.inVersionFour (preamble : Preamble) : Preamble :=
  { preamble with
    version := 4, tablesStart := preamble.tablesStart + 1, program := preamble.program.shift 1 }

/-- The header of the same unit in version 4. -/
def UnitHeader.inVersionFour (header : UnitHeader) : UnitHeader :=
  { header with
    version := 4, tables := header.tables.shift 1, program := header.program.shift 1 }

/-- The program of the same unit in version 4: rows, files and tables are the same, and so is the
header, but for the version and the places of the tables and the program. -/
def Program.inVersionFour (program : Program) : Program :=
  { program with header := program.header.inVersionFour }

/-! ## The front of a unit -/

/-- Four bytes are the word that they hold. -/
theorem bytesOfWord32_ofNat {bytes : Bytes} (h : bytes.length = 4) :
    bytesOfWord32 (UInt32.ofNat (decodeLittleEndian bytes)) = bytes := by
  have hword : Decoder.word32 bytes = some (UInt32.ofNat (decodeLittleEndian bytes), []) :=
    Decoder.bind_eq_some_iff.mpr ⟨bytes, [], (Decoder.reads_take h).whole, rfl⟩
  rw [← List.append_nil (bytesOfWord32 _), ← Decoder.word32_eq_some_iff.mp hword]

/-- Two bytes are the encoding of the half word they decode to. -/
theorem bytesOfWord16_ofNat {bytes : Bytes} (h : bytes.length = 2) :
    bytesOfWord16 (UInt16.ofNat (decodeLittleEndian bytes)) = bytes := by
  have hword : Decoder.word16 bytes = some (UInt16.ofNat (decodeLittleEndian bytes), []) :=
    Decoder.bind_eq_some_iff.mpr ⟨bytes, [], (Decoder.reads_take h).whole, rfl⟩
  rw [← List.append_nil (bytesOfWord16 _), ← Decoder.word16_eq_some_iff.mp hword]

/-- What a unit starts with in all versions, up to the first of its parameters, and the bytes behind
that. -/
structure LineFront where
  /-- The length of the unit after this field. -/
  unitLength : UInt32
  version : UInt16
  /-- The length of the header after this field. -/
  headerLength : UInt32
  minimumInstructionLength : UInt8
  rest : Bytes

namespace LineFront

/-- The front of some bytes, taken for a unit. -/
def ofBytes (unit : Bytes) : LineFront where
  unitLength := UInt32.ofNat (decodeLittleEndian (unit.take 4))
  version := UInt16.ofNat (decodeLittleEndian ((unit.drop 4).take 2))
  headerLength := UInt32.ofNat (decodeLittleEndian ((unit.drop 6).take 4))
  minimumInstructionLength := unit.getD 10 0
  rest := unit.drop 11

/-- The fields of the front. -/
def fields (front : LineFront) : Bytes :=
  bytesOfWord32 front.unitLength ++ (bytesOfWord16 front.version ++
    (bytesOfWord32 front.headerLength ++ [front.minimumInstructionLength]))

/-- The bytes of the unit. -/
def bytes (front : LineFront) : Bytes := front.fields ++ front.rest

/-- The same unit in version 4, with the byte that only this version has. -/
def inVersionFour (operations : UInt8) (front : LineFront) : LineFront :=
  { front with
    unitLength := front.unitLength + 1, version := 4, headerLength := front.headerLength + 1
    rest := operations :: front.rest }

/-- The fields before the rest of a header take 11 bytes. -/
theorem length_fields (front : LineFront) : front.fields.length = 11 := by
  simp only [fields, List.length_append, length_bytesOfWord16, length_bytesOfWord32,
    List.length_singleton]

/-- The front of a unit and the bytes behind it are the unit. -/
theorem bytes_ofBytes {unit : Bytes} (h : 11 ≤ unit.length) : (ofBytes unit).bytes = unit := by
  have hunitLength : (unit.take 4).length = 4 := List.length_take_of_le (by omega)
  have hversion : ((unit.drop 4).take 2).length = 2 := List.length_take_of_le (by simp; omega)
  have hheaderLength : ((unit.drop 6).take 4).length = 4 := List.length_take_of_le (by simp; omega)
  -- the fields are cut off one after the other, then put back in the same order
  have hfirst : unit.drop 10 = unit.getD 10 0 :: unit.drop 11 := by
    rw [List.drop_eq_getElem_cons (by omega), List.getD_eq_getElem?_getD,
      List.getElem?_eq_getElem (by omega), Option.getD_some]
  have hdrop₆ : (unit.drop 6).take 4 ++ unit.drop 10 = unit.drop 6 := by
    have htake := List.take_append_drop 4 (unit.drop 6)
    rwa [List.drop_drop] at htake
  have hdrop₄ : (unit.drop 4).take 2 ++ unit.drop 6 = unit.drop 4 := by
    have htake := List.take_append_drop 2 (unit.drop 4)
    rwa [List.drop_drop] at htake
  simp only [bytes, fields, ofBytes, bytesOfWord32_ofNat hunitLength, bytesOfWord16_ofNat hversion,
    bytesOfWord32_ofNat hheaderLength, List.append_assoc, List.singleton_append]
  rw [← hfirst, hdrop₆, hdrop₄, List.take_append_drop]

end LineFront

/-! ## Reading the front -/

namespace Preamble

/-- Any version but 4 reads the parameters straight from the first byte on. -/
theorem readParams_cons {version : UInt16} (hversion : version ≠ 4) (first : UInt8) (rest : Bytes) :
    readParams version (first :: rest) = orTruncated (decodeFields first rest) := by
  have hfirst : Decoder.byte (first :: rest) = some (first, rest) := rfl
  unfold readParams
  rw [hfirst, orTruncated_some_bind]
  dsimp only
  rw [if_neg hversion]
  rfl

/-- Version 4 stores one more byte, which has to be 1. -/
theorem readParams_four (first operations : UInt8) (rest : Bytes) :
    readParams 4 (first :: operations :: rest) =
      if operations ≠ 1 then throw (.invalidHeader .operationsPerInstruction)
      else orTruncated (decodeFields first rest) := by
  have hfirst : Decoder.byte (first :: operations :: rest) = some (first, operations :: rest) := rfl
  have hoperations : Decoder.byte (operations :: rest) = some (operations, rest) := rfl
  unfold readParams
  rw [hfirst, orTruncated_some_bind]
  dsimp only
  rw [if_pos rfl, hoperations, orTruncated_some_bind]
  dsimp only
  split
  · rfl
  · rfl

/-- What is made of the parameters of a unit and the bytes behind them. `extra` is what its lengths
count that those of version 3 do not. -/
def afterParams (front : LineFront) (extra : UInt32) (params : Params) (tables : Bytes) :
    Except DebugError (Preamble × Bytes) :=
  let stop := 4 + front.unitLength.toNat
  if front.headerLength < extra then .error .truncated
  else if params.minimumInstructionLength = 0 then .error (.invalidHeader .zeroInstructionLength)
  else if params.lineRange = 0 then .error (.invalidHeader .zeroLineRange)
  else .ok ({
    version := front.version, params
    unitLength := front.unitLength - extra
    headerLength := front.headerLength - extra
    tablesStart := stop - tables.length
    program := ⟨10 + front.headerLength.toNat, stop⟩ }, tables)

/-- The preamble of a unit is read from its parameters, if the program starts in the unit. -/
theorem read_bytes {front : LineFront} (hnarrow : front.unitLength < wideFormatLength)
    (hwhole : front.unitLength.toNat = 7 + front.rest.length)
    (hsupported : supportedVersion front.version = true) :
    read front.bytes =
      if (front.minimumInstructionLength :: front.rest).length < front.headerLength.toNat then
        throw .truncated
      else
        readParams front.version (front.minimumInstructionLength :: front.rest) >>=
          fun (params, tables) =>
            afterParams front (if front.version = 4 then 1 else 0) params tables := by
  -- with the bytes as fields each read of the source takes the next one
  have hbytes : front.bytes = bytesOfWord32 front.unitLength ++ (bytesOfWord16 front.version ++
      (bytesOfWord32 front.headerLength ++ front.minimumInstructionLength :: front.rest)) := by
    simp only [LineFront.bytes, LineFront.fields, List.append_assoc, List.singleton_append]
  have hbody : (bytesOfWord16 front.version ++ (bytesOfWord32 front.headerLength ++
      front.minimumInstructionLength :: front.rest)).length = front.unitLength.toNat := by
    simp only [List.length_append, length_bytesOfWord16, length_bytesOfWord32, List.length_cons]
    omega
  unfold read
  rw [hbytes, Decoder.reads_word32 front.unitLength, orTruncated_some_bind]
  dsimp only
  rw [if_neg (UInt32.not_le.mpr hnarrow), (Decoder.reads_take hbody).whole, orTruncated_some_bind]
  dsimp only
  rw [Decoder.reads_word16 front.version, orTruncated_some_bind]
  dsimp only
  rw [if_pos hsupported, Decoder.reads_word32 front.headerLength, orTruncated_some_bind]
  rfl

end Preamble

namespace LineFront

/-- Whether a front is that of a whole unit of version 2 or 3, and its lengths can be one more. -/
structure IsPlain (front : LineFront) : Prop where
  whole : front.unitLength.toNat = 7 + front.rest.length
  unitLength_lt : front.unitLength < 0xffffffef
  headerLength_lt : front.headerLength < 0xffffffff
  version_eq : front.version = 2 ∨ front.version = 3

namespace IsPlain

variable {front : LineFront}

/-- A plain header is not of version 4. -/
theorem version_ne (h : front.IsPlain) : front.version ≠ 4 := by
  obtain hversion | hversion := h.version_eq <;> rw [hversion] <;> decide

/-- The version of a plain header is one the parser supports. -/
theorem supported (h : front.IsPlain) : supportedVersion front.version = true := by
  obtain hversion | hversion := h.version_eq <;> rw [hversion] <;> rfl

/-- The unit length of a plain header can grow by one without overflow. -/
theorem toNat_unitLength (h : front.IsPlain) :
    (front.unitLength + 1).toNat = front.unitLength.toNat + 1 := by
  have hlt := UInt32.lt_iff_toNat_lt.mp h.unitLength_lt
  have hone : (1 : UInt32).toNat = 1 := rfl
  have hbound : (0xffffffef : UInt32).toNat = 0xffffffef := rfl
  rw [UInt32.toNat_add, hone, Nat.mod_eq_of_lt (by omega)]

/-- The header length of a plain header can grow by one without overflow. -/
theorem toNat_headerLength (h : front.IsPlain) :
    (front.headerLength + 1).toNat = front.headerLength.toNat + 1 := by
  have hlt := UInt32.lt_iff_toNat_lt.mp h.headerLength_lt
  have hone : (1 : UInt32).toNat = 1 := rfl
  have hbound : (0xffffffff : UInt32).toNat = 0xffffffff := rfl
  rw [UInt32.toNat_add, hone, Nat.mod_eq_of_lt (by omega)]

/-- Reading a plain header: the length check, then the parameters, then the tables. -/
theorem read_bytes (h : front.IsPlain) :
    Preamble.read front.bytes =
      if 1 + front.rest.length < front.headerLength.toNat then throw .truncated
      else orTruncated (Preamble.decodeFields front.minimumInstructionLength front.rest) >>=
        fun (params, tables) => Preamble.afterParams front 0 params tables := by
  have hnarrow : front.unitLength < wideFormatLength := UInt32.lt_trans h.unitLength_lt (by decide)
  rw [Preamble.read_bytes hnarrow h.whole h.supported, Preamble.readParams_cons h.version_ne,
    List.length_cons, Nat.add_comm front.rest.length, if_neg h.version_ne]

/-- Reading the same header in version 4: only the check of the added byte comes between. -/
theorem read_inVersionFour (h : front.IsPlain) (operations : UInt8) :
    Preamble.read (front.inVersionFour operations).bytes =
      if 1 + front.rest.length < front.headerLength.toNat then throw .truncated
      else if operations ≠ 1 then throw (.invalidHeader .operationsPerInstruction)
      else orTruncated (Preamble.decodeFields front.minimumInstructionLength front.rest) >>=
        fun (params, tables) =>
          Preamble.afterParams (front.inVersionFour operations) 1 params tables := by
  -- the added byte keeps the unit in the narrow format only because `unitLength_lt` leaves room for
  -- it
  have hnarrow : (front.inVersionFour operations).unitLength < wideFormatLength := by
    have hlt := UInt32.lt_iff_toNat_lt.mp h.unitLength_lt
    have hbound : (0xffffffef : UInt32).toNat = 0xffffffef := rfl
    have hwide : wideFormatLength.toNat = 0xfffffff0 := rfl
    rw [UInt32.lt_iff_toNat_lt, inVersionFour, h.toNat_unitLength]
    omega
  have hwhole : (front.inVersionFour operations).unitLength.toNat =
      7 + (front.inVersionFour operations).rest.length := by
    rw [inVersionFour, h.toNat_unitLength, h.whole, List.length_cons, Nat.add_assoc]
  have hstart : (front.minimumInstructionLength :: operations :: front.rest).length <
      (front.headerLength + 1).toNat ↔ 1 + front.rest.length < front.headerLength.toNat := by
    rw [h.toNat_headerLength, List.length_cons, List.length_cons]
    omega
  rw [Preamble.read_bytes hnarrow hwhole rfl]
  dsimp only [inVersionFour]
  rw [Preamble.readParams_four]
  simp only [hstart]
  split
  · rfl
  · split
    · rfl
    · rfl

/-- The byte counts in the lengths of version 4, but not in those of the preamble. -/
theorem afterParams_inVersionFour (h : front.IsPlain) (operations : UInt8) (params : Params)
    {tables : Bytes} (htables : tables.length ≤ front.rest.length) :
    Preamble.afterParams (front.inVersionFour operations) 1 params tables =
      (Preamble.afterParams front 0 params tables).map
        fun (preamble, bytes) => (preamble.inVersionFour, bytes) := by
  have hextra : ¬ (front.inVersionFour operations).headerLength < 1 := by
    rw [UInt32.not_lt, UInt32.le_iff_toNat_le, inVersionFour, h.toNat_headerLength]
    exact Nat.le_add_left _ _
  have hstart : 4 + (front.unitLength.toNat + 1) - tables.length =
      4 + front.unitLength.toNat - tables.length + 1 := by
    have hwhole := h.whole
    omega
  rw [Preamble.afterParams, Preamble.afterParams, if_neg hextra, if_neg UInt32.not_lt_zero]
  split
  · rfl
  · split
    · rfl
    · simp only [inVersionFour, Except.map, Preamble.inVersionFour, Span.shift, h.toNat_unitLength,
        h.toNat_headerLength, UInt32.add_sub_cancel, UInt32.sub_zero, hstart, Nat.add_assoc]

/-- The preamble that is read is that of version 4, or there is the same error. -/
theorem read_inVersionFour_one (h : front.IsPlain) :
    Preamble.read (front.inVersionFour 1).bytes =
      (Preamble.read front.bytes).map fun (preamble, bytes) => (preamble.inVersionFour, bytes) := by
  rw [h.read_inVersionFour, h.read_bytes, if_neg (not_not_intro rfl)]
  split
  · rfl
  · cases hfields : Preamble.decodeFields front.minimumInstructionLength front.rest with
    | none => rfl
    | some found =>
      obtain ⟨params, tables⟩ := found
      have htakes := Preamble.takes_decodeFields _ _ _ _ hfields
      rw [orTruncated_some_bind, orTruncated_some_bind]
      exact h.afterParams_inVersionFour 1 params (by omega)

end IsPlain

end LineFront

/-! ## The unit -/

/-- The header of the unit in version 4 is the one of version 4, or there is the same error. -/
theorem UnitHeader.read_inVersionFour {front : LineFront} (h : front.IsPlain) :
    read (front.inVersionFour 1).bytes = (read front.bytes).map UnitHeader.inVersionFour := by
  unfold read
  -- the two preambles agree up to the shift, so only the places of tables and program differ
  rw [h.read_inVersionFour_one]
  cases hpreamble : Preamble.read front.bytes with
  | error e => rfl
  | ok found =>
    obtain ⟨preamble, bytes⟩ := found
    obtain ⟨-, hstart, -⟩ := Preamble.read_spans hpreamble
    show (orTruncated (Tables.decode preamble.params.opcodeBase bytes) >>= _) =
      (orTruncated (Tables.decode preamble.params.opcodeBase bytes) >>= _).map _
    cases htables : Tables.decode preamble.params.opcodeBase bytes with
    | none => rfl
    | some found =>
      obtain ⟨tables, rest⟩ := found
      have hrest := ((Tables.local_decode _).suffix htables).length_le
      have hstop : preamble.program.stop + 1 - rest.length =
          preamble.program.stop - rest.length + 1 := by omega
      have horder : preamble.program.start + 1 < preamble.program.stop + 1 - rest.length ↔
          preamble.program.start < preamble.program.stop - rest.length := by omega
      rw [orTruncated_some_bind, orTruncated_some_bind]
      simp only [Preamble.inVersionFour, Span.shift, horder]
      split
      · rfl
      · simp only [Except.map, pure, Except.pure, inVersionFour, Span.shift, hstop]

/-- The tables of a header that is read start behind its fields, and its program behind them. -/
theorem UnitHeader.le_starts {data : Bytes} {header : UnitHeader} (h : read data = .ok header) :
    15 ≤ header.tables.start ∧ 15 ≤ header.program.start := by
  obtain ⟨preamble, bytes, tables, rest, hpreamble, htables, horder, rfl⟩ := exists_of_read h
  obtain ⟨-, hstart, -⟩ := Preamble.read_spans hpreamble
  have hfields := Preamble.le_tablesStart hpreamble
  have hrest := ((Tables.local_decode _).suffix htables).length_le
  dsimp only
  omega

/-- The program of the unit in version 4 is the one of version 4, or there is the same error. -/
theorem Program.decode_bytes_inVersionFour {front : LineFront} (h : front.IsPlain) :
    decode (front.inVersionFour 1).bytes = (decode front.bytes).map Program.inVersionFour := by
  have hlonger : ((front.inVersionFour 1).fields ++ [1]).length = front.fields.length + 1 := by
    rw [List.length_append, LineFront.length_fields, LineFront.length_fields, List.length_singleton]
  have hbytes : (front.inVersionFour 1).bytes =
      (front.inVersionFour 1).fields ++ [1] ++ front.rest :=
    (List.append_assoc _ [1] front.rest).symm
  unfold decode
  rw [UnitHeader.read_inVersionFour h]
  cases hheader : UnitHeader.read front.bytes with
  | error e => rfl
  | ok header =>
    obtain ⟨htablesStart, hprogramStart⟩ := UnitHeader.le_starts hheader
    -- both ranges start behind the added byte, so the shift keeps what they hold
    have hfields := front.length_fields
    have hprogram : (header.program.shift 1).slice? (front.inVersionFour 1).bytes =
        header.program.slice? front.bytes := by
      rw [hbytes]
      exact Span.slice?_shift hlonger (by omega) front.rest
    have htables : (header.tables.shift 1).slice (front.inVersionFour 1).bytes =
        header.tables.slice front.bytes := by
      rw [hbytes]
      exact Span.slice_shift hlonger (by omega) front.rest
    have hinstructions : header.inVersionFour.instructions? (front.inVersionFour 1).bytes =
        header.instructions? front.bytes :=
      congrArg (Option.map (Instruction.scan header.instructionSet)) hprogram
    show (orTruncated (header.inVersionFour.instructions? (front.inVersionFour 1).bytes) >>= _) =
      (orTruncated (header.instructions? front.bytes) >>= _).map _
    rw [hinstructions]
    cases header.instructions? front.bytes with
    | none => rfl
    | some found =>
      obtain ⟨instructions, complete⟩ := found
      cases complete with
      | false => rfl
      | true =>
        rw [orTruncated_some_bind, orTruncated_some_bind]
        rw [← htables]
        rfl

/-- Without the byte 1 there is no program. -/
theorem Program.decode_bytes_of_operations {front : LineFront} (h : front.IsPlain)
    {operations : UInt8} (hoperations : operations ≠ 1) {program : Program}
    (hprogram : decode front.bytes = .ok program) :
    decode (front.inVersionFour operations).bytes =
      .error (.invalidHeader .operationsPerInstruction) := by
  obtain ⟨header, -, -, hheader, -⟩ := decode_eq_ok_iff.mp hprogram
  obtain ⟨preamble, bytes, -, -, hpreamble, -⟩ := UnitHeader.exists_of_read hheader
  -- The program that there is starts in the unit, so it is this byte that is found wrong first.
  have hread : Preamble.read (front.inVersionFour operations).bytes =
      .error (.invalidHeader .operationsPerInstruction) := by
    rw [h.read_bytes] at hpreamble
    rw [h.read_inVersionFour]
    split at hpreamble
    · cases hpreamble
    · rename_i hstart
      rw [if_neg hstart, if_pos hoperations]
      rfl
  unfold decode UnitHeader.read
  rw [hread]
  rfl

namespace LineFront

/-- The front of a whole unit of version 2 or 3 whose lengths can be one more. -/
theorem isPlain_ofBytes {unit : Bytes}
    (hwhole : unit.length = 4 + (ofBytes unit).unitLength.toNat)
    (hlow : 7 ≤ (ofBytes unit).unitLength) (hhigh : (ofBytes unit).unitLength < 0xffffffef)
    (hheader : (ofBytes unit).headerLength < 0xffffffff)
    (hversion : (ofBytes unit).version = 2 ∨ (ofBytes unit).version = 3) :
    (ofBytes unit).IsPlain := by
  have hseven := UInt32.le_iff_toNat_le.mp hlow
  have hrest : (ofBytes unit).rest.length = unit.length - 11 := List.length_drop
  have hsmall : (7 : UInt32).toNat = 7 := rfl
  exact ⟨by omega, hhigh, hheader, hversion⟩

end LineFront

/-- A unit of version 2 or 3 that is as long as its length field says decodes, given the byte 1 and the
lengths and version that go with it, to the same program in version 4, or to the same error. Given any
other byte, it decodes to no program if it did to one. -/
theorem Program.decode_inVersionFour {unit : Bytes}
    (hwhole : unit.length = 4 + (LineFront.ofBytes unit).unitLength.toNat)
    (hlow : 7 ≤ (LineFront.ofBytes unit).unitLength)
    (hhigh : (LineFront.ofBytes unit).unitLength < 0xffffffef)
    (hheader : (LineFront.ofBytes unit).headerLength < 0xffffffff)
    (hversion : (LineFront.ofBytes unit).version = 2 ∨ (LineFront.ofBytes unit).version = 3) :
    decode ((LineFront.ofBytes unit).inVersionFour 1).bytes =
        (decode unit).map Program.inVersionFour ∧
      ∀ operations, operations ≠ 1 → ∀ program, decode unit = .ok program →
        decode ((LineFront.ofBytes unit).inVersionFour operations).bytes =
          .error (.invalidHeader .operationsPerInstruction) := by
  have hplain := LineFront.isPlain_ofBytes hwhole hlow hhigh hheader hversion
  have hseven := UInt32.le_iff_toNat_le.mp hlow
  have hsmall : (7 : UInt32).toNat = 7 := rfl
  have hbytes : (LineFront.ofBytes unit).bytes = unit := LineFront.bytes_ofBytes (by omega)
  have hone := decode_bytes_inVersionFour hplain
  rw [hbytes] at hone
  refine ⟨hone, fun operations hoperations program hprogram => ?_⟩
  rw [← hbytes] at hprogram
  exact decode_bytes_of_operations hplain hoperations hprogram

/-- The tables of this unit end where its program starts, and its program where the unit ends. -/
theorem Program.decode_inVersionFour_paddedUnit :
    paddedUnit.length = 4 + (LineFront.ofBytes paddedUnit).unitLength.toNat ∧
      7 ≤ (LineFront.ofBytes paddedUnit).unitLength ∧
      (LineFront.ofBytes paddedUnit).unitLength < 0xffffffef ∧
      (LineFront.ofBytes paddedUnit).headerLength < 0xffffffff ∧
      (LineFront.ofBytes paddedUnit).version = 2 ∧
      (∃ program, decode paddedUnit = .ok program ∧
        decode ((LineFront.ofBytes paddedUnit).inVersionFour 1).bytes = .ok program.inVersionFour) ∧
      decode ((LineFront.ofBytes paddedUnit).inVersionFour 2).bytes =
        .error (.invalidHeader .operationsPerInstruction) := by
  have hwhole : paddedUnit.length = 4 + (LineFront.ofBytes paddedUnit).unitLength.toNat := by
    decide +kernel
  have hlow : 7 ≤ (LineFront.ofBytes paddedUnit).unitLength := by decide +kernel
  have hhigh : (LineFront.ofBytes paddedUnit).unitLength < 0xffffffef := by decide +kernel
  have hheader : (LineFront.ofBytes paddedUnit).headerLength < 0xffffffff := by decide +kernel
  have hversion : (LineFront.ofBytes paddedUnit).version = 2 := by decide +kernel
  obtain ⟨program, hprogram⟩ : ∃ program, decode paddedUnit = .ok program :=
    exists_of_isSome_toOption (by decide +kernel)
  obtain ⟨hone, hother⟩ := decode_inVersionFour hwhole hlow hhigh hheader (.inl hversion)
  rw [hprogram] at hone
  exact ⟨hwhole, hlow, hhigh, hheader, hversion, ⟨program, hprogram, hone⟩,
    hother 2 (by decide) program hprogram⟩

end DwarfLines
