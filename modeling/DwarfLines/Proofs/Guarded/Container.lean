import DwarfLines.Proofs.Elf.Fields
import DwarfLines.Proofs.Guarded.Section

/-!
# Opening files within bounds

The fields of a file are read at the places that the format gives them, and the entries of its tables
at the places that the file gives. A table is checked to lie within the file as a whole, which has to
be enough for each field of each entry.
-/

namespace DwarfLines.Elf

open Guarded

/-! ## Fields -/

section Fields

variable {ε : Type}

/-- The 16-bit word at an offset. -/
def word16At (bytes : Bytes) (offset : Nat) : Guarded ε UInt16 := do
  let stop ← add 64 offset 2
  let found ← slice bytes offset stop
  UInt16.ofNat <$> digits found 2

/-- The 32-bit word at an offset. -/
def word32At (bytes : Bytes) (offset : Nat) : Guarded ε UInt32 := do
  let stop ← add 64 offset 4
  let found ← slice bytes offset stop
  UInt32.ofNat <$> digits found 4

variable {bytes : Bytes} {offset : Nat}

/-- A word of 16 bits is read within the file. -/
theorem word16At_eq (h : offset + 2 ≤ bytes.length) (hlt : offset + 2 < 2 ^ 64) :
    (word16At bytes offset : Guarded ε UInt16) = pure (storedWord16 bytes offset) := by
  have hlength : (Span.slice ⟨offset, offset + 2⟩ bytes).length = 2 := by
    rw [Span.length_slice h, Span.length, Nat.add_sub_cancel_left]
  rw [word16At, add_eq hlt, pure_bind, slice_eq (Nat.le_add_right _ _) h, pure_bind,
    digits_eq (Nat.le_of_eq hlength.symm), List.take_of_length_le (Nat.le_of_eq hlength), map_pure,
    storedWord16]

/-- A word of 32 bits is read within the file. -/
theorem word32At_eq (h : offset + 4 ≤ bytes.length) (hlt : offset + 4 < 2 ^ 64) :
    (word32At bytes offset : Guarded ε UInt32) = pure (storedWord32 bytes offset) := by
  have hlength : (Span.slice ⟨offset, offset + 4⟩ bytes).length = 4 := by
    rw [Span.length_slice h, Span.length, Nat.add_sub_cancel_left]
  rw [word32At, add_eq hlt, pure_bind, slice_eq (Nat.le_add_right _ _) h, pure_bind,
    digits_eq (Nat.le_of_eq hlength.symm), List.take_of_length_le (Nat.le_of_eq hlength), map_pure,
    storedWord32]

end Fields

/-! ## Entries -/

/-- Reads the fields of a file header. -/
def FileHeader.fieldsAt (data : Bytes) : Guarded Error FileHeader := do
  let type ← word16At data 16
  let machine ← word16At data 18
  let entry ← word32At data 24
  let segmentOffset ← word32At data 28
  let sectionOffset ← word32At data sectionOffsetField
  let headerSize ← word16At data 40
  let segmentSize ← word16At data 42
  let segmentCount ← word16At data 44
  let sectionSize ← word16At data 46
  let sectionCount ← word16At data 48
  let nameSection ← word16At data 50
  return { type, machine, entry, segmentOffset, sectionOffset, headerSize, segmentSize,
           segmentCount, sectionSize, sectionCount, nameSection }

/-- Reads an entry of the table of sections. -/
def SectionHeader.entryAt (bytes : Bytes) : Guarded Error SectionHeader := do
  let name ← word32At bytes 0
  let type ← word32At bytes 4
  let flags ← word32At bytes 8
  let address ← word32At bytes 12
  let offset ← word32At bytes 16
  let size ← word32At bytes 20
  let link ← word32At bytes 24
  let info ← word32At bytes 28
  let addressAlignment ← word32At bytes 32
  let entrySize ← word32At bytes 36
  return { name, type, flags, address, offset, size, link, info, addressAlignment, entrySize }

/-- Reads an entry of the table of segments. -/
def Segment.entryAt (bytes : Bytes) : Guarded Error Segment := do
  let type ← word32At bytes 0
  let offset ← word32At bytes 4
  let virtualAddress ← word32At bytes 8
  let physicalAddress ← word32At bytes 12
  let fileSize ← word32At bytes 16
  let memorySize ← word32At bytes 20
  let flags ← word32At bytes 24
  let alignment ← word32At bytes 28
  return { type, offset, virtualAddress, physicalAddress, fileSize, memorySize, flags, alignment }

/-- A section header is read within its entry. -/
theorem SectionHeader.entryAt_eq {bytes : Bytes} (h : Part.section.size ≤ bytes.length) :
    entryAt bytes = pure (stored bytes) := by
  have word (offset : Nat) (hoffset : offset + 4 ≤ Part.section.size) :
      (word32At bytes offset : Guarded Error UInt32) = pure (storedWord32 bytes offset) :=
    word32At_eq (Nat.le_trans hoffset h) (Nat.lt_of_le_of_lt hoffset (by decide))
  simp only [entryAt, word 0 (by decide), word 4 (by decide), word 8 (by decide),
    word 12 (by decide), word 16 (by decide), word 20 (by decide), word 24 (by decide),
    word 28 (by decide), word 32 (by decide), word 36 (by decide), pure_bind]
  rfl

/-- A segment header is read within its entry. -/
theorem Segment.entryAt_eq {bytes : Bytes} (h : Part.segment.size ≤ bytes.length) :
    entryAt bytes = pure (stored bytes) := by
  have word (offset : Nat) (hoffset : offset + 4 ≤ Part.segment.size) :
      (word32At bytes offset : Guarded Error UInt32) = pure (storedWord32 bytes offset) :=
    word32At_eq (Nat.le_trans hoffset h) (Nat.lt_of_le_of_lt hoffset (by decide))
  simp only [entryAt, word 0 (by decide), word 4 (by decide), word 8 (by decide),
    word 12 (by decide), word 16 (by decide), word 20 (by decide), word 24 (by decide),
    word 28 (by decide), pure_bind]
  rfl

/-- The file header is read within the file. -/
theorem FileHeader.fieldsAt_eq {data : Bytes} (h : Part.fileHeader.size ≤ data.length) :
    fieldsAt data = pure (stored data) := by
  have half (offset : Nat) (hoffset : offset + 2 ≤ Part.fileHeader.size) :
      (word16At data offset : Guarded Error UInt16) = pure (storedWord16 data offset) :=
    word16At_eq (Nat.le_trans hoffset h) (Nat.lt_of_le_of_lt hoffset (by decide))
  have word (offset : Nat) (hoffset : offset + 4 ≤ Part.fileHeader.size) :
      (word32At data offset : Guarded Error UInt32) = pure (storedWord32 data offset) :=
    word32At_eq (Nat.le_trans hoffset h) (Nat.lt_of_le_of_lt hoffset (by decide))
  simp only [fieldsAt, half 16 (by decide), half 18 (by decide), word 24 (by decide),
    word 28 (by decide), word sectionOffsetField (by decide), half 40 (by decide),
    half 42 (by decide), half 44 (by decide), half 46 (by decide), half 48 (by decide),
    half 50 (by decide), pure_bind]
  rfl

/-! ## Headers and tables -/

/-- Where a table ends. -/
def tableStop (part : Part) (offset : UInt32) (count : UInt16) : Guarded Error Nat := do
  add 64 offset.toNat (← mul 64 count.toNat part.size)

/-- Reads and checks the header of a file. -/
def FileHeader.readWithin (data : Bytes) : Guarded Error FileHeader := do
  if data.length < Part.fileHeader.size then throw .truncated
  if (← slice data 0 4) ≠ magic then throw .badMagic
  if (← nth data 4) ≠ 1 then throw .unsupportedClass
  if (← nth data 5) ≠ 1 then throw .unsupportedEncoding
  let header ← fieldsAt data
  ofExcept (checkSize .fileHeader header.headerSize)
  if 0 < header.segmentCount then ofExcept (checkSize .segment header.segmentSize)
  if 0 < header.sectionCount then ofExcept (checkSize .section header.sectionSize)
  let segmentsStop ← tableStop .segment header.segmentOffset header.segmentCount
  let sectionsStop ← tableStop .section header.sectionOffset header.sectionCount
  if data.length < segmentsStop ∨ data.length < sectionsStop then throw .invalidOffset
  return header

/-- The entry of a table with the given number. -/
def entryAt {α : Type} (data : Bytes) (size : Nat) (entry : Bytes → Guarded Error α)
    (offset i : Nat) : Guarded Error α := do
  let start ← add 64 offset (← mul 64 i size)
  entry (← slice data start data.length)

/-- Reads the `count` entries of the table at `offset`, which has to lie within the file. -/
def tableAt {α : Type} (data : Bytes) (part : Part) (entry : Bytes → Guarded Error α)
    (offset : UInt32) (count : UInt16) : Guarded Error (List α) := do
  let stop ← tableStop part offset count
  if data.length < stop then throw .invalidOffset
  (List.range count.toNat).mapM (entryAt data part.size entry offset.toNat)

/-- No part is larger than 64 bytes. -/
theorem size_le (part : Part) : part.size ≤ 64 := by
  cases part <;> decide

/-- The end of a table fits 64 bits. -/
theorem tableStop_eq (part : Part) (offset : UInt32) (count : UInt16) :
    tableStop part offset count = pure (offset.toNat + count.toNat * part.size) := by
  have hoffset := offset.toNat_lt
  have hcount := Nat.mul_le_mul (Nat.le_of_lt count.toNat_lt) (size_le part)
  rw [tableStop, mul_eq (by omega), pure_bind, add_eq (by omega)]

/-- The file header is read and checked within bounds. -/
theorem FileHeader.agrees_readWithin (data : Bytes) : Agrees Eq (readWithin data) (read data) := by
  unfold readWithin read
  by_cases hshort : data.length < Part.fileHeader.size
  · rw [if_pos hshort, decode_of_lt hshort]
    exact .throw _
  have hlength := Nat.le_of_not_lt hshort
  have hsize : 52 ≤ data.length := hlength
  have hslice : Span.slice ⟨0, 4⟩ data = data.take 4 := rfl
  -- every field lies inside the 52 bytes, so no access fails
  have hbyte (i : Nat) (hi : i < 52) : ∃ b, (nth data i : Guarded Error UInt8) = pure b ∧
      data[i]? = some b :=
    have hbyte := List.getElem?_eq_getElem (Nat.lt_of_lt_of_le hi hsize)
    ⟨_, nth_eq hbyte, hbyte⟩
  obtain ⟨class', hclass, hclass'⟩ := hbyte 4 (by decide)
  obtain ⟨encoding, hencoding, hencoding'⟩ := hbyte 5 (by decide)
  rw [if_neg hshort, decode_of_le hlength, slice_eq (Nat.zero_le _) (by omega), hslice]
  simp only [pure_bind, hclass, hclass', hencoding, hencoding', fieldsAt_eq hlength, tableStop_eq]
  generalize stored data = header
  refine .check fun _ => .check_iff (by simp) fun _ => .check_iff (by simp) fun _ => ?_
  refine (Agrees.ofExcept _).bind fun _ _ _ _ => ?_
  -- the checks that follow depend on the counts; they are put together from the last one back
  have hstops : Agrees Eq (if data.length < header.segmentsStop ∨ data.length < header.sectionsStop
      then MonadExcept.throw Error.invalidOffset >>= fun _ => Pure.pure header
      else Pure.pure header : Guarded Error FileHeader) (if data.length < header.segmentsStop ∨
        data.length < header.sectionsStop
      then MonadExcept.throw Error.invalidOffset >>= fun _ => Pure.pure header
      else Pure.pure header) := .check fun _ => .pure rfl
  have hsections :=
    (Agrees.ofExcept (checkSize .section header.sectionSize)).bind fun _ _ _ _ => hstops
  have hboth := Agrees.ite (c := 0 < header.sectionCount) (fun _ => hsections) fun _ => hstops
  have hsegments :=
    (Agrees.ofExcept (checkSize .segment header.segmentSize)).bind fun _ _ _ _ => hboth
  exact .ite (fun _ => hsegments) fun _ => hboth

/-- The entries of a table are read at multiples of their size. -/
theorem agrees_tableAt {α : Type} {data : Bytes} {part : Part} {entry : Bytes → Guarded Error α}
    {d : Decoder α} {stored : Bytes → α}
    (hentry : ∀ bytes : Bytes, part.size ≤ bytes.length → entry bytes = pure (stored bytes))
    (hdecode : ∀ bytes : Bytes, part.size ≤ bytes.length →
      d bytes = some (stored bytes, bytes.drop part.size))
    (offset : UInt32) (count : UInt16) :
    Agrees Eq (tableAt data part entry offset count) (readTable data part d offset count) := by
  unfold tableAt
  rw [tableStop_eq, pure_bind]
  by_cases hshort : data.length < offset.toNat + count.toNat * part.size
  · rw [readTable, if_pos hshort, if_pos hshort]
    exact .throw _
  have hlength := Nat.le_of_not_lt hshort
  rw [if_neg hshort, readTable_of_le hdecode hlength]
  have hoffset := offset.toNat_lt
  have hcount := Nat.mul_le_mul (Nat.le_of_lt count.toNat_lt) (size_le part)
  have hentries : ∀ i ∈ List.range count.toNat,
      entryAt data part.size entry offset.toNat i =
        pure (stored (data.drop (offset.toNat + i * part.size))) := by
    intro i hi
    -- The entry ends where the next one starts, which the table reaches.
    have hstop : (i + 1) * part.size ≤ count.toNat * part.size :=
      Nat.mul_le_mul_right _ (List.mem_range.mp hi)
    rw [Nat.succ_mul] at hstop
    have hrest : Span.slice ⟨offset.toNat + i * part.size, data.length⟩ data =
        data.drop (offset.toNat + i * part.size) :=
      List.take_of_length_le (Nat.le_of_eq List.length_drop)
    rw [entryAt, mul_eq (by omega), pure_bind, add_eq (by omega), pure_bind,
      slice_eq (by omega) (Nat.le_refl _), pure_bind, hrest,
      hentry _ (by rw [List.length_drop]; omega)]
  rw [mapM_eq_pure hentries]
  exact .pure rfl

/-! ## Names -/

/-- The name that starts at `offset` in a section of names, if it ends there and is well-formed
text. -/
def nameAtWithin (names : Bytes) (offset : UInt32) : Guarded Error (Option String) := do
  if names.length < offset.toNat then return none
  let rest ← slice names offset.toNat names.length
  match rest.findIdx? (· = 0) with
  | none => return none
  | some length => return Utf8.decode? (← slice rest 0 length)

/-- A name is looked up within bounds. -/
theorem nameAtWithin_eq (names : Bytes) (offset : UInt32) :
    nameAtWithin names offset = pure (nameAt? names offset) := by
  have hname : nameAt? names offset = (Decoder.cstring (names.drop offset.toNat)).bind fun found =>
      Utf8.decode? found.1 := rfl
  rw [nameAtWithin, hname, Scan.cstring_eq]
  by_cases hoffset : names.length < offset.toNat
  · rw [if_pos hoffset, List.drop_of_length_le (Nat.le_of_lt hoffset)]
    rfl
  rw [if_neg hoffset, slice_eq (Nat.le_of_not_lt hoffset) (Nat.le_refl _), pure_bind]
  have hrest : Span.slice ⟨offset.toNat, names.length⟩ names = names.drop offset.toNat :=
    List.take_of_length_le (Nat.le_of_eq List.length_drop)
  rw [hrest]
  -- without a zero byte there is no name
  cases hfind : (names.drop offset.toNat).findIdx? (· = 0) with
  | none => rfl
  | some length =>
    obtain ⟨hlength, -⟩ := List.findIdx?_eq_some_iff_findIdx_eq.mp hfind
    dsimp only
    rw [slice_eq (Nat.zero_le _) (Nat.le_of_lt hlength), pure_bind]
    rfl

/-! ## Containers -/

/-- The source of a section is a span of the file. -/
theorem span_of_sourceOf? {length : Nat} {header : SectionHeader} {source : Span}
    (h : sourceOf? length header = some source) :
    source.start ≤ source.stop ∧ source.stop ≤ length := by
  cases hdata : header.hasFileData with
  | true =>
    obtain ⟨rfl, hstop⟩ := sourceOf?_eq_some_of_hasFileData h hdata
    exact ⟨Nat.le_add_right _ _, hstop⟩
  | false =>
    rw [sourceOf?, hdata] at h
    cases h
    exact ⟨Nat.le_refl _, Nat.min_le_right _ _⟩

/-- So is each that is collected. -/
theorem span_of_mem_sources {length : Nat} {headers : List SectionHeader} {sources : List Span}
    (h : sourcesFrom length 0 headers = .ok sources) {source : Span} (hmem : source ∈ sources) :
    source.start ≤ source.stop ∧ source.stop ≤ length := by
  have hall := sourcesFrom_eq_ok_iff.mp h
  clear h
  induction hall with
  | nil => cases hmem
  | cons hfirst _ ih =>
    rcases List.mem_cons.mp hmem with rfl | hmem
    · exact span_of_sourceOf? hfirst
    · exact ih hmem

/-- The end of the bytes that segments cover, 0 if they cover none. -/
def coveredStopWithin (segments : List Segment) : Guarded Error Nat := do
  let stops ← (segments.filter fun s => 0 < s.fileSize).mapM fun s =>
    add 64 s.offset.toNat s.fileSize.toNat
  return stops.foldl max 0

/-- The end of the segments is found within bounds. -/
theorem coveredStopWithin_eq (segments : List Segment) :
    coveredStopWithin segments = pure (coveredStop segments) := by
  have hstop (s : Segment) : (add 64 s.offset.toNat s.fileSize.toNat : Guarded Error Nat) =
      pure s.fileStop := by
    have := s.offset.toNat_lt
    have := s.fileSize.toNat_lt
    exact add_eq (by omega)
  rw [coveredStopWithin, mapM_eq_pure fun s _ => hstop s, pure_bind]
  rfl

namespace Container

/-- The contents of the section of names. -/
def namesWithin (data : Bytes) (sources : List Span) (nameSection : UInt16) :
    Guarded Error (Option Bytes) :=
  match sources[nameSection.toNat]? with
  | some source => some <$> slice data source.start source.stop
  | none => return none

/-- The name of a section, looked up in the contents of the section of names. -/
def nameWithin (names : Option Bytes) (header : SectionHeader) : Guarded Error String :=
  match names with
  | some names => do return (← nameAtWithin names header.name).getD ""
  | none => return ""

/-- Opens a file. -/
def readWithin (data : Bytes) : Guarded Error Container := do
  let header ← FileHeader.readWithin data
  let segments ← tableAt data .segment Segment.entryAt header.segmentOffset header.segmentCount
  let headers ← tableAt data .section SectionHeader.entryAt header.sectionOffset header.sectionCount
  let sources ← ofExcept (sourcesFrom data.length 0 headers)
  let names ← namesWithin data sources header.nameSection
  let sections ← (List.zip headers sources).mapM fun (header, source) => do
    return { header, name := ← nameWithin names header, source, placed := false : Section }
  let covered ← coveredStopWithin segments
  let segmentsStop ← tableStop .segment header.segmentOffset header.segmentCount
  let stop := max covered (max segmentsStop Part.fileHeader.size)
  if data.length < stop then throw .invalidOffset
  let some fixedStop := word32? stop | throw .invalidOffset
  return { data, header, segments, sections, fixedStop }

/-- The contents of the section with a given number. -/
def contentsWithin (container : Container) (index : Nat) : Guarded Error Bytes := do
  let found ← ofExcept (container.section? index)
  slice container.data found.source.start found.source.stop

/-- The names are sliced from the file within bounds. -/
theorem namesWithin_eq {data : Bytes} {headers : List SectionHeader} {sources : List Span}
    (h : sourcesFrom data.length 0 headers = .ok sources) (nameSection : UInt16) :
    namesWithin data sources nameSection =
      pure (sources[nameSection.toNat]?.map fun source => source.slice data) := by
  unfold namesWithin
  cases hsource : sources[nameSection.toNat]? with
  | none => rfl
  | some source =>
    obtain ⟨hstart, hstop⟩ := span_of_mem_sources h (List.mem_of_getElem? hsource)
    dsimp only
    rw [slice_eq hstart hstop, map_pure, Option.map_some]

/-- The name of a section is looked up within bounds. -/
theorem nameWithin_eq (names : Option Bytes) (header : SectionHeader) :
    nameWithin names header = pure (nameIn names header) := by
  cases names with
  | none => rfl
  | some names =>
    rw [nameWithin, nameAtWithin_eq, pure_bind]
    rfl

/-- A file is opened within bounds. -/
theorem agrees_readWithin (data : Bytes) : Agrees Eq (readWithin data) (ofBytes data) := by
  unfold readWithin ofBytes
  refine (FileHeader.agrees_readWithin data).bind ?_
  rintro header _ - rfl
  refine (agrees_tableAt (fun _ => Segment.entryAt_eq) (fun _ => Segment.decode_of_le) _ _).bind ?_
  rintro segments _ - rfl
  refine (agrees_tableAt (fun _ => SectionHeader.entryAt_eq)
    (fun _ => SectionHeader.decode_of_le) _ _).bind ?_
  rintro headers _ - rfl
  refine (Agrees.ofExcept _).bind ?_
  rintro sources _ hsources rfl
  -- all the parts below the container stay in bounds, so the two differ in nothing that is left
  simp only [namesWithin_eq hsources, nameWithin_eq, coveredStopWithin_eq, tableStop_eq, pure_bind]
  rw [mapM_eq_pure (fun _ _ => rfl), pure_bind, List.map_zip_eq_zipWith]
  refine .check fun _ => ?_
  change Agrees Eq (match word32? (max (coveredStop segments)
    (max header.segmentsStop Part.fileHeader.size)) with | some _ => _ | _ => _) _
  cases word32? (max (coveredStop segments) (max header.segmentsStop Part.fileHeader.size)) with
  | none => exact .throw _
  | some fixedStop => exact .pure rfl

/-- The contents of a section of an opened file are within the file. -/
theorem Fresh.agrees_contentsWithin {container : Container} (hfresh : container.Fresh)
    (index : Nat) : Agrees Eq (container.contentsWithin index) (container.contents? index) := by
  unfold contentsWithin contents?
  rw [← bind_pure_comp]
  refine (Agrees.ofExcept _).bind ?_
  rintro found _ hfound rfl
  obtain ⟨hstart, hstop⟩ := span_of_sourceOf?
    (hfresh.source found (List.mem_of_getElem? (section?_eq_ok_iff.mp hfound)))
  rw [slice_eq hstart hstop]
  exact .pure rfl

/-- A section of an opened file is no longer than its recorded size says. -/
theorem Fresh.length_contents_lt {container : Container} (hfresh : container.Fresh) {s : Section}
    (hs : s ∈ container.sections) : (container.contents s).length < 2 ^ 32 := by
  cases hdata : s.header.hasFileData with
  | true =>
    rw [hfresh.length_contents hs hdata]
    exact s.header.size.toNat_lt
  | false =>
    rw [hfresh.contents_eq_nil hs hdata]
    exact Nat.two_pow_pos 32

/-- An opened file has no more sections than its header can announce. -/
theorem length_sections_lt {data : Bytes} {container : Container}
    (h : ofBytes data = .ok container) : container.sections.length < 2 ^ 16 := by
  obtain ⟨header, segments, headers, sources, fixedStop, -, -, hheaders, hsources, -, -, rfl⟩ :=
    ofBytes_eq_ok_iff.mp h
  have hcount : headers.length = header.sectionCount.toNat := by
    obtain ⟨-, rest, htimes⟩ := readTable_eq_ok_iff.mp hheaders
    exact Decoder.length_of_times htimes
  have hlt := header.sectionCount.toNat_lt
  rw [freshSections, List.length_zipWith, hsources.length_eq, Nat.min_self, ← hsources.length_eq]
  omega

end Container

end DwarfLines.Elf

namespace DwarfLines

open Guarded

/-! ## Debug sections -/

namespace DebugSections

/-- The section with a given number among those that were looked for, which has to be there and must
not be one that only takes up memory. -/
def pickWithin (names : List String) (found : List (Option Elf.SectionInfo)) (i : Nat) :
    Guarded Failure Elf.SectionInfo := do
  let name ← nth names i
  let some info ← nth found i | throw (.ofCause (.missingSection name))
  if info.type = Elf.SectionHeader.noBits then throw (.ofCause (.emptySection name))
  return info

/-- Finds the debug sections of a file. -/
def readWithin (container : Elf.Container) : Guarded Failure DebugSections := do
  let names := [".debug_info", ".debug_abbrev", ".debug_line"]
  let found := names.map container.find?
  let info ← pickWithin names found 0
  let abbreviations ← pickWithin names found 1
  let line ← pickWithin names found 2
  return { info, abbreviations, line }

/-- A debug section is picked within bounds. -/
theorem agrees_pickWithin {names : List String} {i : Nat} {name : String}
    (hname : names[i]? = some name) (container : Elf.Container) :
    Agrees Eq (pickWithin names (names.map container.find?) i)
      ((pick container name).mapError .ofCause) := by
  have hfound : (names.map container.find?)[i]? = some (container.find? name) := by
    rw [List.getElem?_map, hname, Option.map_some]
  rw [pickWithin, nth_eq hname, pure_bind, nth_eq hfound, pure_bind, pick]
  cases container.find? name with
  | none => exact .throw _
  | some info =>
    dsimp only
    split
    · exact .throw _
    · exact .pure rfl

/-- The debug sections are picked within bounds. -/
theorem agrees_readWithin (container : Elf.Container) :
    Agrees Eq (readWithin container) ((ofContainer container).mapError .ofCause) := by
  have mapError_bind {α β : Type} (x : Except Cause α) (f : α → Except Cause β) :
      (x >>= f).mapError Failure.ofCause =
        x.mapError Failure.ofCause >>= fun a => (f a).mapError Failure.ofCause := by
    cases x <;> rfl
  unfold readWithin ofContainer
  simp only [mapError_bind]
  refine (agrees_pickWithin rfl container).bind ?_
  rintro info _ - rfl
  refine (agrees_pickWithin rfl container).bind ?_
  rintro abbreviations _ - rfl
  refine (agrees_pickWithin rfl container).bind ?_
  rintro line _ - rfl
  exact .pure rfl

end DebugSections

namespace DebugFile

/-- Opens a file and finds its debug sections. -/
def readWithin (data : Bytes) : Guarded Failure DebugFile := do
  let container ← during .openingContainer (withCause .elf (Elf.Container.readWithin data))
  let sections ← DebugSections.readWithin container
  let info ← withCause .elf (container.contentsWithin sections.info.index)
  let abbreviations ← withCause .elf (container.contentsWithin sections.abbreviations.index)
  let line ← withCause .elf (container.contentsWithin sections.line.index)
  return { container, sections, info, abbreviations, line }

/-- A file with debugging information is opened within bounds. -/
theorem agrees_readWithin (data : Bytes) : Agrees Eq (readWithin data) (ofBytes data).result := by
  unfold readWithin ofBytes
  simp only [Traced.result_bind]
  refine (Elf.Container.agrees_readWithin data).ofElf.during.bind ?_
  rintro container _ hcontainer rfl
  have hfresh := Elf.Container.fresh_of_ofBytes
    (Outcome.result_ofElf_eq_ok_iff.mp (Outcome.result_during_eq_ok_iff.mp hcontainer))
  -- a section that is missing ends both sides
  have hsections := DebugSections.agrees_readWithin container
  cases hfound : DebugSections.ofContainer container with
  | error cause =>
    rw [hfound] at hsections
    rw [hsections.eq_throw]
    exact .throw _
  | ok sections =>
    rw [hfound] at hsections
    rw [hsections.eq_pure, pure_bind]
    simp only [Traced.result_bind, Traced.result_pure]
    refine (hfresh.agrees_contentsWithin _).ofElf.bind ?_
    rintro info _ - rfl
    refine (hfresh.agrees_contentsWithin _).ofElf.bind ?_
    rintro abbreviations _ - rfl
    refine (hfresh.agrees_contentsWithin _).ofElf.bind ?_
    rintro line _ - rfl
    exact .pure rfl

/-- The debug sections of a file are no longer than their recorded sizes say. -/
theorem lengths_lt {data : Bytes} {file : DebugFile} (h : (ofBytes data).result = .ok file) :
    file.info.length < 2 ^ 32 ∧ file.abbreviations.length < 2 ^ 32 ∧ file.line.length < 2 ^ 32 := by
  obtain ⟨hcontainer, -⟩ := result_ofBytes_eq_ok_iff.mp h
  have hfresh := Elf.Container.fresh_of_ofBytes hcontainer
  have hlength {name : String} {info : Elf.SectionInfo} {bytes : Bytes}
      (hhas : file.Has name info bytes) : bytes.length < 2 ^ 32 := by
    obtain ⟨found, hfound, -, -, rfl⟩ := hhas
    exact hfresh.length_contents_lt (List.mem_of_getElem? hfound)
  obtain ⟨hinfo, habbreviations, hline⟩ := has_of_ofBytes h
  exact ⟨hlength hinfo, hlength habbreviations, hlength hline⟩

end DebugFile

end DwarfLines
