import DwarfLines.Proofs.Decoder
import DwarfLines.Proofs.Elf.Placing

/-!
# Reading tables again

The header of a file and its tables are read from the bytes where they are and from nothing else. So
they are read again from any file that has the same bytes there, and a table of sections is read from
any file in which it was written.
-/

namespace DwarfLines.Elf

open Outcome

/-- What a decoder makes of bytes it makes of an image that holds them. -/
theorem Image.Holds.exists_decode {α : Type} {d : Decoder α} {image : Image} {offset : Nat}
    {front : Bytes} {a : α} (h : image.Holds offset front) (hreads : d.Reads front a) :
    ∃ rest, d (image.bytes.drop offset) = some (a, rest) := by
  rw [h.drop_eq]
  exact ⟨_, hreads _⟩

/-! ## Section headers -/

/-- A section header reads back from its bytes. -/
theorem SectionHeader.reads_bytes (header : SectionHeader) :
    SectionHeader.decode.Reads header.bytes header := by
  have hbytes : header.bytes = bytesOfWord32 header.name ++ (bytesOfWord32 header.type ++
      (bytesOfWord32 header.flags ++ (bytesOfWord32 header.address ++
        (bytesOfWord32 header.offset ++ (bytesOfWord32 header.size ++
          (bytesOfWord32 header.link ++ (bytesOfWord32 header.info ++
            (bytesOfWord32 header.addressAlignment ++ bytesOfWord32 header.entrySize)))))))) := by
    simp [bytes, fields]
  have word (w : UInt32) := Decoder.reads_word32 w
  rw [hbytes]
  exact (word _).bind <| (word _).bind <| (word _).bind <| (word _).bind <| (word _).bind <|
    (word _).bind <| (word _).bind <| (word _).bind <| (word _).bind <| (word _).bind_last (.pure _)

/-- The entry of a section stands in the table after the entries of the sections before it. -/
theorem exists_flatMap_bytes_eq {sections : List Section} {k : Nat} {s : Section}
    (hs : sections[k]? = some s) :
    ∃ front back, (sections.flatMap fun s => s.header.bytes) = front ++ (s.header.bytes ++ back) ∧
      front.length = k * Part.section.size := by
  obtain ⟨hk, rfl⟩ := List.getElem?_eq_some_iff.mp hs
  refine ⟨(sections.take k).flatMap fun s => s.header.bytes,
    (sections.drop (k + 1)).flatMap fun s => s.header.bytes, ?_, ?_⟩
  · have hsplit : sections.take k ++ sections[k] :: sections.drop (k + 1) = sections := by
      rw [List.getElem_cons_drop, List.take_append_drop]
    conv_lhs => rw [← hsplit, List.flatMap_append, List.flatMap_cons]
  · rw [length_flatMap_bytes, List.length_take_of_le (Nat.le_of_lt hk)]

/-- Each entry of a table of sections that was written is read in its place. -/
theorem exists_decode_of_holds {image : Image} {table : Nat} {sections : List Section}
    (h : image.Holds table (sections.flatMap fun s => s.header.bytes)) {k : Nat} {s : Section}
    (hs : sections[k]? = some s) :
    ∃ rest, SectionHeader.decode (image.bytes.drop (table + k * Part.section.size)) =
      some (s.header, rest) := by
  obtain ⟨front, back, hbytes, hfront⟩ := exists_flatMap_bytes_eq hs
  rw [← List.drop_drop, h.drop_eq, hbytes, ← hfront, List.append_assoc, List.drop_left,
    List.append_assoc]
  exact ⟨_, s.header.reads_bytes _⟩

/-! ## Tables -/

/-- A table is read exactly where it lies inside the data. -/
theorem readTable_eq_ok_iff {α : Type} {data : Bytes} {part : Part} {entry : Decoder α}
    {offset : UInt32} {count : UInt16} {entries : List α} :
    readTable data part entry offset count = .ok entries ↔
      offset.toNat + count.toNat * part.size ≤ data.length ∧
        ∃ rest, entry.times count.toNat (data.drop offset.toNat) = some (entries, rest) := by
  unfold readTable
  simp only [throw_bind, ite_throw_eq_ok_iff, Nat.not_lt]
  refine and_congr_right fun _ => ?_
  split
  · rename_i entries' rest hentries
    rw [hentries, pure_eq_ok_iff]
    simp only [Option.some.injEq, Prod.mk.injEq, eq_comm, exists_and_left, exists_eq', and_true]
  · rename_i hnone
    constructor
    · intro h
      cases h
    · rintro ⟨rest, h⟩
      exact absurd h (hnone entries rest)

/-- A table whose bytes are in another file is read from there, too. -/
theorem readTable_of_same {α : Type} {data out : Bytes} {part : Part} {entry : Decoder α}
    {offset : UInt32} {count : UInt16} {entries : List α} (hlocal : entry.Local)
    (htakes : entry.Takes part.size) (h : readTable data part entry offset count = .ok entries)
    (hlength : offset.toNat + count.toNat * part.size ≤ out.length)
    (hsame : ∀ i, offset.toNat ≤ i → i < offset.toNat + count.toNat * part.size →
      out[i]? = data[i]?) :
    readTable out part entry offset count = .ok entries := by
  obtain ⟨-, rest, h⟩ := readTable_eq_ok_iff.mp h
  have htimes := htakes.times count.toNat _ _ _ h
  obtain ⟨front, hfront, hreads⟩ := hlocal.times count.toNat _ _ _ h
  rw [hfront, List.length_append, Nat.add_right_cancel_iff] at htimes
  have hholds : (Image.mk out).Holds offset.toNat front := by
    intro i hi
    have hbyte := congrArg (fun bytes => bytes[i]?) hfront
    rw [htimes] at hi
    simp only [List.getElem?_drop, List.getElem?_append_left (Nat.lt_of_lt_of_eq hi htimes.symm)]
      at hbyte
    exact (hsame _ (Nat.le_add_right _ _) (by omega)).trans hbyte
  exact readTable_eq_ok_iff.mpr ⟨hlength, hholds.exists_decode hreads⟩

/-- Reading a segment header does not depend on the bytes after it. -/
theorem Segment.local_decode : Segment.decode.Local := by
  unfold decode
  repeat refine Decoder.local_word32.bind fun _ => ?_
  exact .pure _

/-- A segment header takes its fixed size. -/
theorem Segment.takes_decode : Segment.decode.Takes Part.segment.size := by
  have word := Decoder.takes_word32
  exact word.bind fun _ => word.bind fun _ => word.bind fun _ => word.bind fun _ =>
    word.bind fun _ => word.bind fun _ => word.bind fun _ => word.bind fun _ => .pure _

/-- The table of sections that was written is read again. -/
theorem readSectionHeaders_of_holds {out : Bytes} {header : FileHeader} {sections : List Section}
    (hcount : sections.length = header.sectionCount.toNat)
    (hlength : header.sectionsStop ≤ out.length)
    (hholds : (Image.mk out).Holds header.sectionOffset.toNat
      (sections.flatMap fun s => s.header.bytes)) :
    readSectionHeaders out header = .ok (sections.map Section.header) := by
  have hreads : List.Forall₂ SectionHeader.decode.Reads
      (sections.map fun s => s.header.bytes) (sections.map Section.header) := by
    rw [List.forall₂_map_left_iff, List.forall₂_map_right_iff, List.forall₂_same]
    exact fun s _ => s.header.reads_bytes
  have htimes := Decoder.Reads.times hreads
  rw [List.length_map, hcount, ← List.flatMap_def] at htimes
  exact readTable_eq_ok_iff.mpr ⟨hlength, hholds.exists_decode htimes⟩

/-! ## File headers -/

/-- A header is read again from the same bytes with another place of the table of sections. -/
theorem FileHeader.exists_reads_of_decode {data rest : Bytes} {header : FileHeader}
    (h : decode data = some (header, rest)) :
    ∃ front back, data = front ++ (bytesOfWord32 header.sectionOffset ++ back) ++ rest ∧
      front.length = sectionOffsetField ∧
      (front ++ (bytesOfWord32 header.sectionOffset ++ back)).length = Part.fileHeader.size ∧
      ∀ table, decode.Reads (front ++ (bytesOfWord32 table ++ back))
        { header with sectionOffset := table } := by
  simp only [decode, Decoder.bind_eq_some_iff, Decoder.take_eq_some_iff,
    Decoder.word16_eq_some_iff, Decoder.word32_eq_some_iff, Decoder.pure_eq_some_iff] at h
  obtain ⟨identification, _, ⟨rfl, hid⟩, type, _, rfl, machine, _, rfl, version, _, rfl, entry, _,
    rfl, segmentOffset, _, rfl, sectionOffset, _, rfl, flags, _, rfl, headerSize, _, rfl,
    segmentSize, _, rfl, segmentCount, _, rfl, sectionSize, _, rfl, sectionCount, _, rfl,
    nameSection, _, rfl, rfl, rfl⟩ := h
  -- The bytes of the header are those of its fields; the offset stands between the other ones.
  refine ⟨identification ++ (bytesOfWord16 type ++ (bytesOfWord16 machine ++
      (bytesOfWord32 version ++ (bytesOfWord32 entry ++ bytesOfWord32 segmentOffset)))),
    bytesOfWord32 flags ++ (bytesOfWord16 headerSize ++ (bytesOfWord16 segmentSize ++
      (bytesOfWord16 segmentCount ++ (bytesOfWord16 sectionSize ++ (bytesOfWord16 sectionCount ++
        bytesOfWord16 nameSection))))), ?_, ?_, ?_, ?_⟩
  · simp only [List.append_assoc]
  · simp [hid, sectionOffsetField]
  · simp [hid, Part.size]
  · intro table
    have half (w : UInt16) := Decoder.reads_word16 w
    have word (w : UInt32) := Decoder.reads_word32 w
    simp only [List.append_assoc]
    exact (Decoder.reads_take hid).bind <| (half _).bind <| (half _).bind <| (word _).bind <|
      (word _).bind <| (word _).bind <| (word _).bind <| (word _).bind <| (half _).bind <|
      (half _).bind <| (half _).bind <| (half _).bind <| (half _).bind <|
      (half _).bind_last (.pure _)

/-- The checks that a file header passes, in their order. -/
theorem FileHeader.read_eq_ok_iff {data : Bytes} {header : FileHeader} :
    read data = .ok header ↔
      (∃ rest, decode data = some (header, rest)) ∧ data.take 4 = magic ∧ data[4]? = some 1 ∧
        data[5]? = some 1 ∧ checkSize .fileHeader header.headerSize = .ok () ∧
        (0 < header.segmentCount → checkSize .segment header.segmentSize = .ok ()) ∧
        -- the test for the end of the table comes first on both sides
        (0 < header.sectionCount → checkSize .section header.sectionSize = .ok ()) ∧
        header.segmentsStop ≤ data.length ∧ header.sectionsStop ≤ data.length := by
  unfold read
  split
  · rename_i header' rest hdecode
    rw [hdecode]
    simp only [throw_bind, ite_throw_eq_ok_iff, ite_check_eq_ok_iff, bind_eq_ok_iff, pure_eq_ok_iff,
      not_or, Nat.not_lt, ne_eq, not_not]
    constructor
    · rintro ⟨hmagic, hclass, hencoding, ⟨⟩, hsize, hsegments, hsections, hstops, rfl⟩
      exact ⟨⟨rest, rfl⟩, hmagic, hclass, hencoding, hsize, hsegments, hsections, hstops⟩
    · rintro ⟨⟨_, hheader⟩, hmagic, hclass, hencoding, hsize, hsegments, hsections, hstops⟩
      obtain ⟨rfl, -⟩ := Prod.mk.inj (Option.some.inj hheader)
      exact ⟨hmagic, hclass, hencoding, (), hsize, hsegments, hsections, hstops, rfl⟩
  · rename_i hnone
    constructor
    · intro h
      cases h
    · rintro ⟨⟨rest, hdecode⟩, -⟩
      exact absurd hdecode (hnone header rest)

/-- A header is read again from a file that has the same bytes there, but for the place of the table
of sections. -/
theorem FileHeader.read_of_same {data out : Bytes} {header : FileHeader} {table : UInt32}
    (h : read data = .ok header)
    (hsame : ∀ i < Part.fileHeader.size, i ∉ sectionOffsetPlace → out[i]? = data[i]?)
    (htable : (Image.mk out).Holds sectionOffsetField (bytesOfWord32 table))
    (hsegments : header.segmentsStop ≤ out.length)
    (hsections : table.toNat + header.sectionCount.toNat * Part.section.size ≤ out.length) :
    read out = .ok { header with sectionOffset := table } := by
  obtain ⟨⟨rest, hdecode⟩, hmagic, hclass, hencoding, hsize, hsegment, hsection, -⟩ :=
    read_eq_ok_iff.mp h
  obtain ⟨front, back, hdata, hfront, hlength, hreads⟩ := exists_reads_of_decode hdecode
  -- magic, class and encoding stand in front of the pointer that changed
  have hsmall : ∀ i < 6, out[i]? = data[i]? := fun i hi => hsame i
    (by simp only [Part.size]; omega)
    (by simp only [sectionOffsetPlace, sectionOffsetField, Span.mem_iff]; omega)
  have hholds : (Image.mk out).Holds 0 (front ++ (bytesOfWord32 table ++ back)) := by
    have hold : (Image.mk data).Holds 0 (front ++ (bytesOfWord32 header.sectionOffset ++ back)) :=
      hdata ▸ .of_append _ _
    refine hold.splice (by simp) ?_ (by rwa [Nat.zero_add, hfront])
    intro i _ hi hplace
    rw [Nat.zero_add, hlength] at hi
    rw [Nat.zero_add, hfront, length_bytesOfWord32] at hplace
    exact hsame i hi hplace
  refine read_eq_ok_iff.mpr ⟨hholds.exists_decode (hreads table), ?_, ?_, ?_, hsize, hsegment,
    hsection, hsegments, hsections⟩
  · rw [← hmagic]
    apply List.ext_getElem?
    intro i
    rw [List.getElem?_take, List.getElem?_take]
    split
    · exact hsmall i (by omega)
    · rfl
  · rw [hsmall 4 (by omega), hclass]
  · rw [hsmall 5 (by omega), hencoding]

end DwarfLines.Elf
