import DwarfLines.Proofs.Elf.Tables
import DwarfLines.Proofs.Shrink.Output

/-!
# What shrinking leaves alone

The fixed part of a file keeps its bytes, except for the word that says where the table of sections is
and for references of compile units that are in the fixed part. Sections that start in the fixed part
are where they were. Nothing is assumed of where the file has its sections, which may overlap.
-/

namespace DwarfLines

open Outcome Elf

namespace Stages

variable {data out : Bytes} {stats : Stats} {run : Stages data out stats}
  {programs : List (UInt32 × ShrunkProgram)} {edits : List (Nat × UInt32)} {table : UInt32}

/-- The output starts with its front. -/
theorem Shows.getElem?_out (h : run.Shows programs edits table) {i : Nat}
    (hi : i < run.front.length) : out[i]? = (run.finalFront edits table)[i]? := by
  have hfront := h.arranged.holds_front i (by rwa [run.length_finalFront h.inside])
  rw [Nat.zero_add] at hfront
  exact (congrArg (fun bytes : Bytes => bytes[i]?) run.out_eq).trans hfront

/-- Where nothing is changed, the front of the output has the bytes of the file. -/
theorem Shows.getElem?_out_of_not_edited (h : run.Shows programs edits table) {i : Nat}
    (hi : i < run.front.length) (hplace : i ∉ sectionOffsetPlace)
    (hedits : run.placedInfo.header.offset < run.container.fixedStop →
      ∀ edit ∈ edits, i ∉ Image.editSpan (run.placedInfo.header.offset.toNat + edit.1, edit.2)) :
    out[i]? = data[i]? := by
  rw [h.getElem?_out hi, run.getElem?_finalFront h.inside hi hplace,
    run.getElem?_segmentedFront h.inside hi]
  split
  · rfl
  · exact run.getElem?_frontWith hi hedits

/-- Each edit is made where a reference is stored. -/
theorem Shows.exists_reference (h : run.Shows programs edits table) {edit : Nat × UInt32}
    (hedit : edit ∈ edits) : ∃ reference ∈ run.references, edit.1 = reference.valueOffset := by
  obtain ⟨reference, hmem, hvalue, -⟩ := exists_of_forall₂_of_mem h.records.edited.flip hedit
  exact ⟨reference, hmem, hvalue⟩

theorem mk_out (run : Stages data out stats) : Image.mk out = run.finalLayout.image :=
  congrArg Image.mk run.out_eq

/-- The header of the output points at the table of sections. -/
theorem Shows.holds_sectionOffsetField (h : run.Shows programs edits table) :
    (Image.mk out).Holds sectionOffsetField (bytesOfWord32 table) := by
  intro j hj
  have hplace := run.sectionOffsetPlace_le
  have hfixed := run.fixedStop_le
  rw [length_bytesOfWord32] at hj
  simp only [sectionOffsetPlace] at hplace
  show out[sectionOffsetField + j]? = _
  rw [h.getElem?_out (by omega)]
  exact Image.getElem?_writeAt_inside _ _ (by rwa [length_bytesOfWord32])

/-- The table of sections is where the header points. -/
theorem Shows.holds_table_out (h : run.Shows programs edits table) :
    (Image.mk out).Holds table.toNat
      (run.finalLayout.container.sections.flatMap fun s => s.header.bytes) := by
  rw [run.mk_out]
  exact h.holds_table

/-- A section that starts in the fixed part still starts there. -/
theorem Shows.exists_section_of_fixed (h : run.Shows programs edits table) {k : Nat} {old : Section}
    (hold : run.container.sections[k]? = some old)
    (hfixed : old.header.offset < run.container.fixedStop) :
    ∃ new, run.finalLayout.container.sections[k]? = some new ∧
      new.header.offset = old.header.offset := by
  have hk : k < run.finalLayout.container.sections.length := by
    rw [h.count]
    exact (List.getElem?_eq_some_iff.mp hold).1
  have hnew := List.getElem?_eq_getElem hk
  obtain ⟨old', hold', hrelaid⟩ := h.relaid k _ hnew
  obtain rfl := Option.some.inj (hold.symm.trans hold')
  have hpinned := hrelaid.pinned.trans (Section.pinned_eq_some_iff.mpr ⟨hfixed, rfl⟩)
  exact ⟨_, hnew, (Section.pinned_eq_some_iff.mp hpinned).2⟩

/-- In the fixed part, only references of compile units that are there are changed. -/
theorem Shows.getElem?_out_of_fixed (h : run.Shows programs edits table) {i : Nat}
    (hi : i < run.container.fixedStop.toNat) (hplace : i ∉ sectionOffsetPlace)
    (hreferences : ¬ (run.file.sections.info.offset < run.container.fixedStop ∧
      ∃ reference ∈ run.references,
        run.file.sections.info.offset.toNat + reference.valueOffset ≤ i ∧
          i < run.file.sections.info.offset.toNat + reference.valueOffset + 4)) :
    out[i]? = data[i]? := by
  refine h.getElem?_out_of_not_edited (Nat.lt_of_lt_of_le hi run.fixedStop_le) hplace
    fun hfixed edit hedit hmem => hreferences ?_
  obtain ⟨hfixed, hoffset⟩ := run.placedInfo_of_fixed hfixed
  obtain ⟨reference, hreference, hvalue⟩ := h.exists_reference hedit
  rw [hoffset, Image.editSpan, hvalue] at hmem
  exact ⟨hfixed, reference, hreference, hmem⟩

end Stages

/-- Shrinking a file leaves its fixed part alone, except for the word that says where the table of
sections is and for references to line programs in it, and leaves the sections that start in the fixed
part where they are. -/
theorem shrink_keeps_fixed_part {data out : Bytes} {stats : Stats}
    (h : (shrink data).result = .ok (out, stats)) :
    ∃ file, (DebugFile.ofBytes data).result = .ok file ∧
      file.container.fixedStop.toNat ≤ data.length ∧
      (∀ i < file.container.fixedStop.toNat, i ∉ sectionOffsetPlace →
        ¬ (file.sections.info.offset < file.container.fixedStop ∧
          ∃ reference ∈ (statementLists file.info file.abbreviations).1,
            file.sections.info.offset.toNat + reference.valueOffset ≤ i ∧
              i < file.sections.info.offset.toNat + reference.valueOffset + 4) →
        out[i]? = data[i]?) ∧
      ∃ table rest, Decoder.word32 (out.drop sectionOffsetField) = some (table, rest) ∧
        ∀ (k : Nat) (s : Section), file.container.sections[k]? = some s →
          s.header.offset < file.container.fixedStop →
          ∃ header rest, SectionHeader.decode (out.drop (table.toNat + k * Part.section.size)) =
            some (header, rest) ∧ header.offset = s.header.offset := by
  obtain ⟨run⟩ := nonempty_stages h
  obtain ⟨-, programs, edits, table, hshows⟩ := run.exists_shows
  obtain ⟨rest, htable⟩ :=
    hshows.holds_sectionOffsetField.exists_decode (Decoder.reads_word32 table)
  have hlength := run.fresh.fixed_le
  have hdata := congrArg List.length run.data_eq
  refine ⟨run.file, run.opened, Nat.le_trans hlength (Nat.le_of_eq hdata), ?_, table, rest, htable,
    ?_⟩
  · exact fun i hi hplace hreferences => hshows.getElem?_out_of_fixed hi hplace hreferences
  · intro k s hs hfixed
    obtain ⟨new, hnew, hoffset⟩ := hshows.exists_section_of_fixed hs hfixed
    obtain ⟨rest, hdecode⟩ := exists_decode_of_holds hshows.holds_table_out hnew
    exact ⟨new.header, rest, hdecode, hoffset⟩

/-- A file whose only segment loads its compile units, the first and the last of which have the
second line program. -/
def loadedUnitsFile : Bytes :=
  -- The header and the table of segments.
  [127, 69, 76, 70, 1, 1, 1, 0, 0, 0, 0, 0, 0, 0, 0, 0, 2, 0, 40, 0, 1, 0, 0, 0, 0, 0, 0, 0, 52, 0,
   0, 0, 29, 1, 0, 0, 0, 0, 0, 0, 52, 0, 32, 0, 1, 0, 40, 0, 4, 0, 3, 0] ++
  [1, 0, 0, 0, 84, 0, 0, 0, 0, 0, 0, 0, 0, 0, 0, 0, 48, 0, 0, 0, 48, 0, 0, 0, 0, 0, 0, 0, 1, 0, 0,
   0] ++
  -- The compile units and their abbreviations.
  [12, 0, 0, 0, 2, 0, 0, 0, 0, 0, 4, 1, 50, 0, 0, 0] ++
  [12, 0, 0, 0, 2, 0, 0, 0, 0, 0, 4, 1, 0, 0, 0, 0] ++
  [12, 0, 0, 0, 2, 0, 0, 0, 0, 0, 4, 1, 50, 0, 0, 0] ++
  [1, 17, 0, 16, 6, 0, 0, 0] ++
  -- The line programs.
  [46, 0, 0, 0, 2, 0, 21, 0, 0, 0, 1, 1, 251, 14, 10, 0, 1, 1, 1, 1, 0, 0, 0, 1, 0, 97, 0, 0, 0, 0,
   0, 0, 5, 2, 0, 16, 0, 0, 1, 2, 2, 1, 2, 2, 1, 2, 2, 0, 1, 1] ++
  [42, 0, 0, 0, 2, 0, 21, 0, 0, 0, 1, 1, 251, 14, 10, 0, 1, 1, 1, 1, 0, 0, 0, 1, 0, 97, 0, 0, 0, 0,
   0, 0, 5, 2, 0, 32, 0, 0, 20, 128, 129, 2, 2, 0, 1, 1] ++
  -- The names of the sections, and the table of sections.
  [0, 46, 100, 101, 98, 117, 103, 95, 105, 110, 102, 111, 0, 46, 100, 101, 98, 117, 103, 95, 97, 98,
   98, 114, 101, 118, 0, 46, 100, 101, 98, 117, 103, 95, 108, 105, 110, 101, 0, 46, 115, 104, 115,
   116, 114, 116, 97, 98, 0] ++
  [1, 0, 0, 0, 1, 0, 0, 0, 0, 0, 0, 0, 0, 0, 0, 0, 84, 0, 0, 0, 48, 0, 0, 0, 0, 0, 0, 0, 0, 0, 0, 0,
   1, 0, 0, 0, 0, 0, 0, 0] ++
  [13, 0, 0, 0, 1, 0, 0, 0, 0, 0, 0, 0, 0, 0, 0, 0, 132, 0, 0, 0, 8, 0, 0, 0, 0, 0, 0, 0, 0, 0, 0,
   0, 1, 0, 0, 0, 0, 0, 0, 0] ++
  [27, 0, 0, 0, 1, 0, 0, 0, 0, 0, 0, 0, 0, 0, 0, 0, 140, 0, 0, 0, 96, 0, 0, 0, 0, 0, 0, 0, 0, 0, 0,
   0, 1, 0, 0, 0, 0, 0, 0, 0] ++
  [39, 0, 0, 0, 3, 0, 0, 0, 0, 0, 0, 0, 0, 0, 0, 0, 236, 0, 0, 0, 49, 0, 0, 0, 0, 0, 0, 0, 0, 0, 0,
   0, 1, 0, 0, 0, 0, 0, 0, 0]

theorem shrink_keeps_fixed_part_loadedUnitsFile :
    ∃ out stats, (shrink loadedUnitsFile).result = .ok (out, stats) ∧
      ∃ file, (DebugFile.ofBytes loadedUnitsFile).result = .ok file ∧
        file.container.fixedStop.toNat ≤ loadedUnitsFile.length ∧
        (∀ i < file.container.fixedStop.toNat, i ∉ sectionOffsetPlace →
          ¬ (file.sections.info.offset < file.container.fixedStop ∧
            ∃ reference ∈ (statementLists file.info file.abbreviations).1,
              file.sections.info.offset.toNat + reference.valueOffset ≤ i ∧
                i < file.sections.info.offset.toNat + reference.valueOffset + 4) →
          out[i]? = loadedUnitsFile[i]?) ∧
        ∃ table rest, Decoder.word32 (out.drop sectionOffsetField) = some (table, rest) ∧
          ∀ (k : Nat) (s : Section), file.container.sections[k]? = some s →
            s.header.offset < file.container.fixedStop →
            ∃ header rest, SectionHeader.decode (out.drop (table.toNat + k * Part.section.size)) =
              some (header, rest) ∧ header.offset = s.header.offset := by
  have hsome : (shrink loadedUnitsFile).result.toOption.isSome = true := by decide +kernel
  obtain ⟨⟨out, stats⟩, hresult⟩ := exists_of_isSome_toOption hsome
  exact ⟨out, stats, hresult, shrink_keeps_fixed_part hresult⟩

end DwarfLines
