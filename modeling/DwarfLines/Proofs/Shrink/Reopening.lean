import DwarfLines.Proofs.Elf.Parts
import DwarfLines.Proofs.Elf.Reopening
import DwarfLines.Proofs.Line.Section
import DwarfLines.Proofs.Shrink.Frame

/-!
# The output is a file again

If the parts of a file do not overlap, and the names of its sections are neither among the compile
units nor among the line programs, the output of shrinking is opened again. It has the debug sections
where they were: the compile units with changed references, the abbreviations as they were, and the
line programs that were written.
-/

namespace DwarfLines

open Outcome Elf

/-- Whether the parts of a file do not overlap, and the names of its sections are in a section of
their own. -/
structure DebugFile.WellLaidOut (file : DebugFile) : Prop where
  apart : file.container.parts.Pairwise Span.Apart
  names_ne_info : file.container.header.nameSection.toNat ≠ file.sections.info.index
  names_ne_line : file.container.header.nameSection.toNat ≠ file.sections.line.index

instance (file : DebugFile) : Decidable file.WellLaidOut :=
  decidable_of_iff (file.container.parts.Pairwise Span.Apart ∧
    file.container.header.nameSection.toNat ≠ file.sections.info.index ∧
    file.container.header.nameSection.toNat ≠ file.sections.line.index)
    ⟨fun ⟨apart, info, line⟩ => ⟨apart, info, line⟩, fun ⟨apart, info, line⟩ => ⟨apart, info, line⟩⟩

namespace DebugFile.WellLaidOut

variable {file : DebugFile} (h : file.WellLaidOut)

include h

/-- In a well laid out file the file header is apart from the segment table. -/
theorem header_segments :
    (Span.mk 0 Part.fileHeader.size).Apart file.container.header.segmentTable :=
  Container.header_apart_segments h.apart

/-- In a well laid out file the file header is apart from every stored section. -/
theorem header_section {s : Section} (hs : s ∈ file.container.sections)
    (hdata : s.header.hasFileData = true) : (Span.mk 0 Part.fileHeader.size).Apart s.source :=
  Container.header_apart_section h.apart hs hdata

/-- In a well laid out file the segment table is apart from every stored section. -/
theorem segments_section {s : Section} (hs : s ∈ file.container.sections)
    (hdata : s.header.hasFileData = true) : file.container.header.segmentTable.Apart s.source :=
  Container.segments_apart_section h.apart hs hdata

/-- In a well laid out file two stored sections are apart. -/
theorem sections {j k : Nat} {s t : Section} (hjk : j ≠ k)
    (hs : file.container.sections[j]? = some s) (ht : file.container.sections[k]? = some t)
    (hdata : s.header.hasFileData = true) (hdata' : t.header.hasFileData = true) :
    s.source.Apart t.source :=
  Container.sections_apart h.apart hjk hs ht hdata hdata'

end DebugFile.WellLaidOut

namespace Stages

variable {data out : Bytes} {stats : Stats} {run : Stages data out stats}
  {programs : List (UInt32 × ShrunkProgram)} {edits : List (Nat × UInt32)} {table : UInt32}

/-- An edit in the fixed part is among the contents of the section of compile units. -/
theorem Shows.mem_source_of_edit (h : run.Shows programs edits table)
    (hfixed : run.placedInfo.header.offset < run.container.fixedStop) {edit : Nat × UInt32}
    (hedit : edit ∈ edits) {i : Nat}
    (hi : i ∈ Image.editSpan (run.placedInfo.header.offset.toNat + edit.1, edit.2)) :
    ∃ info, run.container.sections[run.infoIndex]? = some info ∧
      info.header.hasFileData = true ∧ i ∈ info.source := by
  obtain ⟨info, hinfo, hcontents, hoffset⟩ := run.find_info
  obtain ⟨-, hplaced⟩ := run.placedInfo_of_fixed hfixed
  have hmem := List.mem_of_getElem? hinfo
  have hinside := h.inside edit hedit
  rw [hcontents] at hinside
  -- a section without file contents is empty, and the word would not fit
  have hdata : info.header.hasFileData = true := by
    by_contra hnone
    rw [run.fresh.contents_eq_nil hmem (Bool.not_eq_true _ ▸ hnone)] at hinside
    simp at hinside
  obtain ⟨hsource, -⟩ := run.fresh.source_eq hmem hdata
  rw [run.fresh.length_contents hmem hdata] at hinside
  refine ⟨info, hinfo, hdata, ?_⟩
  rw [hplaced, hoffset] at hi
  rw [hsource]
  simp only [Image.editSpan, Span.mem_iff] at hi ⊢
  omega

/-- The front of the output has the bytes of the file outside the section of compile units. -/
theorem Shows.getElem?_out_of_apart (h : run.Shows programs edits table) {i : Nat}
    (hi : i < run.front.length) (hplace : i ∉ sectionOffsetPlace)
    (hinfo : ∀ info, run.container.sections[run.infoIndex]? = some info →
      info.header.hasFileData = true → i ∉ info.source) : out[i]? = data[i]? := by
  refine h.getElem?_out_of_not_edited hi hplace fun hfixed edit hedit hmem => ?_
  obtain ⟨info, hfound, hdata, hsource⟩ := h.mem_source_of_edit hfixed hedit hmem
  exact hinfo info hfound hdata hsource

/-! ## What the sections hold -/

/-- The compile units with their changed references. -/
def changedInfo (run : Stages data out stats) (edits : List (Nat × UInt32)) : Bytes :=
  ((Image.mk run.file.info).writeWords edits).bytes

/-- What each section of the output holds. -/
def outputHeld (run : Stages data out stats) (programs : List (UInt32 × ShrunkProgram))
    (edits : List (Nat × UInt32)) : Nat → Bytes :=
  Function.update (Function.update run.container.held run.infoIndex (run.changedInfo edits))
    run.lineIndex (lineSection programs)

/-- The new `.debug_line` holds the re-encoded programs. -/
theorem outputHeld_lineIndex : run.outputHeld programs edits run.lineIndex = lineSection programs :=
  Function.update_self ..

/-- The new `.debug_info` holds the old one with its references rewritten. -/
theorem outputHeld_infoIndex : run.outputHeld programs edits run.infoIndex =
    run.changedInfo edits := by
  rw [outputHeld, Function.update_of_ne run.info_ne_line, Function.update_self]

/-- Every other section holds what it held. -/
theorem outputHeld_of_ne {k : Nat} (hinfo : k ≠ run.infoIndex) (hline : k ≠ run.lineIndex) :
    run.outputHeld programs edits k = run.container.held k := by
  rw [outputHeld, Function.update_of_ne hline, Function.update_of_ne hinfo]

/-- A section of the output that was moved holds what the layout says. -/
theorem finalHeld_eq {k : Nat} (h : k = run.infoIndex →
    ¬ run.placedInfo.header.offset < run.container.fixedStop) :
    run.finalHeld programs edits k = run.outputHeld programs edits k := by
  by_cases hk : k = run.infoIndex
  · rw [finalHeld, heldWith, if_neg (h hk), outputHeld, changedInfo, held_infoIndex]
  · by_cases hline : k = run.lineIndex
    · rw [hline, outputHeld_lineIndex]
      exact Function.update_self ..
    · rw [finalHeld, outputHeld_of_ne hk hline, Function.update_of_ne hline, heldWith]
      split
      · rfl
      · exact Function.update_of_ne hk ..

/-- Rewriting the references keeps the length of `.debug_info`. -/
theorem Shows.length_changedInfo (h : run.Shows programs edits table) :
    (run.changedInfo edits).length = run.file.info.length := Image.length_writeWords h.inside

/-- The room taken by the new `.debug_line` is the length of its programs. -/
theorem Shows.length_lineSection (h : run.Shows programs edits table) :
    (run.output.stop - run.start).toNat = (lineSection programs).length := by
  have hstop : run.output.stop.toNat = run.start.toNat + (lineSection programs).length :=
    h.records.stop_eq
  rw [UInt32.toNat_sub_of_le _ _ (UInt32.le_iff_toNat_le.mpr (by omega)), hstop,
    Nat.add_sub_cancel_left]

/-- No programs are written if the file has none. -/
theorem Shows.lineSection_eq_nil (h : run.Shows programs edits table) (hline : run.file.line = []) :
    lineSection programs = [] := by
  have hprograms : programs = [] := by
    refine List.eq_nil_iff_forall_not_mem.mpr fun p hp => ?_
    have hunit := (h.records.shrunk p hp).unit
    have hplaces : run.places.line = [] := hline
    rw [hplaces] at hunit
    exact unitAt_nil_ne_ok hunit
  rw [hprograms]
  rfl

/-- A section without contents holds nothing. -/
theorem Shows.outputHeld_eq_nil (h : run.Shows programs edits table) {k : Nat} {old : Section}
    (hold : run.container.sections[k]? = some old) (hdata : old.header.hasFileData = false) :
    run.outputHeld programs edits k = [] := by
  have hcontents := run.fresh.contents_eq_nil (List.mem_of_getElem? hold) hdata
  by_cases hline : k = run.lineIndex
  · obtain ⟨line, hfound, hbytes, -⟩ := run.find_line
    obtain rfl := Option.some.inj (hfound.symm.trans (hline ▸ hold))
    rw [hline, outputHeld_lineIndex, h.lineSection_eq_nil (hbytes.trans hcontents)]
  · by_cases hinfo : k = run.infoIndex
    · rw [hinfo, outputHeld_infoIndex, List.eq_nil_iff_length_eq_zero, h.length_changedInfo,
        ← held_infoIndex, ← hinfo, Container.held_eq hold, hcontents]
      rfl
    · rw [outputHeld_of_ne hinfo hline, Container.held_eq hold, hcontents]

/-- The size of a section in the output is that of what it holds. -/
theorem Shows.toNat_finalSize (h : run.Shows programs edits table) {k : Nat} {old : Section}
    (hold : run.container.sections[k]? = some old) (hdata : old.header.hasFileData = true) :
    (run.finalSize k old).toNat = (run.outputHeld programs edits k).length := by
  have hcontents := run.fresh.length_contents (List.mem_of_getElem? hold) hdata
  unfold finalSize
  by_cases hline : k = run.lineIndex
  · rw [if_pos hline, hline, outputHeld_lineIndex, h.length_lineSection]
  · rw [if_neg hline, ← hcontents, ← Container.held_eq hold]
    by_cases hinfo : k = run.infoIndex
    · rw [hinfo, outputHeld_infoIndex, h.length_changedInfo, held_infoIndex]
    · rw [outputHeld_of_ne hinfo hline]

/-! ## Opening the output -/

/-- The section of compile units shows the changed references if it is in the fixed part. -/
theorem Shows.slice_out_of_fixed_info (h : run.Shows programs edits table)
    (hlayout : run.file.WellLaidOut) {info : Section}
    (hinfo : run.container.sections[run.infoIndex]? = some info)
    (hdata : info.header.hasFileData = true)
    (hfixed : info.header.offset < run.container.fixedStop)
    (hstop : info.source.stop ≤ run.front.length) :
    info.source.slice out = run.changedInfo edits := by
  have hmem := List.mem_of_getElem? hinfo
  obtain ⟨hsource, hsourceStop⟩ := run.fresh.source_eq hmem hdata
  obtain ⟨hplaced, hoffset⟩ := Section.pinned_eq_some_iff.mp
    ((run.pinned_placedInfo hinfo).trans (Section.pinned_eq_some_iff.mpr ⟨hfixed, rfl⟩))
  obtain ⟨found, hfound, hcontents, -⟩ := run.find_info
  obtain rfl := Option.some.inj (hfound.symm.trans hinfo)
  have hfront : found.source.slice run.front = run.file.info :=
    (Span.slice_congr fun i hi => run.getElem?_front (Nat.lt_of_lt_of_le hi.2 hstop)).trans
      hcontents.symm
  -- The section shares no bytes with the tables, so only the references in it are changed.
  have hout : found.source.slice out = found.source.slice
      (frontWith run.container.fixedStop run.placedInfo run.front edits) := by
    refine Span.slice_congr fun i hi => ?_
    have hlt : i < run.front.length := Nat.lt_of_lt_of_le hi.2 hstop
    have hplace : i ∉ sectionOffsetPlace := fun hplace =>
      hlayout.header_section hmem hdata i (mem_header_of_mem_sectionOffsetPlace hplace) hi
    have hsegment : i ∉ run.container.header.segmentTable := fun hsegment =>
      hlayout.segments_section hmem hdata i hsegment hi
    rw [h.getElem?_out hlt, run.getElem?_finalFront h.inside hlt hplace,
      run.getElem?_segmentedFront h.inside hlt, if_neg hsegment]
  have hstart : found.source.start = found.header.offset.toNat := by rw [hsource]
  have hlength : found.source.length = run.file.info.length := by
    rw [hcontents, Container.contents, Span.length_slice hsourceStop]
  rw [hout, frontWith, if_pos hplaced, changedInfo, ← hfront, hoffset, ← hstart]
  refine Image.slice_writeWords hstop ?_
  rw [hlength]
  exact h.inside

/-- A section in the fixed part shows what it is to hold. -/
theorem Shows.slice_out_of_fixed (h : run.Shows programs edits table)
    (hlayout : run.file.WellLaidOut) {k : Nat} {old : Section}
    (hold : run.container.sections[k]? = some old) (hdata : old.header.hasFileData = true)
    (hfixed : old.header.offset < run.container.fixedStop) :
    old.source.stop ≤ run.front.length ∧
      old.source.slice out = run.outputHeld programs edits k := by
  have hmem := List.mem_of_getElem? hold
  obtain ⟨hsource, -⟩ := run.fresh.source_eq hmem hdata
  have hstop : old.source.stop ≤ run.front.length := by
    have hle := run.contents_le_front hmem hfixed
    rw [run.fresh.length_contents hmem hdata] at hle
    rwa [hsource]
  refine ⟨hstop, ?_⟩
  -- A file whose line section is in the fixed part is not shrunk.
  have hline : k ≠ run.lineIndex := by
    rintro rfl
    obtain ⟨line, hfound, -, hunloaded⟩ := run.find_line
    obtain rfl := Option.some.inj (hfound.symm.trans hold)
    exact UInt32.not_lt.mpr hunloaded hfixed
  by_cases hinfo : k = run.infoIndex
  · subst hinfo
    rw [outputHeld_infoIndex]
    exact h.slice_out_of_fixed_info hlayout hold hdata hfixed hstop
  · rw [outputHeld_of_ne hinfo hline, Container.held_eq hold]
    refine Span.slice_congr fun i hi => ?_
    have hlt := Nat.lt_of_lt_of_le hi.2 hstop
    have hout : out[i]? = data[i]? := h.getElem?_out_of_apart hlt
      (fun hplace => hlayout.header_section hmem hdata i
        (mem_header_of_mem_sectionOffsetPlace hplace) hi)
      fun info hfound hdata' => hlayout.sections hinfo hold hfound hdata hdata' i hi
    exact hout.trans (run.getElem?_data i).symm

/-- The fixed part of the file is inside the output. -/
theorem Shows.length_front_le (h : run.Shows programs edits table) :
    run.front.length ≤ out.length := by
  have hfront := h.arranged.front_le
  have hstop := h.stop_le
  have hlength := h.length
  rw [run.length_finalFront h.inside] at hfront
  omega

/-- A section that was moved shows what it is to hold. -/
theorem Shows.slice_out_of_moved (h : run.Shows programs edits table) {k : Nat}
    {old new : Section} (hold : run.container.sections[k]? = some old)
    (hnew : run.finalLayout.container.sections[k]? = some new) (hrelaid : run.Relaid k old new)
    (hdata : new.header.hasFileData = true)
    (hmoved : run.container.fixedStop ≤ new.header.offset) :
    (new.place (run.outputHeld programs edits k)).stop ≤ out.length ∧
      (new.place (run.outputHeld programs edits k)).slice out =
        run.outputHeld programs edits k := by
  obtain ⟨-, hstop, hholds⟩ := h.arranged.moved k new hnew
    ⟨hrelaid.placed hdata, hdata, by rwa [h.fixedStop]⟩
  have hheld : run.finalHeld programs edits k = run.outputHeld programs edits k := by
    refine finalHeld_eq fun hinfo hfixed => ?_
    have hpinned := hrelaid.pinned.trans (run.pinned_placedInfo (hinfo ▸ hold)).symm
    rw [Section.pinned_eq_none_iff.mpr hmoved] at hpinned
    exact UInt32.not_lt.mpr (Section.pinned_eq_none_iff.mp hpinned.symm) hfixed
  rw [hheld, ← run.mk_out] at hholds
  rw [hheld] at hstop
  have hstopLe := h.stop_le
  have hlength := h.length
  exact ⟨by omega, hholds.slice _ rfl (Nat.add_sub_cancel_left _ _)⟩

/-- Each section of the output shows what it is to hold. -/
theorem Shows.exists_source (h : run.Shows programs edits table) (hlayout : run.file.WellLaidOut)
    {k : Nat} {new : Section} (hnew : run.finalLayout.container.sections[k]? = some new) :
    ∃ source, sourceOf? out.length new.header = some source ∧
      source.slice out = run.outputHeld programs edits k := by
  obtain ⟨old, hold, hrelaid⟩ := h.relaid k new hnew
  have hsame : new.header.hasFileData = old.header.hasFileData := by
    rw [hrelaid.header]
    rfl
  cases hdata : new.header.hasFileData with
  | false =>
    obtain ⟨source, hsource, hslice⟩ := exists_sourceOf?_of_not_hasFileData out.length hdata
    rw [h.outputHeld_eq_nil hold (hsame ▸ hdata)]
    exact ⟨source, hsource, hslice out⟩
  | true =>
    have hsize : new.header.size.toNat = (run.outputHeld programs edits k).length := by
      rw [← h.toNat_finalSize hold (hsame ▸ hdata), hrelaid.header]
    suffices hplace : (new.place (run.outputHeld programs edits k)).stop ≤ out.length ∧
        (new.place (run.outputHeld programs edits k)).slice out =
          run.outputHeld programs edits k by
      refine ⟨_, ?_, hplace.2⟩
      unfold sourceOf?
      rw [if_pos hdata, hsize]
      exact if_pos hplace.1
    -- A section was moved by the run, or is in the fixed part of both files at one place.
    by_cases hmoved : run.container.fixedStop ≤ new.header.offset
    · exact h.slice_out_of_moved hold hnew hrelaid hdata hmoved
    · obtain ⟨hfixed, hoffset⟩ := Section.pinned_eq_some_iff.mp (hrelaid.pinned.symm.trans
        (Section.pinned_eq_some_iff.mpr ⟨UInt32.not_le.mp hmoved, rfl⟩))
      obtain ⟨hstop, hslice⟩ := h.slice_out_of_fixed hlayout hold (hsame ▸ hdata) hfixed
      have hstop := Nat.le_trans hstop h.length_front_le
      obtain ⟨hsource, -⟩ := run.fresh.source_eq (List.mem_of_getElem? hold) (hsame ▸ hdata)
      have hlength := Span.length_slice hstop
      rw [hslice, hsource, Span.length, Nat.add_sub_cancel_left] at hlength
      have hplace : new.place (run.outputHeld programs edits k) = old.source := by
        rw [Section.place, hlength, hsource, hoffset]
      rw [hplace]
      exact ⟨hstop, hslice⟩

/-- The output is the file rewritten with the sections of the last layout. -/
theorem Shows.rewritten (h : run.Shows programs edits table) (hlayout : run.file.WellLaidOut) :
    run.container.Rewritten run.finalLayout.container.sections (run.outputHeld programs edits) table
      out := by
  have hfixedStop := run.fixedStop_le
  -- the front changes at the pointer to the section table and inside `.debug_info` only
  have hapart : ∀ i, (∀ info ∈ run.container.sections, info.header.hasFileData = true →
      i ∉ info.source) → i < run.container.fixedStop.toNat → i ∉ sectionOffsetPlace →
        out[i]? = run.container.data[i]? := by
    intro i hinfo hi hplace
    have hout : out[i]? = data[i]? := h.getElem?_out_of_apart (by omega) hplace
      fun info hfound hdata => hinfo info (List.mem_of_getElem? hfound) hdata
    exact hout.trans (run.getElem?_data i).symm
  refine ⟨?_, ?_, Nat.le_trans hfixedStop h.length_front_le, h.holds_sectionOffsetField,
    h.holds_table_out, by rw [h.count]; exact Nat.le_of_eq h.length.symm, h.count,
    fun k new hnew => h.exists_source hlayout hnew⟩
  · intro i hi hplace
    refine hapart i (fun info hmem hdata => ?_) (Nat.lt_of_lt_of_le hi run.fresh.header_le) hplace
    exact hlayout.header_section hmem hdata i ⟨Nat.zero_le _, hi⟩
  · intro i hi
    refine hapart i (fun info hmem hdata => ?_) (Nat.lt_of_lt_of_le hi.2 run.segmentTable_le) ?_
    · exact hlayout.segments_section hmem hdata i hi
    · exact fun hplace =>
        hlayout.header_segments i (mem_header_of_mem_sectionOffsetPlace hplace) hi

/-- Every section of a well laid out file is found under its name in the output. -/
theorem Shows.keepsNames (h : run.Shows programs edits table) (hlayout : run.file.WellLaidOut) :
    run.container.KeepsNames run.finalLayout.container.sections
      (run.outputHeld programs edits) where
  section_eq k new hnew := by
    obtain ⟨old, hold, hrelaid⟩ := h.relaid k new hnew
    rw [hrelaid.header]
    exact ⟨old, hold, rfl, rfl⟩
  names names hnames := by
    exact (outputHeld_of_ne hlayout.names_ne_info hlayout.names_ne_line).trans
      (Container.held_eq hnames)

/-- The output is opened, and has the compile units with changed references, the abbreviations as
they were, and the programs that were written. -/
theorem Shows.exists_file (h : run.Shows programs edits table) (hlayout : run.file.WellLaidOut) :
    ∃ file', (DebugFile.ofBytes out).result = .ok file' ∧
      file'.sections.info.index = run.file.sections.info.index ∧
      file'.sections.abbreviations.index = run.file.sections.abbreviations.index ∧
      file'.sections.line.index = run.file.sections.line.index ∧
      file'.info = run.changedInfo edits ∧ file'.abbreviations = run.file.abbreviations ∧
      file'.line = lineSection programs := by
  obtain ⟨file', hopen, hinfo, habbreviations, hline, hinfo', habbreviations', hline'⟩ :=
    DebugFile.exists_ofBytes_of_rewritten run.opened (h.rewritten hlayout) (h.keepsNames hlayout)
  have hheld : run.outputHeld programs edits run.file.sections.abbreviations.index =
      run.file.abbreviations := by
    obtain ⟨hinfo, habbreviations, hline⟩ := DebugFile.has_of_ofBytes run.opened
    rw [outputHeld_of_ne (habbreviations.index_ne hinfo (by decide))
      (habbreviations.index_ne hline (by decide))]
    obtain ⟨found, hfound, -, -, hcontents⟩ := habbreviations
    exact (Container.held_eq hfound).trans hcontents.symm
  exact ⟨file', hopen, hinfo, habbreviations, hline, hinfo'.trans outputHeld_infoIndex,
    habbreviations'.trans hheld, hline'.trans outputHeld_lineIndex⟩

end Stages

end DwarfLines
