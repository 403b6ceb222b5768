import DwarfLines.Proofs.SectionListing
import DwarfLines.Proofs.Shrink.Contents

/-!
# The output listed

The line section of the output is listed without errors: it is filled by the programs that were
written, each of which is referred to. The statistics count what is listed, and what was read.
-/

namespace DwarfLines

open Outcome Elf

/-- Whether a listing of a file is complete and lists the given programs: they fill the line section,
compile units refer to each of them, and the text has their paragraphs. -/
structure Listing.IsComplete (current : Option String) (file : DebugFile)
    (items : List (UInt32 × Program)) (listing : Listing) : Prop where
  result_eq : listing.outcome.result = .ok ()
  tile : Program.Tile file.line 0 items file.line.length
  referenced : ∀ item ∈ items, ∃ reference ∈ (statementLists file.info file.abbreviations).1,
    reference.lineOffset = item.1
  hasParagraphs : HasParagraphs current (statementLists file.info file.abbreviations).1 items
    listing.text

/-- A file whose references are complete is listed completely if programs that are referred to fill its
line section. -/
theorem Listing.isComplete_ofFile {data : Bytes} {file : DebugFile}
    {items : List (UInt32 × Program)} (current : Option String)
    (hfile : (DebugFile.ofBytes data).result = .ok file)
    (hreferences : (statementLists file.info file.abbreviations).2 = none)
    (htile : Program.Tile file.line 0 items file.line.length)
    (hreferenced : ∀ item ∈ items, ∃ reference ∈ (statementLists file.info file.abbreviations).1,
      reference.lineOffset = item.1) :
    (ofFile current data).IsComplete current file items := by
  have hfound := result_lineSection hfile
  have hsplit : statementLists file.info file.abbreviations =
      ((statementLists file.info file.abbreviations).1, none) := Prod.ext rfl hreferences
  rw [hsplit] at hfound
  have hcovers := covers_ofFile hfound current
  have hok := hcovers.result_eq_ok_iff.mpr ⟨items, htile⟩
  obtain ⟨listed, stop, hlisted, hends, htext⟩ := hcovers
  rw [hok] at hends
  cases hends
  -- The programs that are listed fill the section too, so they are the same.
  obtain rfl := hlisted.unique htile
  exact ⟨hok, htile, hreferenced, htext⟩

namespace Stages

variable {data out : Bytes} {stats : Stats} {run : Stages data out stats}
  {programs : List (UInt32 × ShrunkProgram)} {edits : List (Nat × UInt32)} {table : UInt32}

/-- The new offset of a program is where it stands in the new line section. -/
theorem Shows.toNat_newOffset (h : run.Shows programs edits table)
    {front back : List (UInt32 × ShrunkProgram)} {p : UInt32 × ShrunkProgram}
    (hprograms : programs = front ++ p :: back) :
    (run.newOffset p.1).toNat = (lineSection front).length := by
  have hstop := h.records.stop_eq
  have hlt := run.output.stop.toNat_lt
  rw [hprograms, lineSection_append, List.length_append] at hstop
  have hlength : (UInt32.ofNat (lineSection front).length).toNat = (lineSection front).length :=
    UInt32.toNat_ofNat_of_lt' (Nat.lt_of_le_of_lt (by omega) hlt)
  have hlookup := (h.records.moved p.1 _).mpr ⟨front, p.2, back, hprograms, hlength⟩
  rw [newOffset, hlookup]
  exact hlength

/-- The programs that were written fill the new line section one behind the other, with the rows that
are left: by induction on those that are still to come. -/
theorem Shows.exists_tile (h : run.Shows programs edits table)
    {front back : List (UInt32 × ShrunkProgram)} (hprograms : programs = front ++ back) :
    ∃ items, Program.Tile (lineSection programs) (lineSection front).length items
        (lineSection programs).length ∧
      (∀ item ∈ items, ∃ p ∈ programs, run.newOffset p.1 = item.1) ∧
      items.map (fun item => item.2.rows.length) = back.map fun p => p.2.rows.length := by
  -- the programs stand one behind the other, so the induction goes along them with what was written
  -- before
  induction back generalizing front with
  | nil =>
    rw [List.append_nil] at hprograms
    exact ⟨[], congrArg (fun programs => (lineSection programs).length) hprograms.symm, nofun, rfl⟩
  | cons p back ih =>
    have hp : p ∈ programs := by simp [hprograms]
    obtain ⟨hunit, program', hprogram, hrows, -⟩ := h.decode_shrunk hp
    have hoffset := h.toNat_newOffset hprograms
    have hat : unitAt (lineSection programs) (run.newOffset p.1) = .ok p.2.bytes := by
      rw [hprograms, lineSection_append, lineSection_cons]
      exact unitAt_append hunit _ hoffset
    rw [← List.singleton_append, ← List.append_assoc] at hprograms
    obtain ⟨items, htile, hoffsets, hcounts⟩ := ih hprograms
    rw [lineSection_append, List.length_append, lineSection_singleton] at htile
    refine ⟨(run.newOffset p.1, program') :: items,
      ⟨hoffset, p.2.bytes, hat, hunit, hprogram, htile⟩, ?_, ?_⟩
    · rw [List.forall_mem_cons]
      exact ⟨⟨p, hp, rfl⟩, hoffsets⟩
    · rw [List.map_cons, List.map_cons, hcounts, hrows, (h.records.shrunk p hp).rows]

/-- The listing of the output has the programs that were written and nothing else. -/
theorem Shows.exists_listed (h : run.Shows programs edits table)
    (hcomplete : (walk run.file.info run.file.abbreviations).2 = none) {again : DebugFile}
    (hagain : run.Reopens programs edits table again) (current : Option String) :
    ∃ items, (Listing.ofFile current out).IsComplete current again items ∧
      items.length = stats.units ∧
      (items.map fun item => item.2.rows.length).sum = stats.rowsKept := by
  obtain ⟨items, htile, hoffsets, hcounts⟩ := h.exists_tile (List.nil_append programs).symm
  have hreferences := h.statementLists_changedInfo hcomplete
  rw [← hagain.info_eq, ← hagain.abbreviations_eq] at hreferences
  have hreferenced : ∀ item ∈ items, ∃ reference ∈
      -- each program was written for some reference, whose rewritten offset is where the program
      -- now stands
      (statementLists again.info again.abbreviations).1, reference.lineOffset = item.1 := by
    intro item hitem
    obtain ⟨p, hp, hoffset⟩ := hoffsets item hitem
    have hkey : p.1 ∈ run.references.map StatementList.lineOffset := by
      rw [← List.mem_eraseDups, ← h.records.keys]
      exact List.mem_map_of_mem hp
    obtain ⟨reference, hreference, hline⟩ := List.mem_map.mp hkey
    rw [hreferences]
    exact ⟨_, List.mem_map_of_mem hreference, by rw [← hoffset, ← hline]; rfl⟩
  have hlisted := Listing.isComplete_ofFile current hagain.opened (by rw [hreferences])
    (by rw [hagain.line_eq]; exact htile) hreferenced
  have hlength := congrArg List.length hcounts
  rw [List.length_map, List.length_map, ← h.records.units_eq] at hlength
  refine ⟨items, hlisted, hlength.trans (congrArg Stats.units run.stats_eq).symm, ?_⟩
  rw [hcounts, ← h.records.rowsKept_eq]
  exact (congrArg Stats.rowsKept run.stats_eq).symm

/-- The statistics count each program that is referred to once, and all rows that these have. -/
theorem Shows.exists_decoded (h : run.Shows programs edits table) :
    stats.units = run.file.programOffsets.length ∧
      ∃ decoded : List Program,
        List.Forall₂ (fun lineOffset program => ∃ unit, unitAt run.file.line lineOffset = .ok unit ∧
          Program.decode unit = .ok program) run.file.programOffsets decoded ∧
        stats.rowsDecoded = (decoded.map fun program => program.rows.length).sum := by
  have hkeys : programs.map Prod.fst = run.file.programOffsets := h.records.keys
  rw [← hkeys, List.length_map, ← h.records.units_eq]
  refine ⟨congrArg Stats.units run.stats_eq, programs.map fun p => p.2.program, ?_, ?_⟩
  · rw [List.forall₂_map_left_iff, List.forall₂_map_right_iff, List.forall₂_same]
    exact fun p hp => ⟨p.2.unit, (h.records.shrunk p hp).unit, (h.records.shrunk p hp).program⟩
  · rw [List.map_map]
    exact (congrArg Stats.rowsDecoded run.stats_eq).trans h.records.rowsDecoded_eq

/-- The table of sections is the last thing in the output. -/
theorem fileSize_eq (run : Stages data out stats) : stats.fileSize.toNat = out.length := by
  have hne := run.sections_fullLayout_ne_nil
  rw [← run.container_segmentLayout] at hne
  obtain ⟨start, -, -, hfinal⟩ := (Placing.writeSectionHeaders_eq_ok_iff hne).mp run.writeHeaders
  rw [run.out_eq, hfinal]
  exact (Image.length_setLength _ _).symm

end Stages

/-- If the parts of a file do not overlap, the listing of the output is complete and marks nothing,
and the statistics are right: they count the programs that are listed and their rows, and the programs
that the file refers to and their rows, and they say how large the line section of the output is, and
the output itself. -/
theorem shrink_listed {data out : Bytes} {stats : Stats} {file : DebugFile} (current : Option String)
    (h : (shrink data).result = .ok (out, stats)) (hfile : (DebugFile.ofBytes data).result = .ok file)
    (hlayout : file.WellLaidOut) :
    (∃ file' items, (DebugFile.ofBytes out).result = .ok file' ∧
      (Listing.ofFile current out).IsComplete current file' items ∧
      items.length = stats.units ∧
      (items.map fun item => item.2.rows.length).sum = stats.rowsKept ∧
      file'.sections.line.size = stats.newLineSize) ∧
    stats.units = file.programOffsets.length ∧
    (∃ decoded : List Program,
      List.Forall₂ (fun lineOffset program => ∃ unit, unitAt file.line lineOffset = .ok unit ∧
        Program.decode unit = .ok program) file.programOffsets decoded ∧
      stats.rowsDecoded = (decoded.map fun program => program.rows.length).sum) ∧
    stats.fileSize.toNat = out.length := by
  obtain ⟨run⟩ := nonempty_stages h
  obtain rfl := Except.ok.inj (run.opened.symm.trans hfile)
  obtain ⟨hcomplete, programs, edits, table, hshows⟩ := run.exists_shows
  obtain ⟨again, hagain⟩ := hshows.exists_reopens hlayout
  obtain ⟨-, -, line, hline, -, hinfo, -⟩ := DebugFile.has_of_ofBytes hagain.opened
  obtain ⟨-, hsize, -⟩ := hagain.line_section hshows (hagain.lineIndex_eq ▸ hline)
  obtain ⟨items, hlisted, hitems, hrows⟩ := hshows.exists_listed hcomplete hagain current
  obtain ⟨hunits, hdecoded⟩ := hshows.exists_decoded
  refine ⟨⟨again, items, hagain.opened, hlisted, hitems, hrows, ?_⟩, hunits, hdecoded,
    run.fileSize_eq⟩
  rw [hinfo]
  exact hsize.trans (congrArg Stats.newLineSize run.stats_eq).symm

theorem shrink_listed_loadedUnitsFile :
    ∃ out stats file, (shrink loadedUnitsFile).result = .ok (out, stats) ∧
      (DebugFile.ofBytes loadedUnitsFile).result = .ok file ∧ file.WellLaidOut ∧
      (∃ file' items, (DebugFile.ofBytes out).result = .ok file' ∧
        (Listing.ofFile (some "/") out).IsComplete (some "/") file' items ∧
        items.length = stats.units ∧
        (items.map fun item => item.2.rows.length).sum = stats.rowsKept ∧
        file'.sections.line.size = stats.newLineSize) ∧
      stats.units = file.programOffsets.length ∧
      (∃ decoded : List Program,
        List.Forall₂ (fun lineOffset program => ∃ unit, unitAt file.line lineOffset = .ok unit ∧
          Program.decode unit = .ok program) file.programOffsets decoded ∧
        stats.rowsDecoded = (decoded.map fun program => program.rows.length).sum) ∧
      stats.fileSize.toNat = out.length := by
  obtain ⟨out, stats, file, hresult, hopen, hlayout⟩ := exists_shrink_loadedUnitsFile
  exact ⟨out, stats, file, hresult, hopen, hlayout, shrink_listed (some "/") hresult hopen hlayout⟩

end DwarfLines
