import DwarfLines.Proofs.Shrink.Retracing

/-!
# Shrinking twice

The output of shrinking a file is as small as shrinking makes it. When it is shrunk in turn, each
stage of the run retraces the same stage of the run before, and the output comes out as it is.
-/

namespace DwarfLines

open Outcome Elf

/-- A program is shrunk in one way. -/
theorem ShrunkProgram.Of.eq {line : Bytes} {lineOffset : UInt32} {a b : ShrunkProgram}
    (ha : a.Of line lineOffset) (hb : b.Of line lineOffset) : a = b := by
  have hresult {c : ShrunkProgram} (hc : c.Of line lineOffset) :
      (shrinkProgram line 0 lineOffset).result = .ok c := result_shrinkProgram_eq_ok_iff.mpr hc
  exact Except.ok.inj ((hresult ha).symm.trans (hresult hb))

namespace Stages

variable {data out : Bytes} {stats : Stats} {run : Stages data out stats}
  {programs : List (UInt32 × ShrunkProgram)} {edits : List (Nat × UInt32)} {table : UInt32}

/-- What the output is when it is opened again. -/
structure Reopens (run : Stages data out stats) (programs : List (UInt32 × ShrunkProgram))
    (edits : List (Nat × UInt32)) (table : UInt32) (again : DebugFile) : Prop where
  opened : (DebugFile.ofBytes out).result = .ok again
  header_eq : again.container.header = { run.container.header with sectionOffset := table }
  fixedStop_eq : again.container.fixedStop = run.container.fixedStop
  count : again.container.sections.length = run.container.sections.length
  exists_section : ∀ (k : Nat) (new : Section), run.finalLayout.container.sections[k]? = some new →
    ∃ t, again.container.sections[k]? = some t ∧ t.header = new.header
  infoIndex_eq : again.sections.info.index = run.infoIndex
  lineIndex_eq : again.sections.line.index = run.lineIndex
  info_eq : again.info = run.changedInfo edits
  abbreviations_eq : again.abbreviations = run.file.abbreviations
  line_eq : again.line = lineSection programs

/-- The output of a well laid out file is opened again. -/
theorem Shows.exists_reopens (h : run.Shows programs edits table) (hlayout : run.file.WellLaidOut) :
    ∃ again, run.Reopens programs edits table again := by
  obtain ⟨again, hopen, hinfo, -, hline, hinfo', habbreviations', hline'⟩ := h.exists_file hlayout
  obtain ⟨hcontainer, -⟩ := DebugFile.result_ofBytes_eq_ok_iff.mp hopen
  obtain ⟨container', hcontainer', hheader, hfixedStop, hcount, hsections⟩ :=
    (h.rewritten hlayout).exists_ofBytes (DebugFile.result_ofBytes_eq_ok_iff.mp run.opened).1
  obtain rfl := Except.ok.inj (hcontainer.symm.trans hcontainer')
  refine ⟨again, hopen, hheader, hfixedStop, hcount, fun k new hnew => ?_, hinfo, hline, hinfo',
    habbreviations', hline'⟩
  obtain ⟨t, ht, hsame, -⟩ := hsections k new hnew
  exact ⟨t, ht, hsame⟩

namespace Reopens

variable {again : DebugFile}

/-- In the output nothing is placed yet. -/
theorem fresh (h : run.Reopens programs edits table again) : again.container.Fresh :=
  Container.fresh_of_ofBytes (DebugFile.result_ofBytes_eq_ok_iff.mp h.opened).1

/-- The file that is opened again is the output. -/
theorem data_eq (h : run.Reopens programs edits table again) : again.container.data = out :=
  Container.data_of_ofBytes (DebugFile.result_ofBytes_eq_ok_iff.mp h.opened).1

/-- Each section of the file became one of the output. -/
theorem exists_relaid (h : run.Reopens programs edits table again)
    (hshows : run.Shows programs edits table) {k : Nat} {t : Section}
    (ht : again.container.sections[k]? = some t) :
    ∃ old new, run.container.sections[k]? = some old ∧
      run.finalLayout.container.sections[k]? = some new ∧ t.header = new.header ∧
      run.Relaid k old new := by
  have hk : k < run.finalLayout.container.sections.length := by
    rw [hshows.count, ← h.count]
    exact (List.getElem?_eq_some_iff.mp ht).1
  have hnew := List.getElem?_eq_getElem hk
  obtain ⟨old, hold, hrelaid⟩ := hshows.relaid k _ hnew
  obtain ⟨t', ht', hheader⟩ := h.exists_section k _ hnew
  obtain rfl := Option.some.inj (ht.symm.trans ht')
  exact ⟨old, _, hold, hnew, hheader, hrelaid⟩

/-- Shrinking the output starts as shrinking the file did. -/
theorem retraces_start (h : run.Reopens programs edits table again)
    (hshows : run.Shows programs edits table) :
    (Layout.start run.container).Retraces again.container run.lineIndex
      (Layout.start again.container) := by
  refine .start run.fresh h.fresh h.fixedStop_eq.symm h.count.symm fun k s t hs ht => ?_
  obtain ⟨old, new, hold, -, hheader, hrelaid⟩ := h.exists_relaid hshows ht
  obtain rfl := Option.some.inj (hs.symm.trans hold)
  have hnew := hheader.trans hrelaid.header
  refine ⟨⟨by rw [hnew], by rw [hnew], ?_⟩, fun hk => ?_⟩
  · rw [h.fixedStop_eq, ← hrelaid.pinned, Section.pinned, hheader, Section.pinned]
  · rw [hnew]
    exact if_neg hk

/-- The line section of the output is where the run put it, with the size that it got. -/
theorem line_section (h : run.Reopens programs edits table again)
    (hshows : run.Shows programs edits table) {t : Section}
    (ht : again.container.sections[run.lineIndex]? = some t) :
    again.container.fixedStop ≤ t.header.offset ∧
      t.header.size = run.output.stop - run.start ∧
      t.header.alignment = run.file.sections.line.alignment := by
  obtain ⟨old, new, hold, -, hheader, hrelaid⟩ := h.exists_relaid hshows ht
  obtain ⟨-, -, line, hline, -, hinfo, -⟩ := DebugFile.has_of_ofBytes run.opened
  obtain rfl := Option.some.inj (hold.symm.trans hline)
  have hunloaded := run.unloaded
  rw [hinfo] at hunloaded ⊢
  -- a section outside the fixed part is not pinned, and stays outside
  have hpinned := hrelaid.pinned.trans (Section.pinned_eq_none_iff.mpr hunloaded)
  refine ⟨?_, ?_, ?_⟩
  · rw [h.fixedStop_eq, hheader]
    exact Section.pinned_eq_none_iff.mp hpinned
  · rw [hheader, hrelaid.header]
    exact if_pos rfl
  · rw [hheader, hrelaid.header]
    rfl

end Reopens

/-! ## What the run leads to -/

/-- Writing programs moves no section. -/
theorem container_output (run : Stages data out stats) :
    run.output.layout.container = run.lineLayout.container := by
  obtain ⟨-, programs, edits, hserving⟩ := run.exists_serving
  exact hserving.container

/-- There are sections to be written. -/
theorem sections_fullLayout_ne_nil (run : Stages data out stats) :
    run.fullLayout.container.sections ≠ [] := by
  obtain ⟨-, programs, edits, hserving⟩ := run.exists_serving
  obtain ⟨-, -, -, -, hcount, -⟩ := run.arranged_fullLayout hserving
  obtain ⟨line, hline, -⟩ := run.find_line
  rw [← List.length_pos_iff, hcount]
  have := (List.getElem?_eq_some_iff.mp hline).1
  omega

/-- Writing the segment headers moves no section. -/
theorem container_segmentLayout (run : Stages data out stats) :
    run.segmentLayout.container = run.fullLayout.container := by
  have h := state_modify_eq_ok_iff.mp run.writeSegments
  rw [← h]
  rfl

/-- Writing the section table moves no section. -/
theorem container_finalLayout (run : Stages data out stats) :
    run.finalLayout.container = run.fullLayout.container := by
  have hne := run.sections_fullLayout_ne_nil
  rw [← run.container_segmentLayout] at hne ⊢
  obtain ⟨table, -, -, h⟩ := (Placing.writeSectionHeaders_eq_ok_iff hne).mp run.writeHeaders
  rw [h]

namespace Reopens

variable {again : DebugFile}

/-- The table of sections is the one that was written. -/
theorem header_section_eq (h : run.Reopens programs edits table again) {k : Nat} {s t : Section}
    (hs : run.fullLayout.container.sections[k]? = some s)
    (ht : again.container.sections[k]? = some t) : t.header = s.header := by
  rw [← run.container_finalLayout] at hs
  obtain ⟨t', ht', hheader⟩ := h.exists_section k s hs
  obtain rfl := Option.some.inj (ht.symm.trans ht')
  exact hheader

/-- The output has the sections that the first run ends with. -/
theorem foresees_fullLayout (h : run.Reopens programs edits table again) :
    again.container.Foresees run.fullLayout.container :=
  fun _ _ _ hs ht _ => congrArg SectionHeader.offset (h.header_section_eq hs ht)

/-- So it has those before the other sections were copied. -/
theorem foresees_lineLayout (h : run.Reopens programs edits table again) :
    again.container.Foresees run.lineLayout.container := by
  rw [← run.container_output]
  exact Placing.foresees_setSize run.setSize
    (Placing.foresees_copySections run.copySections h.foresees_fullLayout)

/-- So it has those before the line section was placed. -/
theorem foresees_infoLayout (h : run.Reopens programs edits table again) :
    again.container.Foresees run.infoLayout.container := by
  refine Placing.foresees_markPlaced run.markLine (fun s hs => ?_) h.foresees_lineLayout
  obtain ⟨-, -, -, hsame⟩ := run.arranged_infoLayout
  exact run.fresh.unplaced s (List.mem_of_getElem? (hsame.symm.trans hs))

/-! ## The stages of the second run -/

/-- The fixed part and the compile units are copied as before. -/
theorem retraces_info (h : run.Reopens programs edits table again)
    (hshows : run.Shows programs edits table) :
    ∃ frontLayout infoLayout,
      Placing.copyFixed (.start again.container) = .ok run.frontStop frontLayout ∧
      Placing.copySection run.frontStop run.infoIndex frontLayout = .ok run.infoStop infoLayout ∧
      run.infoLayout.Retraces again.container run.lineIndex infoLayout := by
  obtain ⟨frontLayout, hfixed, hfront⟩ := Placing.retraces_copyFixed run.fresh h.fresh
    (fun t ht => (h.line_section hshows ht).1) (h.retraces_start hshows) run.copyFixed
  obtain ⟨infoLayout, hcopy, hinfo⟩ := Placing.retraces_copySection h.fresh hfront
    (fun heq => absurd heq run.info_ne_line) run.copyInfo h.foresees_infoLayout
  exact ⟨frontLayout, infoLayout, hfixed, hcopy, hinfo⟩

/-- A program of the output is the program that it was written from without its redundant rows. -/
theorem stable (h : run.Reopens programs edits table again)
    (hshows : run.Shows programs edits table) {places : LineOutput.Places}
    (hline : places.line = again.line) (hinfo : places.info = run.placedInfo.header.offset)
    {reference : StatementList} (hreference : reference ∈ run.references) :
    LineOutput.Stable run.places places reference.lineOffset
      (run.newOffset reference.lineOffset) := by
  refine ⟨hinfo, fun shrunk hshrunk => ?_⟩
  -- `shrunk` is some program at the old offset: decoding is a function, so it is the one that was
  -- written
  obtain ⟨front, shrunk', back, hprograms, hoffset, hof⟩ := hshows.exists_shrunk hreference
  obtain rfl := hshrunk.eq hof
  obtain ⟨hunit, program', hdecode, hrows, hsame⟩ :=
    hshows.decode_shrunk (p := (reference.lineOffset, shrunk)) (by simp [hprograms])
  have hat : unitAt (lineSection programs) (run.newOffset reference.lineOffset) =
      .ok shrunk.bytes := by
    rw [hprograms, lineSection_append]
    exact unitAt_append hunit _ hoffset
  -- its rows are those of the output, which the pass leaves as they are
  have hreduced : reduce program'.rows = shrunk.rows := by
    rw [hrows, reduce_of_reduced (reduced_reduce _), hshrunk.rows]
  refine ⟨hunit.length_pos, ⟨shrunk.bytes, program', reduce program'.rows, shrunk.bytes⟩,
    ⟨?_, hdecode, rfl, ?_⟩, rfl, hrows.trans hshrunk.rows.symm, hreduced⟩
  · rw [hline, h.line_eq]
    exact hat
  · show program'.encode (reduce program'.rows) = _
    rw [hreduced, hsame.encode_eq]
    exact hshrunk.bytes

/-- The compile units are where they were, if there are any references in them. -/
theorem info_offset (h : run.Reopens programs edits table again)
    (hshows : run.Shows programs edits table) {t : Section}
    (ht : again.container.sections[run.infoIndex]? = some t) {reference : StatementList}
    (hreference : reference ∈ run.references) :
    t.header.offset = run.placedInfo.header.offset := by
  obtain ⟨edit, hedit, -⟩ := exists_of_forall₂_of_mem hshows.records.edited hreference
  have hinside := hshows.inside edit hedit
  -- A section without contents is never placed, but where there is a reference there are contents.
  have hpatchable := run.patchable_lineLayout
  have hne : run.container.held run.infoIndex ≠ [] := by
    rw [run.held_infoIndex]
    exact List.ne_nil_of_length_pos (by omega)
  have hplaced := hpatchable.placed (hpatchable.hasFileData hne)
  exact h.foresees_infoLayout _ _ t run.findInfo ht hplaced

/-- The line section is written as before. -/
theorem echoes_output (h : run.Reopens programs edits table again)
    (hshows : run.Shows programs edits table)
    (hcomplete : (walk run.file.info run.file.abbreviations).2 = none) {lineLayout : Layout}
    (hlineLayout : run.lineLayout.Retraces again.container run.lineIndex lineLayout)
    (places : LineOutput.Places) (hline : places.line = again.line)
    (hinfo : ∀ reference ∈ run.references, places.info = run.placedInfo.header.offset)
    (hstart : places.start = run.start) :
    ∃ output, ((LineOutput.start lineLayout run.start).serveAll places
        (walk again.info again.abbreviations)).result = .ok output ∧
      LineOutput.Echoes again.container run.lineIndex run.start run.output output := by
  have hserves : LineOutput.Serves run.places (.start run.lineLayout run.start) run.references
      run.output := (LineOutput.result_serveAll_eq_ok_iff.mp run.serveAll).2
  -- the references of the output are the old ones with the new offsets, so the second run serves
  -- them in the same order
  have hreferences := hshows.statementLists_changedInfo hcomplete
  rw [← h.info_eq, ← h.abbreviations_eq] at hreferences
  obtain ⟨hreferences, hstopped⟩ := Prod.mk.inj hreferences
  have hechoes : LineOutput.Echoes again.container run.lineIndex run.start
      (.start run.lineLayout run.start) (.start lineLayout run.start) := by
    refine ⟨hlineLayout, rfl, ?_, Nat.le_refl _, ?_, rfl, rfl, rfl⟩
    · simp [LineOutput.start]
    · simp [LineOutput.start]
  obtain ⟨output, hserves', hafter⟩ := LineOutput.echoes_serves hstart hserves
    (fun key relative hlookup => by rw [newOffset, hlookup]; rfl)
    (fun reference hreference => h.stable hshows hline (hinfo reference hreference) hreference)
    hechoes
  rw [← hreferences] at hserves'
  exact ⟨output, LineOutput.result_serveAll_eq_ok_iff.mpr ⟨hstopped, hserves'⟩, hafter⟩

/-- The segment headers stay where they were. -/
theorem segmentTable_eq (h : run.Reopens programs edits table again) :
    again.container.header.segmentTable = run.fullLayout.container.header.segmentTable ∧
      run.fullLayout.container.header.segmentTable.stop ≤
        run.fullLayout.container.data.length := by
  obtain ⟨-, programs, edits, hserving⟩ := run.exists_serving
  obtain ⟨-, hdata, hheader, -⟩ := run.arranged_fullLayout hserving
  rw [hdata, hheader, h.header_eq]
  exact ⟨rfl, Nat.le_trans run.fresh.segments_le run.fresh.fixed_le⟩

/-- The other sections and the tables are written as before, and then the output is there again. -/
theorem retraces_rest (h : run.Reopens programs edits table again)
    (hshows : run.Shows programs edits table) {layout : Layout}
    (hlayout : run.output.layout.Retraces again.container run.lineIndex layout)
    (hplaced : run.output.layout.IsPlaced run.lineIndex) :
    ∃ sizeLayout fullLayout segmentLayout finalLayout,
      Placing.setSize run.lineIndex (run.output.stop - run.start) layout = .ok () sizeLayout ∧
      Placing.copySections run.output.stop sizeLayout = .ok run.stop fullLayout ∧
      Placing.writeSegments fullLayout = .ok () segmentLayout ∧
      Placing.writeSectionHeaders run.stop segmentLayout = .ok stats.fileSize finalLayout ∧
      finalLayout.image.bytes = out := by
  obtain ⟨sizeLayout, hsize, hsizeLayout, hplaced⟩ := Placing.retraces_setSize hlayout hplaced
    (fun t ht => (h.line_section hshows ht).2.1) run.setSize
  obtain ⟨fullLayout, hcopy, hfullLayout⟩ := Placing.retraces_copySections h.fresh hsizeLayout
    hplaced run.copySections h.foresees_fullLayout
  obtain ⟨segmentLayout, hsegments, hsegmentLayout⟩ := Placing.retraces_writeSegments h.fresh
    hfullLayout (h.segmentTable_eq).1 (h.segmentTable_eq).2 run.writeSegments
  have hne := run.sections_fullLayout_ne_nil
  rw [← run.container_segmentLayout] at hne
  obtain ⟨finalLayout, hwrite, hfinalLayout⟩ := Placing.retraces_writeSectionHeaders hsegmentLayout
    hne (fun _ _ _ hs => h.header_section_eq (run.container_segmentLayout ▸ hs)) run.writeHeaders
  refine ⟨sizeLayout, fullLayout, segmentLayout, finalLayout, hsize, hcopy, hsegments, hwrite, ?_⟩
  have hout := run.out_eq.symm
  rw [hfinalLayout.image.eq_of_bytes (hout.trans h.data_eq.symm), hout]

/-- The second run goes through all stages. -/
theorem nonempty_stages (h : run.Reopens programs edits table again)
    (hshows : run.Shows programs edits table)
    (hcomplete : (walk run.file.info run.file.abbreviations).2 = none) :
    Nonempty (Stages out out
      { stats with rowsDecoded := stats.rowsKept, oldLineSize := stats.newLineSize }) := by
  -- what the second run opens, and where it has its three sections
  obtain ⟨-, -, line, hline, -, hlineInfo, -⟩ := DebugFile.has_of_ofBytes h.opened
  obtain ⟨hunloaded, hsize, halignment⟩ := h.line_section hshows (h.lineIndex_eq ▸ hline)
  -- each step of the second run retraces the one of the first; the layouts it passes through are
  -- named as they come up
  obtain ⟨frontLayout, infoLayout, hcopyFixed, hcopyInfo, hinfoLayout⟩ := h.retraces_info hshows
  obtain ⟨info, hinfo, hfindInfo⟩ := hinfoLayout.exists_section run.findInfo
  obtain ⟨lineLayout, hmark, hlineLayout, hplaced⟩ :=
    Placing.retraces_markPlaced hinfoLayout run.markLine h.foresees_lineLayout
  rw [Layout.IsPlaced, ← run.container_output] at hplaced
  -- the second run serves its references as the first did: every program is found where it was
  -- written
  obtain ⟨output, hserve, hechoes⟩ := h.echoes_output hshows hcomplete hlineLayout
    ⟨again.line, info.header.offset, run.start⟩ rfl
    (fun reference hreference => h.info_offset hshows hinfo hreference) rfl
  obtain ⟨sizeLayout, fullLayout, segmentLayout, finalLayout, hsetSize, hcopySections, hsegments,
    hheaders, hout⟩ := h.retraces_rest hshows hechoes.layout hplaced
  -- the statistics are those of the first run, but for what the second reads: rows already kept and
  -- the new section
  have hlineSize : again.sections.line.size = run.output.stop - run.start := by
    rw [hlineInfo]
    exact hsize
  have hunits : stats.units = run.output.units := congrArg Stats.units run.stats_eq
  have hrows : stats.rowsKept = run.output.rowsKept := congrArg Stats.rowsKept run.stats_eq
  have hnewSize : stats.newLineSize = run.output.stop - run.start :=
    congrArg Stats.newLineSize run.stats_eq
  exact ⟨{
    file := again
    opened := h.opened
    unloaded := by
      rw [hlineInfo]
      exact hunloaded
    frontStop := run.frontStop
    frontLayout
    copyFixed := hcopyFixed
    infoStop := run.infoStop
    infoLayout
    copyInfo := by
      rw [h.infoIndex_eq]
      exact hcopyInfo
    placedInfo := info.placedAs run.placedInfo
    findInfo := by
      rw [h.infoIndex_eq]
      exact hfindInfo
    start := run.start
    alignLine := by
      rw [hlineInfo]
      show alignUp? run.infoStop line.header.alignment = _
      rw [halignment]
      exact run.alignLine
    lineLayout
    markLine := by
      rw [h.lineIndex_eq]
      exact hmark
    output
    serveAll := hserve
    sizeLayout
    setSize := by
      rw [h.lineIndex_eq, hechoes.stop_eq]
      exact hsetSize
    stop := run.stop
    fullLayout
    copySections := by
      rw [hechoes.stop_eq]
      exact hcopySections
    segmentLayout
    writeSegments := hsegments
    finalLayout
    writeHeaders := hheaders
    out_eq := hout.symm
    stats_eq := by
      rw [hechoes.units_eq, hechoes.rowsDecoded_eq, hechoes.rowsKept_eq, hechoes.stop_eq, hlineSize,
        ← hunits, ← hrows, ← hnewSize] }⟩

end Reopens

end Stages

/-- Shrinking a file twice is shrinking it once, if its parts do not overlap: the output of the second
run is the output of the first, and its statistics say that no row was dropped and that the line
section kept its size. -/
theorem shrink_idempotent {data out : Bytes} {stats : Stats} {file : DebugFile}
    (h : (shrink data).result = .ok (out, stats)) (hfile : (DebugFile.ofBytes data).result = .ok file)
    (hlayout : file.WellLaidOut) :
    (shrink out).result = .ok (out,
      { stats with rowsDecoded := stats.rowsKept, oldLineSize := stats.newLineSize }) := by
  obtain ⟨run⟩ := nonempty_stages h
  obtain rfl := Except.ok.inj (run.opened.symm.trans hfile)
  obtain ⟨hcomplete, programs, edits, table, hshows⟩ := run.exists_shows
  obtain ⟨again, hagain⟩ := hshows.exists_reopens hlayout
  obtain ⟨run'⟩ := hagain.nonempty_stages hshows hcomplete
  exact run'.result_eq

/-- A file of two units that is shrunk, and whose output is not shrunk further. -/
theorem shrink_idempotent_loadedUnitsFile :
    ∃ out stats file, (shrink loadedUnitsFile).result = .ok (out, stats) ∧
      (DebugFile.ofBytes loadedUnitsFile).result = .ok file ∧ file.WellLaidOut ∧
      stats.rowsKept < stats.rowsDecoded ∧ (shrink out).result = .ok (out,
        { stats with rowsDecoded := stats.rowsKept, oldLineSize := stats.newLineSize }) := by
  have hsmaller : (shrink loadedUnitsFile).result.toOption.any
      (fun result => result.2.rowsKept < result.2.rowsDecoded) = true := by decide +kernel
  obtain ⟨out, stats, file, hresult, hopen, hlayout⟩ := exists_shrink_loadedUnitsFile
  rw [hresult] at hsmaller
  exact ⟨out, stats, file, hresult, hopen, hlayout, of_decide_eq_true hsmaller,
    shrink_idempotent hresult hopen hlayout⟩

end DwarfLines
