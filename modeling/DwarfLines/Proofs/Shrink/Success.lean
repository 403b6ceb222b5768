import DwarfLines.Proofs.Elf.Fitting
import DwarfLines.Proofs.Line.Encodability
import DwarfLines.Proofs.Shrink.Idempotence

/-!
# When a file is shrunk

A file is shrunk exactly when it is opened and has its debug sections, its line section is behind the
fixed part, the walk over its compile units reaches the end, each program that they refer to can be
read and written, and the output is not too long for offsets of 32 bits. How long the output is can be
told from the file without laying it out.
-/

namespace DwarfLines

open Outcome Elf

/-- A container with its debug sections and their contents. -/
def DebugFile.ofSections (container : Container) (sections : DebugSections) : DebugFile where
  container
  sections
  info := container.held sections.info.index
  abbreviations := container.held sections.abbreviations.index
  line := container.held sections.line.index

/-- A section that was picked has contents, and they are what it holds. -/
theorem DebugSections.contents?_of_pick {container : Container} {name : String} {info : SectionInfo}
    (h : pick container name = .ok info) :
    container.contents? info.index = .ok (container.held info.index) := by
  obtain ⟨hfind, -⟩ := pick_eq_ok_iff.mp h
  obtain ⟨found, hfound, -⟩ := Container.find?_eq_some_iff.mp hfind
  exact Container.contents?_eq_ok_iff.mpr ⟨found, hfound, Container.held_eq hfound⟩

/-- A file with debugging information is opened exactly when its container is and has the sections. -/
theorem DebugFile.result_ofBytes_eq_ok_iff_ofSections {data : Bytes} {file : DebugFile} :
    (ofBytes data).result = .ok file ↔
      ∃ container sections, Container.ofBytes data = .ok container ∧
        DebugSections.ofContainer container = .ok sections ∧ file = ofSections container sections := by
  rw [result_ofBytes_eq_ok_iff]
  constructor
  · rintro ⟨hcontainer, hsections, hinfo, habbreviations, hline⟩
    obtain ⟨hpick, hpick', hpick''⟩ := DebugSections.ofContainer_eq_ok_iff.mp hsections
    refine ⟨_, _, hcontainer, hsections, ?_⟩
    rw [DebugSections.contents?_of_pick hpick, Except.ok.injEq] at hinfo
    rw [DebugSections.contents?_of_pick hpick', Except.ok.injEq] at habbreviations
    rw [DebugSections.contents?_of_pick hpick'', Except.ok.injEq] at hline
    rw [ofSections, hinfo, habbreviations, hline]
  · rintro ⟨container, sections, hcontainer, hsections, rfl⟩
    obtain ⟨hpick, hpick', hpick''⟩ := DebugSections.ofContainer_eq_ok_iff.mp hsections
    exact ⟨hcontainer, hsections, DebugSections.contents?_of_pick hpick,
      DebugSections.contents?_of_pick hpick', DebugSections.contents?_of_pick hpick''⟩

/-! ## Programs -/

/-- Whether the program at an offset of a line section can be read, and written without its redundant
rows. -/
def CanShrink (line : Bytes) (lineOffset : UInt32) : Prop :=
  ∃ unit program, unitAt line lineOffset = .ok unit ∧ Program.decode unit = .ok program ∧
    9 ≤ program.header.params.opcodeBase ∧
    ∀ last ∈ program.rows.getLast?, last.endSequence = true

/-- The length of the program at an offset of a line section without its redundant rows. -/
def shrunkLength (line : Bytes) (lineOffset : UInt32) : Nat :=
  match unitAt line lineOffset >>= Program.decode with
  | .ok program => program.encodedLength (reduce program.rows)
  | .error _ => 0

/-- The length of a shrunk program is that of its rows in writing. -/
theorem shrunkLength_eq {line unit : Bytes} {lineOffset : UInt32} {program : Program}
    (hunit : unitAt line lineOffset = .ok unit) (hprogram : Program.decode unit = .ok program) :
    shrunkLength line lineOffset = program.encodedLength (reduce program.rows) := by
  rw [shrunkLength, bind_eq_ok_iff.mpr ⟨unit, hunit, hprogram⟩]

namespace ShrunkProgram.Of

variable {line : Bytes} {lineOffset : UInt32} {shrunk : ShrunkProgram}

/-- A shrunk program is as long as was computed from the old one. -/
theorem length_bytes (h : shrunk.Of line lineOffset) :
    shrunk.bytes.length = shrunkLength line lineOffset := by
  rw [Program.length_of_encode h.bytes, h.rows, shrunkLength_eq h.unit h.program]

/-- A program that was shrunk can be. -/
theorem canShrink (h : shrunk.Of line lineOffset) : CanShrink line lineOffset := by
  obtain ⟨hfault, hends, -⟩ := Program.exists_encode_iff.mp ⟨_, h.bytes⟩
  rw [h.rows, endsSequence_reduce, endsSequence_iff] at hends
  exact ⟨_, _, h.unit, h.program, (Program.fault?_of_decode h.program).mp hfault, hends⟩

end ShrunkProgram.Of

/-- A program that can be shrunk is shrunk, if 32 bits hold its new length. -/
theorem CanShrink.exists_shrunk {line : Bytes} {lineOffset : UInt32} (h : CanShrink line lineOffset)
    (hlength : shrunkLength line lineOffset < 2 ^ 32) :
    ∃ shrunk : ShrunkProgram, shrunk.Of line lineOffset := by
  obtain ⟨unit, program, hunit, hprogram, hbase, hends⟩ := h
  rw [shrunkLength_eq hunit hprogram] at hlength
  have hends' : endsSequence (reduce program.rows) = true := by
    rw [endsSequence_reduce, endsSequence_iff]
    exact hends
  obtain ⟨bytes, hbytes⟩ := Program.exists_encode_iff.mpr
    ⟨(Program.fault?_of_decode hprogram).mpr hbase, hends', by omega⟩
  exact ⟨⟨unit, program, reduce program.rows, bytes⟩, hunit, hprogram, rfl, hbytes⟩

/-! ## Serving compile units -/

/-- The length of the programs that some references name, each counted once. -/
def programsLength (line : Bytes) (references : List StatementList) : Nat :=
  ((references.map StatementList.lineOffset).eraseDups.map (shrunkLength line)).sum

/-- More references need no less space. -/
theorem programsLength_le (line : Bytes) (front back : List StatementList) :
    programsLength line front ≤ programsLength line (front ++ back) := by
  unfold programsLength
  rw [List.map_append, List.eraseDups_append, List.map_append, List.sum_append]
  exact Nat.le_add_right _ _

namespace LineOutput

variable {places : Places} {references : List StatementList}
  {programs : List (UInt32 × ShrunkProgram)} {edits : List (Nat × UInt32)} {output : LineOutput}

/-- The line section so far is as long as its programs are. -/
theorem Records.length_lineSection (h : Records places references programs edits output) :
    (lineSection programs).length = programsLength places.line references := by
  rw [programsLength, ← h.keys, lineSection, List.length_flatMap, List.map_map]
  congr 1
  refine List.map_congr_left fun p hp => ?_
  exact (h.shrunk p hp).length_bytes

/-- A program is provided if it can be shrunk and there is room for it. -/
theorem Records.exists_provides (h : Records places references programs edits output)
    {reference : StatementList} (hshrink : CanShrink places.line reference.lineOffset)
    (hfits : places.start.toNat + programsLength places.line (references ++ [reference]) < 2 ^ 32) :
    ∃ relative between programs' edits', Provides places output reference.lineOffset relative between ∧
      Records places (references ++ [reference]) programs' edits' between := by
  cases hlookup : output.moved.lookup reference.lineOffset with
  | some relative =>
    exact ⟨relative, output, _, _, .shared hlookup, h.provides_shared hlookup⟩
  | none =>
    -- the program is new, so its length is added to the sum over the distinct offsets
    have hnew : reference.lineOffset ∉ references.map StatementList.lineOffset := by
      intro hmem
      obtain ⟨other, hother, heq⟩ := List.mem_map.mp hmem
      obtain ⟨relative, hfound⟩ := h.lookup_of_mem hother
      rw [heq, hlookup] at hfound
      cases hfound
    have hlength : programsLength places.line (references ++ [reference]) =
        programsLength places.line references + shrunkLength places.line reference.lineOffset := by
      unfold programsLength
      rw [List.map_append, List.map_singleton, eraseDups_concat, if_neg (by simpa using hnew)]
      simp
    rw [hlength, ← h.length_lineSection, ← Nat.add_assoc, ← h.stop_eq] at hfits
    obtain ⟨shrunk, hshrunk⟩ := hshrink.exists_shrunk
      (Nat.lt_of_le_of_lt (Nat.le_add_left _ _) hfits)
    rw [← hshrunk.length_bytes] at hfits
    obtain ⟨stop, hstop⟩ := exists_advance? hfits
    exact ⟨_, _, _, _, .added hlookup hshrunk hstop, h.provides_added hlookup hshrunk hstop⟩

/-- Each reference can be served if its program can be shrunk and there is room for all programs. -/
theorem Records.exists_serves (h : Records places references programs edits output)
    {served : List StatementList}
    (hshrink : ∀ reference ∈ served, CanShrink places.line reference.lineOffset)
    (hfits : places.start.toNat + programsLength places.line (references ++ served) < 2 ^ 32) :
    ∃ after programs' edits', Serves places output served after ∧
      Records places (references ++ served) programs' edits' after := by
  induction served generalizing references programs edits output with
  | nil => exact ⟨output, programs, edits, .nil, by rwa [List.append_nil]⟩
  | cons reference served ih =>
    rw [List.forall_mem_cons] at hshrink
    rw [List.append_cons references reference served] at hfits ⊢
    obtain ⟨relative, between, programs', edits', hprovides, hrecords⟩ :=
      h.exists_provides hshrink.1
        (Nat.lt_of_le_of_lt (Nat.add_le_add_left (programsLength_le _ _ _) _) hfits)
    obtain ⟨after, programs'', edits'', hserves, hrecords'⟩ :=
      ih (hrecords.redirected reference.valueOffset relative) hshrink.2 hfits
    exact ⟨after, programs'', edits'', .cons hprovides hserves, hrecords'⟩

/-- Serving references moves no section. -/
theorem Serves.container {output after : LineOutput} {references : List StatementList}
    (h : Serves places output references after) :
    after.layout.container = output.layout.container := by
  induction h with
  | nil => rfl
  | cons hprovides _ ih =>
    rw [ih]
    cases hprovides <;> rfl

end LineOutput

/-! ## How long the output is -/

namespace DebugFile

variable (file : DebugFile)

/-- The references to line programs. -/
def references : List StatementList := (statementLists file.info file.abbreviations).1

/-- The sections, where those that start in the fixed part are placed. -/
def settled : List Section := file.container.sections.map (.settle file.container.fixedStop)

/-- Where the compile units end in the output. -/
def infoStop : Nat :=
  match file.settled[file.sections.info.index]? with
  | some info => info.copiedStop file.container.frontStop
  | none => file.container.frontStop

/-- Where the line section starts in the output. -/
def lineStart : Nat := aligned file.infoStop file.sections.line.alignment

/-- Where the line section ends in the output. -/
def lineStop : Nat := file.lineStart + programsLength file.line file.references

/-- The sections when the line section is complete: it and the compile units are placed, too. -/
def remaining : List Section :=
  (file.settled.modify file.sections.info.index .marked).modify file.sections.line.index .marked

/-- Where the last section ends in the output. -/
def contentsStop : Nat :=
  file.remaining.foldl (fun offset s => s.copiedStop offset) file.lineStop

/-- How long the output is. -/
def outputLength : Nat := sectionTableStop file.container.sections.length file.contentsStop

/-- The contents end within the output. -/
theorem contentsStop_le : file.contentsStop ≤ file.outputLength :=
  Nat.le_trans (le_aligned _ _) (Nat.le_add_right _ _)

/-- The new line section ends within the output. -/
theorem lineStop_le : file.lineStop ≤ file.outputLength :=
  Nat.le_trans (Placing.le_foldl Section.le_copiedStop _ _) file.contentsStop_le

/-- The new line section starts within the output. -/
theorem lineStart_le : file.lineStart ≤ file.outputLength :=
  Nat.le_trans (Nat.le_add_right _ _) file.lineStop_le

/-- What is copied before ends where the line section starts, at the latest. -/
theorem infoStop_le : file.infoStop ≤ file.lineStart := le_aligned _ _

/-- The fixed part ends before the debug info, if that is moved. -/
theorem frontStop_le : file.container.frontStop ≤ file.infoStop := by
  unfold infoStop
  split
  · exact Section.le_copiedStop _ _
  · exact Nat.le_refl _

/-- Of the sections that are left to be copied, the two that were rewritten take no more space. -/
theorem map_copiedStop_remaining :
    file.remaining.map Section.copiedStop =
      ((file.settled.map Section.copiedStop).set file.sections.info.index id).set
        file.sections.line.index id := by
  rw [remaining, map_copiedStop_modify, map_copiedStop_modify]

/-- No section is lost before the rest is copied. -/
theorem length_remaining : file.remaining.length = file.container.sections.length := by
  simp [remaining, settled]

/-- Whether the line section of a file can be shrunk, but for the length of the output. -/
structure IsShrinkable : Prop where
  unloaded : file.container.fixedStop ≤ file.sections.line.offset
  complete : (walk file.info file.abbreviations).2 = none
  programs : ∀ reference ∈ file.references, CanShrink file.line reference.lineOffset

/-- What the stages before the line section leave. -/
structure Beginning where
  frontStop : UInt32
  frontLayout : Layout
  copyFixed : Placing.copyFixed (.start file.container) = .ok frontStop frontLayout
  infoStop : UInt32
  infoLayout : Layout
  copyInfo : Placing.copySection frontStop file.sections.info.index frontLayout =
    .ok infoStop infoLayout
  placedInfo : Section
  findInfo : infoLayout.container.sections[file.sections.info.index]? = some placedInfo
  start : UInt32
  alignLine : alignUp? infoStop file.sections.line.alignment = some start
  lineLayout : Layout
  markLine : Placing.markPlaced file.sections.line.index start infoLayout = .ok () lineLayout

variable {file}

/-- What is in the fixed part has its place, and the other sections have none. -/
theorem sections_of_copyFixed (hfresh : file.container.Fresh) {stop : UInt32} {after : Layout}
    (h : Placing.copyFixed (.start file.container) = .ok stop after) :
    after.container.sections = file.settled := by
  rw [(Placing.eq_of_copyFixed hfresh h).1]
  rfl

namespace Beginning

variable (first : file.Beginning)

/-- The debug info ends where it was computed to. -/
theorem toNat_infoStop (hfresh : file.container.Fresh) :
    first.infoStop.toNat = file.infoStop := by
  obtain ⟨-, -, info, hinfo, hstop⟩ :=
    Placing.computes_copySection.tells _ _ _ _ _ trivial first.copyInfo
  rw [sections_of_copyFixed hfresh first.copyFixed] at hinfo
  rw [hstop, (Placing.computes_copyFixed file.container).2 _ _ first.copyFixed, DebugFile.infoStop,
    hinfo]

/-- The line section starts where it was computed to. -/
theorem toNat_start (hfresh : file.container.Fresh) : first.start.toNat = file.lineStart := by
  rw [toNat_of_alignUp? first.alignLine, first.toNat_infoStop hfresh, lineStart]

/-- The other sections take the space that was computed for them. -/
theorem stops_lineLayout (hfresh : file.container.Fresh) :
    first.lineLayout.stops = file.remaining.map Section.copiedStop := by
  rw [Layout.stops_markPlaced first.markLine, Layout.stops_copySection first.copyInfo, Layout.stops,
    sections_of_copyFixed hfresh first.copyFixed, map_copiedStop_remaining]

/-- However long the line section is said to be, the other sections are copied as far. -/
theorem computes_contents (hfresh : file.container.Fresh) {before sizeLayout : Layout}
    (hcontainer : before.container = first.lineLayout.container) {size : UInt32}
    (hset : Placing.setSize file.sections.line.index size before = .ok () sizeLayout)
    {dest : UInt32} (hdest : dest.toNat = file.lineStop) :
    (file.contentsStop < 2 ^ 32 →
      ∃ stop fullLayout, Placing.copySections dest sizeLayout = .ok stop fullLayout) ∧
    ∀ stop fullLayout, Placing.copySections dest sizeLayout = .ok stop fullLayout →
      stop.toNat = file.contentsStop ∧
        fullLayout.container.sections.length = file.container.sections.length := by
  have hstops : sizeLayout.stops = file.remaining.map Section.copiedStop := by
    rw [Layout.stops_setSize hset, ← first.stops_lineLayout hfresh, Layout.stops, Layout.stops,
      hcontainer]
  have hcontents : sizeLayout.container.sections.foldl (fun offset s => s.copiedStop offset)
      dest.toNat = file.contentsStop := by
    have hfold := congrArg (List.foldl (fun offset stop => stop offset) dest.toNat) hstops
    rw [Layout.stops, List.foldl_map, List.foldl_map] at hfold
    rw [hfold, hdest, contentsStop]
  have hcomputes := Placing.computes_copySections dest sizeLayout
  rw [hcontents] at hcomputes
  refine ⟨hcomputes.1, fun stop fullLayout hcopy => ⟨hcomputes.2 stop fullLayout hcopy, ?_⟩⟩
  rw [Layout.length_copySections hcopy, ← Layout.length_stops, hstops, List.length_map,
    length_remaining]

end Beginning

/-- A file that has the space has a layout of its beginning. -/
theorem nonempty_beginning (hfresh : file.container.Fresh)
    {info line : Section} (hinfo : file.container.sections[file.sections.info.index]? = some info)
    (hline : file.container.sections[file.sections.line.index]? = some line)
    (hne : file.sections.info.index ≠ file.sections.line.index)
    (hfits : file.lineStart < 2 ^ 32) : Nonempty file.Beginning := by
  -- each stage fits since what comes after it does: the lengths only grow along the run
  have hinfoStop := Nat.lt_of_le_of_lt file.infoStop_le hfits
  obtain ⟨frontStop, frontLayout, hcopyFixed⟩ :=
    (Placing.computes_copyFixed file.container).1 (Nat.lt_of_le_of_lt file.frontStop_le hinfoStop)
  have hfront := (Placing.computes_copyFixed file.container).2 _ _ hcopyFixed
  have hsettled := sections_of_copyFixed hfresh hcopyFixed
  have hfound : frontLayout.container.sections[file.sections.info.index]? =
      some (info.settle file.container.fixedStop) := by
    rw [hsettled, settled, List.getElem?_map, hinfo, Option.map_some]
  have hcopied : (info.settle file.container.fixedStop).copiedStop frontStop.toNat =
      file.infoStop := by
    rw [infoStop, ← hsettled, hfound, hfront]
  obtain ⟨infoStop, infoLayout, hcopyInfo⟩ := Placing.computes_copySection.succeeds frontStop _ _ _
    trivial hfound (hcopied ▸ hinfoStop)
  obtain ⟨-, hothers, s, hs, hstop⟩ :=
    Placing.computes_copySection.tells _ _ _ _ _ trivial hcopyInfo
  obtain rfl := Option.some.inj (hfound.symm.trans hs)
  rw [hcopied] at hstop
  -- the two sections are different ones, so the copy of the first leaves the second where it was
  obtain ⟨start, hstart⟩ : ∃ start, alignUp? infoStop file.sections.line.alignment = some start :=
    exists_alignUp? (by rw [hstop]; exact hfits)
  have hlineFound : infoLayout.container.sections[file.sections.line.index]? =
      some (line.settle file.container.fixedStop) := by
    rw [hothers _ hne.symm, hsettled, settled, List.getElem?_map, hline, Option.map_some]
  have hindex := (List.getElem?_eq_some_iff.mp hfound).1
  rw [← Layout.length_copySection hcopyInfo] at hindex
  exact ⟨{
    frontStop
    frontLayout
    copyFixed := hcopyFixed
    infoStop
    infoLayout
    copyInfo := hcopyInfo
    placedInfo := _
    findInfo := List.getElem?_eq_getElem hindex
    start
    alignLine := hstart
    lineLayout := _
    markLine := Placing.markPlaced_eq_ok_iff.mpr ⟨_, hlineFound, rfl⟩ }⟩

end DebugFile

namespace Stages

variable {data out : Bytes} {stats : Stats} (run : Stages data out stats)

/-- The stages before the line section. -/
def beginning : run.file.Beginning := { run with }

/-- The references are served from the start of the line section on. -/
theorem serves : LineOutput.Serves run.places (.start run.lineLayout run.start)
    run.file.references run.output :=
  (LineOutput.result_serveAll_eq_ok_iff.mp run.serveAll).2

/-- A file that is shrunk can be. -/
theorem isShrinkable : run.file.IsShrinkable where
  unloaded := run.unloaded
  complete := (LineOutput.result_serveAll_eq_ok_iff.mp run.serveAll).1
  programs reference hmem := by
    obtain ⟨-, programs, edits, hserving⟩ := run.exists_serving
    obtain ⟨relative, hlookup⟩ := hserving.records.lookup_of_mem hmem
    obtain ⟨front, shrunk, back, hprograms, -⟩ := (hserving.records.moved _ _).mp hlookup
    exact (hserving.records.shrunk (reference.lineOffset, shrunk) (by simp [hprograms])).canShrink

/-- The line section ends where it was computed to. -/
theorem toNat_lineStop : run.output.stop.toNat = run.file.lineStop := by
  obtain ⟨-, programs, edits, hserving⟩ := run.exists_serving
  have hstart := run.beginning.toNat_start run.fresh
  have hstop := hserving.records.stop_eq
  rw [hserving.records.length_lineSection] at hstop
  rw [hstop, DebugFile.lineStop, ← hstart]
  rfl

/-- The output is as long as the file foretells. -/
theorem toNat_fileSize : stats.fileSize.toNat = run.file.outputLength := by
  have hcontents := (run.beginning.computes_contents run.fresh run.serves.container run.setSize
    run.toNat_lineStop).2 _ _ run.copySections
  have hnonempty := run.sections_fullLayout_ne_nil
  have hsegments := run.container_segmentLayout
  rw [← hsegments] at hnonempty
  rw [(Placing.computes_writeSectionHeaders hnonempty run.stop).2 _ _ run.writeHeaders, hsegments,
    hcontents.1, hcontents.2, DebugFile.outputLength]

end Stages

namespace DebugFile

variable {file : DebugFile}

/-- All programs are written if there is room for them. -/
theorem Beginning.exists_output (first : file.Beginning) (hfresh : file.container.Fresh)
    (h : file.IsShrinkable) (hfits : file.lineStop < 2 ^ 32) :
    ∃ output : LineOutput, ((LineOutput.start first.lineLayout first.start).serveAll
        ⟨file.line, first.placedInfo.header.offset, first.start⟩
        (walk file.info file.abbreviations)).result = .ok output ∧
      output.stop.toNat = file.lineStop ∧
      output.layout.container = first.lineLayout.container := by
  have hstart := first.toNat_start hfresh
  rw [lineStop, ← hstart] at hfits
  obtain ⟨output, programs, edits, hserves, hrecords⟩ :=
    (LineOutput.Records.start ⟨file.line, first.placedInfo.header.offset, first.start⟩
      first.lineLayout).exists_serves h.programs hfits
  refine ⟨output, LineOutput.result_serveAll_eq_ok_iff.mpr ⟨h.complete, hserves⟩, ?_,
    hserves.container⟩
  rw [hrecords.stop_eq, hrecords.length_lineSection, lineStop, ← hstart]
  rfl

/-- The other sections and the tables are written if there is room for them. -/
theorem Beginning.exists_rest (first : file.Beginning) (hfresh : file.container.Fresh)
    {line : Section} (hline : file.container.sections[file.sections.line.index]? = some line)
    {before : Layout} (hcontainer : before.container = first.lineLayout.container) {dest : UInt32}
    (hdest : dest.toNat = file.lineStop) (size : UInt32) (hfits : file.outputLength < 2 ^ 32) :
    ∃ sizeLayout stop fullLayout segmentLayout length finalLayout,
      Placing.setSize file.sections.line.index size before = .ok () sizeLayout ∧
      Placing.copySections dest sizeLayout = .ok stop fullLayout ∧
      Placing.writeSegments fullLayout = .ok () segmentLayout ∧
      Placing.writeSectionHeaders stop segmentLayout = .ok length finalLayout := by
  -- no stage changes the number of sections
  have hbefore : before.container.sections.length = file.container.sections.length := by
    rw [hcontainer, ← Layout.length_stops, first.stops_lineLayout hfresh, List.length_map,
      length_remaining]
  have hindex := (List.getElem?_eq_some_iff.mp hline).1
  rw [← hbefore] at hindex
  obtain ⟨sizeLayout, hset⟩ : ∃ sizeLayout,
      Placing.setSize file.sections.line.index size before = .ok () sizeLayout :=
    ⟨_, Placing.setSize_eq_ok_iff.mpr ⟨_, List.getElem?_eq_getElem hindex, rfl⟩⟩
  have hcontents := first.computes_contents hfresh hcontainer hset hdest
  obtain ⟨stop, fullLayout, hcopy⟩ :=
    hcontents.1 (Nat.lt_of_le_of_lt file.contentsStop_le hfits)
  obtain ⟨hstop, hcount⟩ := hcontents.2 stop fullLayout hcopy
  have hne : fullLayout.container.sections ≠ [] := by
    rw [← List.length_pos_iff, hcount, ← hbefore]
    exact Nat.zero_lt_of_lt hindex
  obtain ⟨segmentLayout, hsegments, hsame⟩ : ∃ segmentLayout,
      Placing.writeSegments fullLayout = .ok () segmentLayout ∧
        segmentLayout.container = fullLayout.container := ⟨_, rfl, rfl⟩
  rw [← hsame] at hne hcount
  obtain ⟨length, finalLayout, hheaders⟩ := (Placing.computes_writeSectionHeaders hne stop).1
    (by rwa [hstop, hcount])
  exact ⟨_, stop, fullLayout, segmentLayout, length, finalLayout, hset, hcopy, hsegments, hheaders⟩

/-- A file that can be shrunk is, if the output does not get too long. -/
theorem IsShrinkable.exists_shrink {data : Bytes} (hopen : (DebugFile.ofBytes data).result = .ok file)
    (h : file.IsShrinkable) (hfits : file.outputLength < 2 ^ 32) :
    ∃ result, (shrink data).result = .ok result := by
  have hfresh := Container.fresh_of_ofBytes (DebugFile.result_ofBytes_eq_ok_iff.mp hopen).1
  obtain ⟨hinfo, -, hline⟩ := has_of_ofBytes hopen
  have hne := hinfo.index_ne hline (by decide)
  obtain ⟨info, hinfo, -⟩ := hinfo
  obtain ⟨line, hline, -⟩ := hline
  obtain ⟨first⟩ := nonempty_beginning hfresh hinfo hline hne
    (Nat.lt_of_le_of_lt file.lineStart_le hfits)
  obtain ⟨output, hserve, hstop, hcontainer⟩ := first.exists_output hfresh h
    (Nat.lt_of_le_of_lt file.lineStop_le hfits)
  obtain ⟨sizeLayout, stop, fullLayout, segmentLayout, length, finalLayout, hset, hcopy, hsegments,
    hheaders⟩ := first.exists_rest hfresh hline hcontainer hstop (output.stop - first.start) hfits
  -- the stages exist one after the other; the run is put together from them
  let stats : Stats :=
    { units := output.units
      rowsDecoded := output.rowsDecoded
      rowsKept := output.rowsKept
      oldLineSize := file.sections.line.size
      newLineSize := output.stop - first.start
      fileSize := length }
  have run : Stages data finalLayout.image.bytes stats :=
    { first with
      file
      opened := hopen
      unloaded := h.unloaded
      output
      serveAll := hserve
      sizeLayout
      setSize := hset
      stop
      fullLayout
      copySections := hcopy
      segmentLayout
      writeSegments := hsegments
      finalLayout
      writeHeaders := hheaders
      out_eq := rfl
      stats_eq := rfl }
  exact ⟨_, run.result_eq⟩

end DebugFile

/-- A file is shrunk exactly when it is opened, has its debug sections and can be shrunk, and the
output is short enough for its offsets. Whether a program can be written does not depend on its
redundant rows, except by its length. -/
theorem shrink_succeeds_iff (data : Bytes) :
    ((∃ result, (shrink data).result = .ok result) ↔
      ∃ container sections, Container.ofBytes data = .ok container ∧
        DebugSections.ofContainer container = .ok sections ∧
        (DebugFile.ofSections container sections).IsShrinkable ∧
        (DebugFile.ofSections container sections).outputLength < 2 ^ 32) ∧
    ∀ (program : Program) (rows : List Row), program.encodedLength rows < 2 ^ 32 + 4 →
      program.encodedLength (reduce rows) < 2 ^ 32 + 4 →
      ((∃ bytes, program.encode (reduce rows) = .ok bytes) ↔
        ∃ bytes, program.encode rows = .ok bytes) := by
  refine ⟨⟨?_, ?_⟩, ?_⟩
  · rintro ⟨⟨out, stats⟩, hresult⟩
    -- a run that succeeds went through all its stages, so its length is the one computed in advance
    obtain ⟨run⟩ := nonempty_stages hresult
    obtain ⟨container, sections, hcontainer, hsections, hfile⟩ :=
      DebugFile.result_ofBytes_eq_ok_iff_ofSections.mp run.opened
    have hlength := run.toNat_fileSize
    have hshrinkable := run.isShrinkable
    rw [hfile] at hlength hshrinkable
    exact ⟨container, sections, hcontainer, hsections, hshrinkable, hlength ▸ stats.fileSize.toNat_lt⟩
  · rintro ⟨container, sections, hcontainer, hsections, hshrinkable, hfits⟩
    exact hshrinkable.exists_shrink (DebugFile.result_ofBytes_eq_ok_iff_ofSections.mpr
      ⟨container, sections, hcontainer, hsections, rfl⟩) hfits
  · intro program rows hrows hreduced
    simp only [Program.exists_encode_iff, endsSequence_reduce, hrows, hreduced]

/-- A file of two units can be shrunk, and so can the rows of one that defines a file of its own. -/
theorem shrink_succeeds_iff_loadedUnitsFile :
    (∃ container sections, Container.ofBytes loadedUnitsFile = .ok container ∧
      DebugSections.ofContainer container = .ok sections ∧
      (DebugFile.ofSections container sections).IsShrinkable ∧
      (DebugFile.ofSections container sections).outputLength < 2 ^ 32) ∧
    ∃ program, Program.decode definingUnit = .ok program ∧
      program.encodedLength program.rows < 2 ^ 32 + 4 ∧
      program.encodedLength (reduce program.rows) < 2 ^ 32 + 4 ∧
      ((∃ bytes, program.encode (reduce program.rows) = .ok bytes) ↔
        ∃ bytes, program.encode program.rows = .ok bytes) := by
  have hshrunk : (shrink loadedUnitsFile).result.toOption.isSome = true := by decide +kernel
  have hlengths : (Program.decode definingUnit).toOption.any (fun program =>
      program.encodedLength program.rows < 2 ^ 32 + 4 ∧
        program.encodedLength (reduce program.rows) < 2 ^ 32 + 4) = true := by decide +kernel
  constructor
  · exact (shrink_succeeds_iff loadedUnitsFile).1.mp (exists_of_isSome_toOption hshrunk)
  · obtain ⟨program, hdecode, hlengths⟩ := exists_of_any_toOption hlengths
    obtain ⟨hrows, hreduced⟩ := of_decide_eq_true hlengths
    exact ⟨program, hdecode, hrows, hreduced,
      (shrink_succeeds_iff loadedUnitsFile).2 program program.rows hrows hreduced⟩

end DwarfLines
