import DwarfLines.Proofs.Shrink.Patching

/-!
# What the output shows

The stages of shrinking a file are put together. The output shows the front of the file, with the
changed references that are in it, the segments and the place of the table of sections written over
it, and behind it what every section that was moved holds. The table of sections comes last.
-/

namespace DwarfLines

open Outcome Elf

namespace Stages

variable {data out : Bytes} {stats : Stats} (run : Stages data out stats)

/-- The file as it was opened. -/
def container : Container := run.file.container

/-- The number of the section of compile units. -/
def infoIndex : Nat := run.file.sections.info.index

/-- The number of the line section. -/
def lineIndex : Nat := run.file.sections.line.index

/-- The places that the line section is written by. -/
def places : LineOutput.Places where
  line := run.file.line
  info := run.placedInfo.header.offset
  start := run.start

/-- The references to line programs in the file. -/
def references : List StatementList :=
  (statementLists run.file.info run.file.abbreviations).1

/-- The layout starts from a file of which nothing is placed yet. -/
theorem fresh : run.container.Fresh :=
  Container.fresh_of_ofBytes (DebugFile.result_ofBytes_eq_ok_iff.mp run.opened).1

/-- The file that was opened is the one that is shrunk. -/
theorem data_eq : run.container.data = data :=
  Container.data_of_ofBytes (DebugFile.result_ofBytes_eq_ok_iff.mp run.opened).1

/-- Its bytes are those of the file. -/
theorem getElem?_data (i : Nat) : run.container.data[i]? = data[i]? :=
  congrArg (fun bytes : Bytes => bytes[i]?) run.data_eq

/-- The debug info is one of the sections. -/
theorem find_info : ∃ found, run.container.sections[run.infoIndex]? = some found ∧
    run.file.info = run.container.contents found ∧
      run.file.sections.info.offset = found.header.offset := by
  obtain ⟨⟨found, hfound, -, hinfo, hcontents⟩, -⟩ := DebugFile.has_of_ofBytes run.opened
  refine ⟨found, hfound, hcontents, ?_⟩
  rw [hinfo]
  rfl

/-- The line section is one of those behind the fixed part. -/
theorem find_line : ∃ found, run.container.sections[run.lineIndex]? = some found ∧
    run.file.line = run.container.contents found ∧
      run.container.fixedStop ≤ found.header.offset := by
  obtain ⟨-, -, found, hfound, -, hinfo, hline⟩ := DebugFile.has_of_ofBytes run.opened
  have hunloaded := run.unloaded
  rw [hinfo] at hunloaded
  exact ⟨found, hfound, hline, hunloaded⟩

/-- Debug info and line section are two sections. -/
theorem info_ne_line : run.infoIndex ≠ run.lineIndex := by
  obtain ⟨hinfo, -, hline⟩ := DebugFile.has_of_ofBytes run.opened
  exact hinfo.index_ne hline (by decide)

/-! ## Before the programs -/

/-- The part of the file that is copied as it is. -/
def front : Bytes := data.take run.frontStop.toNat

/-- The front part of the image ends where the copying of the fixed part stops. -/
theorem length_front : run.front.length = run.frontStop.toNat := by
  obtain ⟨-, -, hlength, -⟩ := Placing.eq_of_copyFixed run.fresh run.copyFixed
  exact List.length_take_of_le (by rwa [run.data_eq] at hlength)

/-- The front part is a copy of the file. -/
theorem getElem?_front {i : Nat} (hi : i < run.front.length) :
    run.front[i]? = run.container.data[i]? :=
  (List.getElem?_take_of_lt (run.length_front ▸ hi)).trans (run.getElem?_data i).symm

/-- The fixed part of the file is in front. -/
theorem fixedStop_le : run.container.fixedStop.toNat ≤ run.front.length := by
  obtain ⟨-, hfixed, -⟩ := Placing.eq_of_copyFixed run.fresh run.copyFixed
  rw [length_front]
  exact UInt32.le_iff_toNat_le.mp hfixed

/-- A section that starts in the fixed part lies in the front. -/
theorem contents_le_front {s : Section} (hs : s ∈ run.container.sections)
    (hfixed : s.header.offset < run.container.fixedStop) :
    s.header.offset.toNat + (run.container.contents s).length ≤ run.front.length := by
  by_cases hdata : s.header.hasFileData = true
  · obtain ⟨-, -, -, hsources⟩ := Placing.eq_of_copyFixed run.fresh run.copyFixed
    have hstop := hsources s hs ⟨hdata, hfixed⟩
    rw [(run.fresh.source_eq hs hdata).1] at hstop
    rwa [run.fresh.length_contents hs hdata, length_front]
  · have := run.fixedStop_le
    rw [UInt32.lt_iff_toNat_lt] at hfixed
    rw [run.fresh.contents_eq_nil hs (Bool.not_eq_true _ ▸ hdata), List.length_nil]
    omega

/-- The compile units are copied behind the front unless they are in it. -/
theorem arranged_infoLayout :
    run.infoLayout.Arranged run.front run.container.held run.infoStop.toNat ∧
      (Layout.start run.container).Keeps run.infoLayout ∧
      (run.placedInfo.header.hasFileData = true → run.placedInfo.placed = true) ∧
      run.infoLayout.container.sections[run.lineIndex]? =
        run.container.sections[run.lineIndex]? := by
  obtain ⟨hfront, hkeeps⟩ := Placing.arranged_copyFixed run.fresh run.copyFixed
  obtain ⟨hinfo, hkeeps', hplaced, hothers⟩ := Placing.arranged_copySection hfront run.copyInfo
  rw [run.data_eq] at hinfo
  refine ⟨hinfo, hkeeps.trans hkeeps', hplaced _ run.findInfo, ?_⟩
  obtain ⟨line, hline, -, hunloaded⟩ := run.find_line
  obtain ⟨heq, -⟩ := Placing.eq_of_copyFixed run.fresh run.copyFixed
  rw [hothers _ run.info_ne_line.symm, heq]
  show (run.container.sections.map _)[run.lineIndex]? = _
  rw [List.getElem?_map, hline, Option.map_some, Section.settle, if_neg]
  rintro ⟨-, hfixed⟩
  exact UInt32.not_lt.mpr hunloaded hfixed

/-- The line section starts behind the compile units, without contents at first. -/
theorem arranged_lineLayout :
    run.lineLayout.Arranged run.front (Function.update run.container.held run.lineIndex [])
        run.start.toNat ∧
      (Layout.start run.container).Keeps run.lineLayout ∧
      run.lineLayout.container.sections[run.infoIndex]? = some run.placedInfo ∧
      ∃ line, run.container.sections[run.lineIndex]? = some line ∧
        run.lineLayout.container.sections[run.lineIndex]? = some (line.placedAt run.start) := by
  obtain ⟨harranged, hkeeps, -, hsame⟩ := run.arranged_infoLayout
  obtain ⟨line, hline, -, hunloaded⟩ := run.find_line
  rw [hline] at hsame
  obtain ⟨found, hfound, hmark⟩ := Placing.markPlaced_eq_ok_iff.mp run.markLine
  obtain rfl := Option.some.inj (hfound.symm.trans hsame)
  have hmark : run.lineLayout = run.infoLayout.setSection run.lineIndex
      (found.placedAt run.start) := hmark
  have hget := Layout.getElem?_setSection hsame (found.placedAt run.start)
  have hstart := le_of_alignUp? run.alignLine
  have hfixed : run.container.fixedStop ≤ run.start := by
    have := run.fixedStop_le
    have := harranged.front_le
    rw [UInt32.le_iff_toNat_le]
    omega
  have hunplaced := run.fresh.unplaced found (List.mem_of_getElem? hline)
  have hfixedStop : run.infoLayout.container.fixedStop = run.container.fixedStop :=
    hkeeps.fixedStop
  rw [← hfixedStop] at hunloaded hfixed
  rw [hmark]
  -- The section is placed before a program is written, so it holds nothing yet.
  refine ⟨harranged.setPlace hsame hstart (Nat.le_refl _) (.nil _ _),
    hkeeps.trans (.setPlace hsame hunplaced hunloaded hfixed), ?_, found, hline, ?_⟩
  · rw [hget, if_neg run.info_ne_line]
    exact run.findInfo
  · rw [hget, if_pos rfl]

/-- The debug info is held by its section. -/
theorem held_infoIndex : run.container.held run.infoIndex = run.file.info := by
  obtain ⟨found, hfound, hinfo, -⟩ := run.find_info
  rw [Container.held_eq hfound, hinfo]

/-- Compile units are in the fixed part of the output just if they were in that of the file, and then
they are where they were. -/
theorem pinned_placedInfo {info : Section}
    (hinfo : run.container.sections[run.infoIndex]? = some info) :
    run.placedInfo.pinned run.container.fixedStop = info.pinned run.container.fixedStop := by
  obtain ⟨-, hkeeps, hfind, -⟩ := run.arranged_lineLayout
  obtain ⟨old, hold, -, hpinned⟩ := hkeeps.section_of_getElem? hfind
  obtain rfl := Option.some.inj (hold.symm.trans hinfo)
  exact hpinned

/-- Debug info in the fixed part stays where it was. -/
theorem placedInfo_of_fixed (hfixed : run.placedInfo.header.offset < run.container.fixedStop) :
    run.file.sections.info.offset < run.container.fixedStop ∧
      run.placedInfo.header.offset = run.file.sections.info.offset := by
  obtain ⟨info, hinfo, -, hoffset⟩ := run.find_info
  obtain ⟨hold, hsame⟩ := Section.pinned_eq_some_iff.mp
    ((run.pinned_placedInfo hinfo).symm.trans (Section.pinned_eq_some_iff.mpr ⟨hfixed, rfl⟩))
  rw [hoffset]
  exact ⟨hold, hsame.symm⟩

/-- The compile units can be patched where they went. -/
theorem patchable_lineLayout :
    Patchable run.lineLayout run.front run.container.held run.infoIndex run.placedInfo := by
  obtain ⟨-, -, hplaced, -⟩ := run.arranged_infoLayout
  obtain ⟨-, hkeeps, hfind, -⟩ := run.arranged_lineLayout
  obtain ⟨old, hold, hskeleton, hpinned⟩ := hkeeps.section_of_getElem? hfind
  have hmem : old ∈ run.container.sections := List.mem_of_getElem? hold
  have hheld : run.container.held run.infoIndex = run.container.contents old :=
    Container.held_eq hold
  have hheader := Section.header_of_skeleton_eq hskeleton
  -- an empty section has no edits; one in the fixed part is inside its copy
  refine ⟨hfind, hplaced, ?_, ?_⟩
  · rw [hheader, hheld]
    intro hne
    by_contra hnone
    exact hne (run.fresh.contents_eq_nil hmem (Bool.not_eq_true _ ▸ hnone))
  · rw [hkeeps.fixedStop, hheld]
    intro hfixed
    obtain ⟨hold, hoffset⟩ := Section.pinned_eq_some_iff.mp
      (hpinned.symm.trans (Section.pinned_eq_some_iff.mpr ⟨hfixed, rfl⟩))
    rw [← hoffset]
    exact run.contents_le_front hmem hold

/-! ## With the programs -/

/-- The walk over the compile units reached the end, and serving them wrote their programs and
changed their references. -/
theorem exists_serving :
    (walk run.file.info run.file.abbreviations).2 = none ∧ ∃ programs edits,
      LineOutput.Serving run.places run.lineLayout run.front run.container.held run.infoIndex
        run.lineIndex run.placedInfo run.references programs edits run.output := by
  obtain ⟨harranged, -, -, line, -, hline⟩ := run.arranged_lineLayout
  refine LineOutput.serving_serveAll run.patchable_lineLayout run.info_ne_line rfl hline rfl rfl
    harranged ?_ run.serveAll
  intro reference hmem
  obtain ⟨visit, hvisit, hreference⟩ := List.mem_filterMap.mp hmem
  obtain ⟨-, hstop, hspan⟩ := walkFrom_bounds (Prod.eta _).symm visit hvisit
  have := (hspan reference hreference).2
  rw [run.held_infoIndex]
  simp only [StatementList.span] at this
  omega

/-! ## The whole output -/

/-- The front of the output before the header points at the table of sections. -/
def segmentedFront (edits : List (Nat × UInt32)) : Bytes :=
  ((Image.mk (frontWith run.container.fixedStop run.placedInfo run.front edits)).writeAt
    run.container.header.segmentTable.start (run.container.header.segmentTable.slice data)).bytes

/-- The front of the output. -/
def finalFront (edits : List (Nat × UInt32)) (table : UInt32) : Bytes :=
  ((Image.mk (run.segmentedFront edits)).writeWord32 sectionOffsetField table).bytes

/-- Changed references leave the front part as long as it was. -/
theorem length_frontWith {edits : List (Nat × UInt32)}
    (hinside : ∀ edit ∈ edits, edit.1 + 4 ≤ run.file.info.length) :
    (frontWith run.container.fixedStop run.placedInfo run.front edits).length =
      run.front.length := by
  obtain ⟨-, hkeeps, -⟩ := run.arranged_lineLayout
  have hfixedStop : run.lineLayout.container.fixedStop = run.container.fixedStop :=
    hkeeps.fixedStop
  rw [← hfixedStop]
  exact DwarfLines.length_frontWith run.patchable_lineLayout (by rwa [run.held_infoIndex])

/-- The segment headers are in the fixed part. -/
theorem segmentTable_le : run.container.header.segmentTable.stop ≤ run.container.fixedStop.toNat :=
  run.fresh.segments_le

/-- The offset of the section table is in the fixed part. -/
theorem sectionOffsetPlace_le : sectionOffsetPlace.stop ≤ run.container.fixedStop.toNat := by
  have := run.fresh.header_le
  simp only [Part.size, sectionOffsetPlace, sectionOffsetField] at this ⊢
  omega

/-- What the sections of the output hold. -/
def finalHeld (programs : List (UInt32 × ShrunkProgram)) (edits : List (Nat × UInt32)) :
    Nat → Bytes :=
  Function.update (heldWith run.container.fixedStop run.placedInfo run.container.held run.infoIndex
    edits) run.lineIndex (lineSection programs)

/-- The size that a section has in the output. -/
def finalSize (k : Nat) (s : Section) : UInt32 :=
  if k = run.lineIndex then run.output.stop - run.start else s.header.size

/-- Whether a section of the output is a section of the file, in the place that it was given. -/
structure Relaid (k : Nat) (old new : Section) : Prop where
  name : new.name = old.name
  header : new.header =
    { old.header with offset := new.header.offset, size := run.finalSize k old }
  pinned : new.pinned run.container.fixedStop = old.pinned run.container.fixedStop
  placed : new.header.hasFileData = true → new.placed = true

/-- What the output shows, given the programs and the edits of the run and the place of the table of
sections. -/
structure Shows (programs : List (UInt32 × ShrunkProgram)) (edits : List (Nat × UInt32))
    (table : UInt32) : Prop where
  inside : ∀ edit ∈ edits, edit.1 + 4 ≤ run.file.info.length
  records : LineOutput.Records run.places run.references programs edits run.output
  relaid : ∀ (k : Nat) (new : Section), run.finalLayout.container.sections[k]? = some new →
    ∃ old, run.container.sections[k]? = some old ∧ run.Relaid k old new
  count : run.finalLayout.container.sections.length = run.container.sections.length
  fixedStop : run.finalLayout.container.fixedStop = run.container.fixedStop
  arranged : run.finalLayout.Arranged (run.finalFront edits table) (run.finalHeld programs edits)
    run.stop.toNat
  stop_le : run.stop.toNat ≤ table.toNat
  holds_table : run.finalLayout.image.Holds table.toNat
    (run.finalLayout.container.sections.flatMap fun s => s.header.bytes)
  length : out.length = table.toNat + run.container.sections.length * Part.section.size

/-- The line section gets its size where it stands. -/
theorem sizeLayout_eq {programs : List (UInt32 × ShrunkProgram)} {edits : List (Nat × UInt32)}
    (h : LineOutput.Serving run.places run.lineLayout run.front run.container.held run.infoIndex
      run.lineIndex run.placedInfo run.references programs edits run.output) :
    ∃ line, run.container.sections[run.lineIndex]? = some line ∧
      run.lineLayout.container.sections[run.lineIndex]? = some (line.placedAt run.start) ∧
      run.output.layout.container.sections[run.lineIndex]? = some (line.placedAt run.start) ∧
      run.sizeLayout = run.output.layout.setSection run.lineIndex
        { line.placedAt run.start with
          header := { (line.placedAt run.start).header with
            size := run.output.stop - run.start } } := by
  obtain ⟨-, -, -, line, hline, hplaced⟩ := run.arranged_lineLayout
  obtain ⟨found, hfound, hsize⟩ := Placing.setSize_eq_ok_iff.mp run.setSize
  have hserved := congrArg (fun c => c.sections[run.lineIndex]?) h.container
  obtain rfl := Option.some.inj (hfound.symm.trans (hserved.trans hplaced))
  exact ⟨line, hline, hplaced, hfound, hsize⟩

/-- Before the sections that are left are copied, all sections have their final sizes. -/
theorem section_sizeLayout {programs : List (UInt32 × ShrunkProgram)} {edits : List (Nat × UInt32)}
    (h : LineOutput.Serving run.places run.lineLayout run.front run.container.held run.infoIndex
      run.lineIndex run.placedInfo run.references programs edits run.output)
    {k : Nat} {sized : Section} (hsized : run.sizeLayout.container.sections[k]? = some sized) :
    ∃ old, run.container.sections[k]? = some old ∧ sized.name = old.name ∧
      sized.header =
        { old.header with offset := sized.header.offset, size := run.finalSize k old } ∧
      sized.pinned run.container.fixedStop = old.pinned run.container.fixedStop := by
  obtain ⟨-, hkeeps, -⟩ := run.arranged_lineLayout
  obtain ⟨line, hline, hplaced, hfound, hsize⟩ := run.sizeLayout_eq h
  rw [hsize, Layout.getElem?_setSection hfound] at hsized
  -- the line section has the length of what was written, every other section its old one
  split at hsized
  · rename_i hk
    subst hk
    obtain rfl := Option.some.inj hsized
    obtain ⟨old, hold, -, hpinned⟩ := hkeeps.section_of_getElem? hplaced
    obtain rfl := Option.some.inj (hold.symm.trans hline)
    have hfinal : run.finalSize run.lineIndex old = run.output.stop - run.start := if_pos rfl
    refine ⟨old, hline, rfl, ?_, hpinned⟩
    rw [hfinal]
    rfl
  · rename_i hk
    rw [h.container] at hsized
    obtain ⟨old, hold, hskeleton, hpinned⟩ := hkeeps.section_of_getElem? hsized
    have hfinal : run.finalSize k old = old.header.size := if_neg hk
    refine ⟨old, hold, Section.name_of_skeleton_eq hskeleton, ?_, hpinned⟩
    rw [hfinal]
    exact Section.header_of_skeleton_eq hskeleton

/-- The line section gets its size, and all other sections their places. -/
theorem arranged_fullLayout {programs : List (UInt32 × ShrunkProgram)} {edits : List (Nat × UInt32)}
    (h : LineOutput.Serving run.places run.lineLayout run.front run.container.held run.infoIndex
      run.lineIndex run.placedInfo run.references programs edits run.output) :
    run.fullLayout.Arranged (frontWith run.container.fixedStop run.placedInfo run.front edits)
        (run.finalHeld programs edits) run.stop.toNat ∧
      run.fullLayout.container.data = run.container.data ∧
      run.fullLayout.container.header = run.container.header ∧
      run.fullLayout.container.fixedStop = run.container.fixedStop ∧
      run.fullLayout.container.sections.length = run.container.sections.length ∧
      ∀ (k : Nat) (new : Section), run.fullLayout.container.sections[k]? = some new →
        ∃ old, run.container.sections[k]? = some old ∧ run.Relaid k old new := by
  obtain ⟨-, hkeeps, -⟩ := run.arranged_lineLayout
  obtain ⟨line, -, -, hfound, hsize⟩ := run.sizeLayout_eq h
  have harranged := h.arranged
  rw [hkeeps.fixedStop] at harranged
  have hsized : run.sizeLayout.Arranged
      (frontWith run.container.fixedStop run.placedInfo run.front edits)
      (run.finalHeld programs edits) run.output.stop.toNat := by
    rw [hsize]
    exact harranged.setSection hfound rfl rfl rfl rfl
  obtain ⟨hfull, hkeeps', hdone⟩ := Placing.arranged_copySections hsized run.copySections
  -- Setting a size is not a step that keeps the sections, but it changes nothing besides them.
  have hlayout : run.sizeLayout.container = { run.lineLayout.container with
      sections := run.sizeLayout.container.sections } := by
    rw [← h.container, hsize]
    rfl
  have hlength : run.sizeLayout.container.sections.length =
      run.lineLayout.container.sections.length := by
    rw [← h.container, hsize]
    exact List.length_set
  have hfixedStop : run.sizeLayout.container.fixedStop = run.container.fixedStop :=
    (congrArg Container.fixedStop hlayout).trans hkeeps.fixedStop
  refine ⟨hfull, hkeeps'.data.trans ((congrArg Container.data hlayout).trans hkeeps.data),
    hkeeps'.header.trans ((congrArg Container.header hlayout).trans hkeeps.header),
    hkeeps'.fixedStop.trans hfixedStop, hkeeps'.length.trans (hlength.trans hkeeps.length), ?_⟩
  intro k new hnew
  obtain ⟨sized, hsized, hskeleton, hpinned⟩ := hkeeps'.section_of_getElem? hnew
  obtain ⟨old, hold, hname, hheader, hpinned'⟩ := run.section_sizeLayout h hsized
  rw [hfixedStop] at hpinned
  have hnewHeader := Section.header_of_skeleton_eq hskeleton
  rw [hheader] at hnewHeader
  exact ⟨old, hold, (Section.name_of_skeleton_eq hskeleton).trans hname, hnewHeader,
    hpinned.trans hpinned', hdone new (List.mem_of_getElem? hnew)⟩

/-- A file that is shrunk gives an output that shows all of it. -/
theorem exists_shows :
    (walk run.file.info run.file.abbreviations).2 = none ∧
      ∃ programs edits table, run.Shows programs edits table := by
  obtain ⟨hstopped, programs, edits, hserving⟩ := run.exists_serving
  obtain ⟨hfull, hdata, hheader, hfixedStop, hcount, hrelaid⟩ := run.arranged_fullLayout hserving
  have hinside := hserving.inside
  rw [run.held_infoIndex] at hinside
  have hlength := run.length_frontWith hinside
  have hfixed := run.fixedStop_le
  have hsegmentTable := run.segmentTable_le
  have hsectionOffset := run.sectionOffsetPlace_le
  have hdataLength := run.fresh.fixed_le
  -- The two tables come last: that of the segments goes into the front, where it was,
  -- and that of the sections behind everything.
  obtain ⟨hsame, hsegments⟩ := Placing.arranged_writeSegments hfull
    (by rw [hlength, hheader]; omega) (by rw [hdata, hheader]; omega) run.writeSegments
  have hfrontLe := hsegments.fixed_le
  rw [hsame, hfixedStop] at hfrontLe
  have hnonempty : run.segmentLayout.container.sections ≠ [] := by
    obtain ⟨line, hline, -⟩ := run.find_line
    rw [← List.length_pos_iff, hsame, hcount]
    have := (List.getElem?_eq_some_iff.mp hline).1
    omega
  obtain ⟨table, htable, hstop, hsame', himage, hholds, hfinal⟩ :=
    Placing.arranged_writeSectionHeaders hsegments
      (Nat.le_trans hsectionOffset hfrontLe) hnonempty run.writeHeaders
  have hfinalContainer := hsame'.trans hsame
  rw [hheader, hdata, run.data_eq] at hfinal
  refine ⟨hstopped, programs, edits, table, hinside, hserving.records, ?_, ?_, ?_, hfinal,
    le_of_alignUp? htable, ?_, ?_⟩
  · rw [hfinalContainer]
    exact hrelaid
  · rw [hfinalContainer]
    exact hcount
  · rw [hfinalContainer]
    exact hfixedStop
  · rw [hsame']
    exact hholds
  · rw [hsame, hcount] at hstop
    exact (congrArg List.length run.out_eq).trans (himage.trans hstop)

/-! ## Its front -/

variable {programs : List (UInt32 × ShrunkProgram)} {edits : List (Nat × UInt32)} {table : UInt32}

/-- The segment headers are all there. -/
theorem length_segments :
    (run.container.header.segmentTable.slice data).length =
      run.container.header.segmentTable.length := by
  have hlength := run.fresh.fixed_le
  have hle := run.segmentTable_le
  have hdata := congrArg List.length run.data_eq
  exact Span.length_slice (by omega)

/-- The segment headers end by their length behind their start. -/
theorem segmentTable_start_add_length :
    run.container.header.segmentTable.start + run.container.header.segmentTable.length =
      run.container.header.segmentTable.stop := Nat.add_sub_cancel' (Nat.le_add_right _ _)

/-- Writing the segment headers leaves the front part as long as it was. -/
theorem length_segmentedFront (hinside : ∀ edit ∈ edits, edit.1 + 4 ≤ run.file.info.length) :
    (run.segmentedFront edits).length = run.front.length := by
  have hlength := run.length_frontWith hinside
  refine (Image.length_writeAt_of_le ?_).trans hlength
  rw [length_segments, segmentTable_start_add_length, Image.length, hlength]
  exact Nat.le_trans run.segmentTable_le run.fixedStop_le

/-- Writing the offset of the section table leaves the front part as long as it was. -/
theorem length_finalFront (hinside : ∀ edit ∈ edits, edit.1 + 4 ≤ run.file.info.length) :
    (run.finalFront edits table).length = run.front.length := by
  have hlength := run.length_segmentedFront hinside
  refine (Image.length_writeWord32 ?_).trans hlength
  rw [Image.length, hlength]
  exact Nat.le_trans run.sectionOffsetPlace_le run.fixedStop_le

/-- A byte in front that no reference has its place at is that of the file. -/
theorem getElem?_frontWith {i : Nat} (hi : i < run.front.length)
    (hedits : run.placedInfo.header.offset < run.container.fixedStop →
      ∀ edit ∈ edits, i ∉ Image.editSpan (run.placedInfo.header.offset.toNat + edit.1, edit.2)) :
    (frontWith run.container.fixedStop run.placedInfo run.front edits)[i]? = data[i]? := by
  have hfront : run.front[i]? = data[i]? :=
    (run.getElem?_front hi).trans (run.getElem?_data i)
  unfold frontWith
  split
  · rename_i hfixed
    rw [← hfront]
    refine Image.getElem?_writeWords_outside hi ?_
    rw [List.forall_mem_map]
    exact hedits hfixed
  · exact hfront

/-- The table of segments is as it was, and the rest of the front as it was before. -/
theorem getElem?_segmentedFront (hinside : ∀ edit ∈ edits, edit.1 + 4 ≤ run.file.info.length)
    {i : Nat} (hi : i < run.front.length) :
    (run.segmentedFront edits)[i]? =
      if i ∈ run.container.header.segmentTable then data[i]?
      else (frontWith run.container.fixedStop run.placedInfo run.front edits)[i]? := by
  have hlength := run.length_frontWith hinside
  have hstop := run.segmentTable_start_add_length
  -- the segment table is written over the front last
  split
  · rename_i hsegment
    rw [Span.mem_iff] at hsegment
    have hinside : i - run.container.header.segmentTable.start <
        run.container.header.segmentTable.length := by omega
    have hwritten := Image.getElem?_writeAt_inside
      (Image.mk (frontWith run.container.fixedStop run.placedInfo run.front edits))
      run.container.header.segmentTable.start (run.length_segments.symm ▸ hinside)
    rw [Nat.add_sub_cancel' hsegment.1, Span.getElem?_slice hinside,
      Nat.add_sub_cancel' hsegment.1] at hwritten
    exact hwritten
  · rename_i hsegment
    refine Image.getElem?_writeAt_outside (Nat.lt_of_lt_of_eq hi hlength.symm) ?_
    rw [length_segments, hstop]
    exact hsegment

/-- The offset of the section table changes four bytes only. -/
theorem getElem?_finalFront (hinside : ∀ edit ∈ edits, edit.1 + 4 ≤ run.file.info.length) {i : Nat}
    (hi : i < run.front.length) (hplace : i ∉ sectionOffsetPlace) :
    (run.finalFront edits table)[i]? = (run.segmentedFront edits)[i]? := by
  have hlength := run.length_segmentedFront hinside
  refine Image.getElem?_writeAt_outside (Nat.lt_of_lt_of_eq hi hlength.symm) ?_
  rw [length_bytesOfWord32]
  exact hplace

end Stages

end DwarfLines
