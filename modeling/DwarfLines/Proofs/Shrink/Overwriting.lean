import DwarfLines.Proofs.Elf.Overwriting
import DwarfLines.Proofs.Shrink.Idempotence

/-!
# Bytes that shrinking does not read

Of the line section, shrinking a file reads only the programs that compile units refer to. The other
bytes of the section, if they belong to no other part of the file, may be any: the output is the same,
and so is what is told of it.
-/

namespace DwarfLines

open Outcome Elf

/-- Whether the byte at `i` belongs to the line section, but to no program that a compile unit refers
to, to no other section, and neither to the header nor to a table. -/
structure DebugFile.Unread (file : DebugFile) (i : Nat) : Prop where
  line : i ∈ Span.mk file.sections.line.offset.toNat
    (file.sections.line.offset.toNat + file.sections.line.size.toNat)
  programs : ∀ reference ∈ (statementLists file.info file.abbreviations).1, ∀ unit : Bytes,
    unitAt file.line reference.lineOffset = .ok unit →
    i ∉ Span.mk (file.sections.line.offset.toNat + reference.lineOffset.toNat)
      (file.sections.line.offset.toNat + reference.lineOffset.toNat + unit.length)
  others : ∀ (k : Nat) (s : Section), file.container.sections[k]? = some s →
    k ≠ file.sections.line.index → s.header.hasFileData = true → i ∉ s.source
  header : i ∉ Span.mk 0 Part.fileHeader.size
  segments : i ∉ file.container.header.segmentTable
  sectionTable : i ∉ file.container.header.sectionTable

/-- The places that are not read, as a condition that evaluates. -/
theorem DebugFile.unread_iff {file : DebugFile} {i : Nat} :
    file.Unread i ↔
      i ∈ Span.mk file.sections.line.offset.toNat
        (file.sections.line.offset.toNat + file.sections.line.size.toNat) ∧
      (∀ reference ∈ (statementLists file.info file.abbreviations).1,
        ∀ unit ∈ (unitAt file.line reference.lineOffset).toOption,
          i ∉ Span.mk (file.sections.line.offset.toNat + reference.lineOffset.toNat)
            (file.sections.line.offset.toNat + reference.lineOffset.toNat + unit.length)) ∧
      (∀ p ∈ file.container.sections.zipIdx, p.2 ≠ file.sections.line.index →
        p.1.header.hasFileData = true → i ∉ p.1.source) ∧
      i ∉ Span.mk 0 Part.fileHeader.size ∧ i ∉ file.container.header.segmentTable ∧
      i ∉ file.container.header.sectionTable := by
  have hunit (x : Except DebugError Bytes) (unit : Bytes) :
      unit ∈ x.toOption ↔ x = .ok unit := by
    cases x <;> simp [Except.toOption, eq_comm]
  constructor
  · rintro ⟨hline, hprograms, hothers, hheader, hsegments, htable⟩
    refine ⟨hline, fun reference href unit hu => hprograms reference href unit ((hunit _ _).mp hu),
      fun p hp => ?_, hheader, hsegments, htable⟩
    exact hothers p.2 p.1 (List.mem_zipIdx_iff_getElem?.mp hp)
  · rintro ⟨hline, hprograms, hothers, hheader, hsegments, htable⟩
    refine ⟨hline, fun reference href unit hu => hprograms reference href unit ((hunit _ _).mpr hu),
      fun k s hs => ?_, hheader, hsegments, htable⟩
    exact hothers (s, k) (List.mem_zipIdx_iff_getElem?.mpr hs)

instance (file : DebugFile) (i : Nat) : Decidable (file.Unread i) :=
  decidable_of_iff _ DebugFile.unread_iff.symm

/-- Whether another file differs from an opened one in nothing that is read. -/
structure DebugFile.ReadsAs (file : DebugFile) (other : Bytes) : Prop where
  length_eq : other.length = file.container.data.length
  unread : ∀ i, other[i]? ≠ file.container.data[i]? → file.Unread i
  names_ne_line : file.container.header.nameSection.toNat ≠ file.sections.line.index

/-- The same file over other bytes. -/
def DebugFile.withData (file : DebugFile) (other line : Bytes) : DebugFile :=
  { file with container := file.container.withData other, line }

/-! ## Serving compile units -/

namespace LineOutput

/-- The same output over the bytes of another file. -/
def withData (output : LineOutput) (other : Bytes) : LineOutput :=
  { output with layout := output.layout.withData other }

variable {places : Places} {output after : LineOutput} {line : Bytes}

/-- A program that both line sections have is provided from either. -/
theorem Provides.withData {lineOffset relative : UInt32}
    (h : Provides places output lineOffset relative after) (other : Bytes)
    (hunit : ∀ unit, unitAt places.line lineOffset = .ok unit → unitAt line lineOffset = .ok unit) :
    Provides { places with line } (output.withData other) lineOffset relative
      (after.withData other) := by
  cases h with
  | shared hlookup => exact .shared hlookup
  | @added shrunk stop hlookup hshrunk hstop =>
    have hshrunk' : shrunk.Of line lineOffset :=
      ⟨hunit _ hshrunk.unit, hshrunk.program, hshrunk.rows, hshrunk.bytes⟩
    exact @Provides.added { places with line } (output.withData other) _ _ _ hlookup hshrunk' hstop

/-- Serving the references gives the same output from another image in which the referenced units
are the same. -/
theorem Serves.withData {references : List StatementList}
    (h : Serves places output references after) (other : Bytes)
    (hunits : ∀ reference ∈ references, ∀ unit, unitAt places.line reference.lineOffset = .ok unit →
      unitAt line reference.lineOffset = .ok unit) :
    Serves { places with line } (output.withData other) references (after.withData other) := by
  induction h with
  | nil => exact .nil
  | @cons output between after reference relative references hprovides hserves ih =>
    rw [List.forall_mem_cons] at hunits
    exact .cons (hprovides.withData other hunits.1) (ih hunits.2)

end LineOutput

/-! ## The stages over other bytes -/

namespace Stages

variable {data out other : Bytes} {stats : Stats} (run : Stages data out stats)

/-- The section whose bytes may differ starts behind the fixed part. -/
theorem startsBehind_line :
    Placing.StartsBehind run.lineIndex (.start run.container) := by
  obtain ⟨line, hline, -, hunloaded⟩ := run.find_line
  intro s hs
  obtain rfl := Option.some.inj (hline.symm.trans hs)
  exact hunloaded

/-- The abbreviations are not in the section of the line programs. -/
theorem abbreviations_ne_line : run.file.sections.abbreviations.index ≠ run.lineIndex := by
  obtain ⟨-, habbreviations, hline⟩ := DebugFile.has_of_ofBytes run.opened
  exact habbreviations.index_ne hline (by decide)

variable (h : run.file.ReadsAs other)

include h

/-- At a place that is read the two images agree. -/
theorem getElem?_other {i : Nat} (hi : ¬ run.file.Unread i) :
    other[i]? = run.container.data[i]? := by
  by_contra hne
  exact hi (h.unread i hne)

/-- All that is read besides line programs is the same. -/
theorem sharesAllBut_line : (Layout.start run.container).SharesAllBut run.lineIndex other := by
  intro k s hk hs
  by_cases hdata : s.header.hasFileData = true
  · refine Span.slice_congr fun i hi => run.getElem?_other h fun hunread => ?_
    exact hunread.others k s hs hk hdata hi
  · have hmem : s ∈ run.container.sections := List.mem_of_getElem? hs
    obtain ⟨source, hsource, hslice⟩ := exists_sourceOf?_of_not_hasFileData
      run.container.data.length (Bool.not_eq_true _ ▸ hdata)
    obtain rfl := Option.some.inj ((run.fresh.source s hmem).symm.trans hsource)
    exact (hslice other).trans (hslice run.container.data).symm

/-- The other image opens with the same headers and sections. -/
theorem opensAs : run.container.OpensAs other where
  length_eq := h.length_eq
  header i hi := run.getElem?_other h fun hunread => hunread.header ⟨Nat.zero_le i, hi⟩
  segments _ hi := run.getElem?_other h fun hunread => hunread.segments hi
  table _ hi := run.getElem?_other h fun hunread => hunread.sectionTable hi
  names s hs := run.sharesAllBut_line h _ s h.names_ne_line hs

/-- In the fixed part the two images agree. -/
theorem getElem?_other_of_fixed {i : Nat} (hi : i < run.container.fixedStop.toNat) :
    other[i]? = run.container.data[i]? := by
  refine run.getElem?_other h fun hunread => ?_
  have hunloaded := UInt32.le_iff_toNat_le.mp run.unloaded
  have hstart := hunread.line.1
  change run.file.container.fixedStop.toNat ≤ _ at hunloaded
  exact absurd (Nat.lt_of_lt_of_le hi (Nat.le_trans hunloaded hstart)) (Nat.lt_irrefl _)

/-- The line section of the other file. -/
theorem exists_line : ∃ line, (run.container.withData other).contents? run.lineIndex = .ok line ∧
    ∀ reference ∈ run.references, ∀ unit, unitAt run.file.line reference.lineOffset = .ok unit →
      unitAt line reference.lineOffset = .ok unit := by
  obtain ⟨-, -, found, hfound, -, hinfo, hline⟩ := DebugFile.has_of_ofBytes run.opened
  refine ⟨found.source.slice other, Container.contents?_eq_ok_iff.mpr ⟨found, hfound, rfl⟩, ?_⟩
  intro reference hreference unit hunit
  have hmem : found ∈ run.container.sections := List.mem_of_getElem? hfound
  -- only a stored section can hold a unit; an empty one has none
  by_cases hdata : found.header.hasFileData = true
  · obtain ⟨hsource, hstop⟩ := run.fresh.source_eq hmem hdata
    have hoffset : run.file.sections.line.offset = found.header.offset := by
      rw [hinfo]
      rfl
    have hlength := run.fresh.length_contents hmem hdata
    -- the unit at the reference is read byte by byte, and each of its bytes is one that is read
    refine unitAt_of_same hunit fun j hj => ?_
    rw [hline, Container.contents]
    by_cases hinside : reference.lineOffset.toNat + j < found.source.length
    · rw [Span.getElem?_slice hinside, Span.getElem?_slice hinside]
      refine run.getElem?_other h fun hunread => hunread.programs reference hreference unit hunit ?_
      rw [hoffset, hsource, Span.mem_iff]
      dsimp only
      omega
    · rw [Span.slice, Span.slice, List.getElem?_take_eq_none (by omega),
        List.getElem?_take_eq_none (by omega)]
  · have hnil : run.file.line = [] :=
      hline.trans (run.fresh.contents_eq_nil hmem (Bool.not_eq_true _ ▸ hdata))
    rw [hnil] at hunit
    exact absurd hunit unitAt_nil_ne_ok

/-- A section other than the line section has the same contents in the other file. -/
theorem contents?_withData {index : Nat} {bytes : Bytes} (hindex : index ≠ run.lineIndex)
    (hcontents : run.container.contents? index = .ok bytes) :
    (run.container.withData other).contents? index = .ok bytes := by
  obtain ⟨s, hs, rfl⟩ := Container.contents?_eq_ok_iff.mp hcontents
  exact Container.contents?_eq_ok_iff.mpr
    ⟨s, hs, (run.sharesAllBut_line h index s hindex hs).symm⟩

/-- The other file is opened, with the same units where references to programs lead. -/
theorem exists_opened : ∃ line,
    (DebugFile.ofBytes other).result = .ok (run.file.withData other line) ∧
    ∀ reference ∈ run.references, ∀ unit, unitAt run.file.line reference.lineOffset = .ok unit →
      unitAt line reference.lineOffset = .ok unit := by
  obtain ⟨line, hline, hunits⟩ := run.exists_line h
  obtain ⟨hcontainer, hsections, hinfo, habbreviations, -⟩ :=
    DebugFile.result_ofBytes_eq_ok_iff.mp run.opened
  have hcontainer' := (run.opensAs h).ofBytes_eq hcontainer
  refine ⟨line, DebugFile.result_ofBytes_eq_ok_iff.mpr
    ⟨hcontainer', hsections, ?_, ?_, hline⟩, hunits⟩
  · exact run.contents?_withData h run.info_ne_line hinfo
  · exact run.contents?_withData h run.abbreviations_ne_line habbreviations

/-- What stands in front of the line section is laid out in the same way. -/
theorem front_withData :
    Placing.copyFixed (.start (run.container.withData other)) =
      .ok run.frontStop (run.frontLayout.withData other) ∧
    Placing.copySection run.frontStop run.file.sections.info.index
      (run.frontLayout.withData other) = .ok run.infoStop (run.infoLayout.withData other) ∧
    Placing.markPlaced run.lineIndex run.start (run.infoLayout.withData other) =
      .ok () (run.lineLayout.withData other) ∧
    run.lineLayout.SharesAllBut run.lineIndex other := by
  obtain ⟨hfixed, hshares⟩ := Placing.copyFixed_withData (fun i => run.getElem?_other_of_fixed h)
    (run.sharesAllBut_line h) run.startsBehind_line run.copyFixed
  obtain ⟨hcopyInfo, hshares⟩ := Placing.copySection_withData hshares
    (fun heq => absurd heq run.info_ne_line) run.copyInfo
  obtain ⟨hmark, hshares⟩ := Placing.markPlaced_withData hshares run.markLine
  exact ⟨hfixed, hcopyInfo, hmark, hshares⟩

/-- What stands behind the line section is laid out in the same way. -/
theorem rest_withData (hshares : run.lineLayout.SharesAllBut run.lineIndex other) :
    Placing.setSize run.lineIndex (run.output.stop - run.start)
      (run.output.layout.withData other) = .ok () (run.sizeLayout.withData other) ∧
    Placing.copySections run.output.stop (run.sizeLayout.withData other) =
      .ok run.stop (run.fullLayout.withData other) ∧
    Placing.writeSegments (run.fullLayout.withData other) =
      .ok () (run.segmentLayout.withData other) ∧
    Placing.writeSectionHeaders run.stop (run.segmentLayout.withData other) =
      .ok stats.fileSize (run.finalLayout.withData other) := by
  -- Writing programs leaves the container alone.
  have hcontainer := run.container_output
  have hshares : run.output.layout.SharesAllBut run.lineIndex other := by
    unfold Layout.SharesAllBut
    rw [hcontainer]
    exact hshares
  have hplaced : run.output.layout.IsPlaced run.lineIndex := by
    unfold Layout.IsPlaced
    rw [hcontainer]
    exact Placing.isPlaced_markPlaced run.markLine
  obtain ⟨hsize, hshares⟩ := Placing.setSize_withData hshares run.setSize
  have hcopy := Placing.copySections_withData hshares
    (Placing.isPlaced_setSize run.setSize hplaced) run.copySections
  have hsame : ∀ i ∈ run.fullLayout.container.header.segmentTable,
      other[i]? = run.fullLayout.container.data[i]? := by
    obtain ⟨-, programs, edits, hserving⟩ := run.exists_serving
    obtain ⟨-, hdata, hheader, -⟩ := run.arranged_fullLayout hserving
    rw [hdata, hheader]
    exact (run.opensAs h).segments
  have hsections : run.segmentLayout.container.sections ≠ [] := by
    rw [run.container_segmentLayout]
    exact run.sections_fullLayout_ne_nil
  exact ⟨hsize, hcopy, Placing.writeSegments_withData hsame run.writeSegments,
    Placing.writeSectionHeaders_withData hsections run.writeHeaders⟩

/-- The other file goes through the same stages. -/
theorem nonempty_withData : Nonempty (Stages other out stats) := by
  obtain ⟨line, hopened, hunits⟩ := run.exists_opened h
  obtain ⟨hfixed, hcopyInfo, hmark, hshares⟩ := run.front_withData h
  obtain ⟨hsize, hcopy, hsegments, hheaders⟩ := run.rest_withData h hshares
  obtain ⟨hstopped, hserves⟩ := LineOutput.result_serveAll_eq_ok_iff.mp run.serveAll
  have hserveAll : ((LineOutput.start (run.lineLayout.withData other) run.start).serveAll
      { line, info := run.placedInfo.header.offset, start := run.start }
      (walk run.file.info run.file.abbreviations)).result = .ok (run.output.withData other) :=
    LineOutput.result_serveAll_eq_ok_iff.mpr ⟨hstopped, hserves.withData other hunits⟩
  -- every layout of the second run holds the other bytes and is the old one in all else
  exact ⟨{
    file := run.file.withData other line
    opened := hopened
    unloaded := run.unloaded
    frontStop := run.frontStop
    frontLayout := run.frontLayout.withData other
    copyFixed := hfixed
    infoStop := run.infoStop
    infoLayout := run.infoLayout.withData other
    copyInfo := hcopyInfo
    placedInfo := run.placedInfo
    findInfo := run.findInfo
    start := run.start
    alignLine := run.alignLine
    lineLayout := run.lineLayout.withData other
    markLine := hmark
    output := run.output.withData other
    serveAll := hserveAll
    sizeLayout := run.sizeLayout.withData other
    setSize := hsize
    stop := run.stop
    fullLayout := run.fullLayout.withData other
    copySections := hcopy
    segmentLayout := run.segmentLayout.withData other
    writeSegments := hsegments
    finalLayout := run.finalLayout.withData other
    writeHeaders := hheaders
    out_eq := run.out_eq
    stats_eq := run.stats_eq }⟩

end Stages

/-- Bytes of the line section that belong to nothing that is read have no effect: a file that differs
in them only is shrunk to the same output, with the same statistics. -/
theorem shrink_ignores_unread_bytes {data other : Bytes} {file : DebugFile} {result : Bytes × Stats}
    (hopen : (DebugFile.ofBytes data).result = .ok file) (hlength : other.length = data.length)
    (hunread : ∀ i, other[i]? ≠ data[i]? → file.Unread i)
    (hnames : file.container.header.nameSection.toNat ≠ file.sections.line.index)
    (h : (shrink data).result = .ok result) : (shrink other).result = .ok result := by
  obtain ⟨run⟩ := nonempty_stages h
  obtain rfl := Except.ok.inj (hopen.symm.trans run.opened)
  have hdata : run.file.container.data = data := run.data_eq
  obtain ⟨run'⟩ := run.nonempty_withData
    ⟨by rw [hdata, hlength], by rwa [hdata], hnames⟩
  exact run'.result_eq

/-- A file all of whose compile units have the second line program. -/
def unsharedProgramFile : Bytes := loadedUnitsFile.set 112 50

/-- The same file with another length in front of its first line program, which is longer than the
section. -/
def overlongProgramFile : Bytes := unsharedProgramFile.set 140 255

/-- The theorem at a file whose unreferenced program is overwritten by one that runs past the
section. -/
theorem shrink_ignores_unread_bytes_overlongProgramFile :
    ∃ file result, (DebugFile.ofBytes unsharedProgramFile).result = .ok file ∧
      overlongProgramFile ≠ unsharedProgramFile ∧
      overlongProgramFile.length = unsharedProgramFile.length ∧
      (∀ i, overlongProgramFile[i]? ≠ unsharedProgramFile[i]? → file.Unread i) ∧
      file.container.header.nameSection.toNat ≠ file.sections.line.index ∧
      (shrink unsharedProgramFile).result = .ok result ∧
      (shrink overlongProgramFile).result = .ok result := by
  have hshrunk : (shrink unsharedProgramFile).result.toOption.isSome = true := by decide +kernel
  have hwell : (DebugFile.ofBytes unsharedProgramFile).result.toOption.any
      (fun file => decide (file.Unread 140 ∧
        file.container.header.nameSection.toNat ≠ file.sections.line.index)) = true := by
    decide +kernel
  have hdiffers : overlongProgramFile ≠ unsharedProgramFile := by decide +kernel
  have hlength : overlongProgramFile.length = unsharedProgramFile.length := List.length_set
  obtain ⟨result, hresult⟩ := exists_of_isSome_toOption hshrunk
  obtain ⟨file, hopen, hwell⟩ := exists_of_any_toOption hwell
  obtain ⟨hbyte, hnames⟩ := of_decide_eq_true hwell
  have hunread : ∀ i, overlongProgramFile[i]? ≠ unsharedProgramFile[i]? → file.Unread i := by
    intro i hi
    by_cases heq : 140 = i
    · exact heq ▸ hbyte
    · exact absurd (List.getElem?_set_ne heq) hi
  exact ⟨file, result, hopen, hdiffers, hlength, hunread, hnames, hresult,
    shrink_ignores_unread_bytes hopen hlength hunread hnames hresult⟩

end DwarfLines
