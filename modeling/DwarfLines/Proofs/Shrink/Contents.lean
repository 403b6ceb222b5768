import DwarfLines.Proofs.Shrink.Idempotence

/-!
# What the output holds

The output has the segments and the sections of the file. A section that was moved has the name and
the header that it had, but for its offset, and holds what it held. In the compile units only the
references are changed, and the line section holds the programs that were written, each right behind
the one before.
-/

namespace DwarfLines

open Outcome Elf

/-- The offsets of the line programs that a file refers to, each once, in the order of first
reference. -/
def DebugFile.programOffsets (file : DebugFile) : List UInt32 :=
  ((statementLists file.info file.abbreviations).1.map StatementList.lineOffset).eraseDups

/-- Whether a file is another one with its sections in other places, other references to line
programs, and another line section. -/
structure DebugFile.Relocates (new old : DebugFile) : Prop where
  segments_eq : new.container.segments = old.container.segments
  count_eq : new.container.sections.length = old.container.sections.length
  exists_section : ∀ (k : Nat) (s : Section), old.container.sections[k]? = some s →
    ∃ s', new.container.sections[k]? = some s' ∧ s'.name = s.name ∧
      s'.header = { s.header with
        offset := s'.header.offset
        size := if k = old.sections.line.index then s'.header.size else s.header.size } ∧
      (k ≠ old.sections.info.index → k ≠ old.sections.line.index →
        new.container.contents s' = old.container.contents s)
  infoIndex_eq : new.sections.info.index = old.sections.info.index
  lineIndex_eq : new.sections.line.index = old.sections.line.index
  length_info : new.info.length = old.info.length
  info_eq : ∀ i, (∀ reference ∈ (statementLists old.info old.abbreviations).1,
    i ∉ reference.span) → new.info[i]? = old.info[i]?

namespace Stages

variable {data out : Bytes} {stats : Stats} {run : Stages data out stats}
  {programs : List (UInt32 × ShrunkProgram)} {edits : List (Nat × UInt32)} {table : UInt32}

/-- A section of the opened output has the name of the file's, its header but for what the layout
sets, and the bytes that it is to hold. -/
theorem Shows.exists_section_of_ofBytes (h : run.Shows programs edits table)
    (hlayout : run.file.WellLaidOut) {container' : Container}
    (hopen : Container.ofBytes out = .ok container') {k : Nat} {s : Section}
    (hs : run.container.sections[k]? = some s) :
    ∃ s', container'.sections[k]? = some s' ∧ s'.name = s.name ∧
      s'.header = { s.header with offset := s'.header.offset, size := run.finalSize k s } ∧
      container'.contents s' = run.outputHeld programs edits k := by
  have hfile := (DebugFile.result_ofBytes_eq_ok_iff.mp run.opened).1
  obtain ⟨again, hagain, -, -, -, hheaders⟩ := (h.rewritten hlayout).exists_ofBytes hfile
  -- opening is a function, so the two descriptions of the output are of one container
  obtain rfl := Except.ok.inj (hopen.symm.trans hagain)
  obtain ⟨again, hagain, hnames⟩ :=
    (h.rewritten hlayout).exists_ofBytes_names hfile (h.keepsNames hlayout)
  obtain rfl := Except.ok.inj (hopen.symm.trans hagain)
  obtain ⟨s', hs', hname, -, hcontents⟩ := hnames k s hs
  have hk : k < run.finalLayout.container.sections.length := by
    rw [h.count]
    exact (List.getElem?_eq_some_iff.mp hs).1
  have hnew := List.getElem?_eq_getElem hk
  obtain ⟨old, hold, hrelaid⟩ := h.relaid k _ hnew
  obtain rfl := Option.some.inj (hs.symm.trans hold)
  obtain ⟨found, hfound, hheader, -⟩ := hheaders k _ hnew
  obtain rfl := Option.some.inj (hs'.symm.trans hfound)
  refine ⟨s', hs', hname, ?_, hcontents⟩
  rw [hheader]
  exact hrelaid.header

theorem Shows.relocates (h : run.Shows programs edits table) (hlayout : run.file.WellLaidOut)
    {again : DebugFile} (hagain : run.Reopens programs edits table again) :
    again.Relocates run.file := by
  have hopen := (DebugFile.result_ofBytes_eq_ok_iff.mp hagain.opened).1
  have hfile := (DebugFile.result_ofBytes_eq_ok_iff.mp run.opened).1
  refine ⟨(h.rewritten hlayout).segments_eq hfile hopen, hagain.count, fun k s hs => ?_,
    hagain.infoIndex_eq, hagain.lineIndex_eq, ?_, fun i hout => ?_⟩
  · obtain ⟨s', hs', hname, hheader, hcontents⟩ := h.exists_section_of_ofBytes hlayout hopen hs
    refine ⟨s', hs', hname, ?_, fun hinfo hline => ?_⟩
    -- the size changes for the line section only, the contents for it and `.debug_info`
    · split
      · rw [hheader]
      · rename_i hline
        have hsize : run.finalSize k s = s.header.size := if_neg hline
        rw [hheader, hsize]
    · rw [hcontents, outputHeld_of_ne hinfo hline]
      exact Container.held_eq hs
  · rw [hagain.info_eq, h.length_changedInfo]
  · rw [hagain.info_eq]
    exact h.getElem?_changedInfo hout

end Stages

/-- If the parts of a file do not overlap, the output is the file with its sections in other places:
all but the references to line programs and the line section is as it was, and the line section is
the programs that are referred to without their redundant rows, in the order of first reference. -/
theorem shrink_relocates {data out : Bytes} {stats : Stats} {file : DebugFile}
    (h : (shrink data).result = .ok (out, stats)) (hfile : (DebugFile.ofBytes data).result = .ok file)
    (hlayout : file.WellLaidOut) :
    ∃ file', (DebugFile.ofBytes out).result = .ok file' ∧ file'.Relocates file ∧
      ∃ programs : List (UInt32 × ShrunkProgram),
        programs.map Prod.fst = file.programOffsets ∧
        (∀ p ∈ programs, p.2.Of file.line p.1) ∧ file'.line = lineSection programs := by
  obtain ⟨run⟩ := nonempty_stages h
  obtain rfl := Except.ok.inj (run.opened.symm.trans hfile)
  obtain ⟨-, programs, edits, table, hshows⟩ := run.exists_shows
  obtain ⟨again, hagain⟩ := hshows.exists_reopens hlayout
  exact ⟨again, hagain.opened, hshows.relocates hlayout hagain, programs, hshows.records.keys,
    hshows.records.shrunk, hagain.line_eq⟩

theorem shrink_relocates_loadedUnitsFile :
    ∃ out stats file, (shrink loadedUnitsFile).result = .ok (out, stats) ∧
      (DebugFile.ofBytes loadedUnitsFile).result = .ok file ∧ file.WellLaidOut ∧
      ∃ file', (DebugFile.ofBytes out).result = .ok file' ∧ file'.Relocates file ∧
        ∃ programs : List (UInt32 × ShrunkProgram),
          programs.map Prod.fst = file.programOffsets ∧
          (∀ p ∈ programs, p.2.Of file.line p.1) ∧ file'.line = lineSection programs := by
  obtain ⟨out, stats, file, hresult, hopen, hlayout⟩ := exists_shrink_loadedUnitsFile
  exact ⟨out, stats, file, hresult, hopen, hlayout, shrink_relocates hresult hopen hlayout⟩

end DwarfLines
