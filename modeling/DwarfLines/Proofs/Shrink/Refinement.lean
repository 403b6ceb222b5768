import DwarfLines.Proofs.Shrink.Reopening

/-!
# The output means the same

The references of the output stand where those of the file do, and each refers to the program of the
old one without its redundant rows. Units that shared a program share one in the output, and no
others do.
-/

namespace DwarfLines

open Outcome Elf

/-- Whether a reference stands where another does, and refers to the program of that one without its
redundant rows. -/
structure StatementList.ShrinksTo (line line' : Bytes) (old new : StatementList) : Prop where
  unitOffset_eq : new.unitOffset = old.unitOffset
  valueOffset_eq : new.valueOffset = old.valueOffset
  exists_programs : ∃ unit program unit' program', unitAt line old.lineOffset = .ok unit ∧
    Program.decode unit = .ok program ∧ unitAt line' new.lineOffset = .ok unit' ∧
    Program.decode unit' = .ok program' ∧ program'.rows = reduce program.rows ∧
    program'.header.params = program.header.params ∧
    program'.header.directories = program.header.directories ∧ program'.files = program.files

/-- Programs that start at the same place of a line section are the same. -/
theorem eq_of_length_lineSection_eq {front front' back back' : List (UInt32 × ShrunkProgram)}
    {p p' : UInt32 × ShrunkProgram} (h : front ++ p :: back = front' ++ p' :: back')
    (hpos : ∀ q ∈ front ++ p :: back, 0 < q.2.bytes.length)
    (hlength : (lineSection front).length = (lineSection front').length) : p = p' := by
  induction front generalizing front' with
  | nil =>
    cases front' with
    | nil => exact (List.cons.inj h).1
    | cons q front' =>
      -- Each program takes room, so none behind the first starts where the first does.
      obtain ⟨rfl, -⟩ := List.cons.inj h
      have := hpos p List.mem_cons_self
      rw [lineSection_cons, List.length_append] at hlength
      have hnone : (lineSection []).length = 0 := rfl
      omega
  | cons q front ih =>
    rw [List.cons_append, List.forall_mem_cons] at hpos
    rw [lineSection_cons, List.length_append] at hlength
    cases front' with
    | nil =>
      have hnone : (lineSection []).length = 0 := rfl
      omega
    | cons q' front' =>
      obtain ⟨rfl, htail⟩ := List.cons.inj h
      rw [lineSection_cons, List.length_append] at hlength
      exact ih htail hpos.2 (Nat.add_left_cancel hlength)

namespace Stages

variable {data out : Bytes} {stats : Stats} {run : Stages data out stats}
  {programs : List (UInt32 × ShrunkProgram)} {edits : List (Nat × UInt32)} {table : UInt32}

/-- Where a program went, as an offset in the new line section. -/
def newOffset (run : Stages data out stats) (lineOffset : UInt32) : UInt32 :=
  (run.output.moved.lookup lineOffset).getD 0

/-! ## References -/

theorem Shows.map_fst_edits (h : run.Shows programs edits table) :
    edits.map Prod.fst = run.references.map StatementList.valueOffset := by
  have hedited : List.Forall₂ (· = ·) (edits.map Prod.fst)
      (run.references.map StatementList.valueOffset) := by
    rw [List.forall₂_map_left_iff, List.forall₂_map_right_iff]
    exact h.records.edited.flip.imp fun _ _ hedit => hedit.1
  rwa [List.forall₂_eq_eq_eq] at hedited

theorem Shows.pairwise_edits (h : run.Shows programs edits table) :
    edits.Pairwise fun a b => (Image.editSpan a).Apart (Image.editSpan b) := by
  have hreferences : run.references.Pairwise fun a b => a.span.Apart b.span :=
    statementLists_pairwise _ _
  have hplaces : (run.references.map StatementList.valueOffset).Pairwise fun v w =>
      (Span.mk v (v + 4)).Apart ⟨w, w + 4⟩ := by
    rw [List.pairwise_map]
    exact hreferences
  rw [← h.map_fst_edits, List.pairwise_map] at hplaces
  exact hplaces

/-- The compile units have their bytes outside the references. -/
theorem Shows.getElem?_changedInfo (h : run.Shows programs edits table) {i : Nat}
    (hout : ∀ reference ∈ run.references, i ∉ reference.span) :
    (run.changedInfo edits)[i]? = run.file.info[i]? := by
  by_cases hi : i < run.file.info.length
  · refine Image.getElem?_writeWords_outside hi fun edit hedit hmem => ?_
    obtain ⟨reference, hreference, hvalue⟩ := h.exists_reference hedit
    rw [Image.editSpan, hvalue] at hmem
    exact hout reference hreference hmem
  · rw [List.getElem?_eq_none (by rw [h.length_changedInfo]; omega),
      List.getElem?_eq_none (by omega)]

/-- The output has the references of the file, with the offsets of where their programs went. -/
theorem Shows.statementLists_changedInfo (h : run.Shows programs edits table)
    (hcomplete : (walk run.file.info run.file.abbreviations).2 = none) :
    statementLists (run.changedInfo edits) run.file.abbreviations =
      (run.references.map (StatementList.retarget run.newOffset), none) := by
  refine statementLists_retarget hcomplete run.newOffset h.length_changedInfo
    (fun i hout => h.getElem?_changedInfo hout) ?_
  intro reference hreference j hj
  -- the words do not overlap, so each reference keeps the word written for it
  obtain ⟨edit, hedit, hvalue, hlookup⟩ := exists_of_forall₂_of_mem h.records.edited hreference
  have hword : run.newOffset reference.lineOffset = edit.2 := by rw [newOffset, hlookup]; rfl
  rw [hword, ← hvalue]
  exact Image.getElem?_writeWords_inside h.pairwise_edits hedit hj

/-! ## Programs -/

/-- Each program that is referred to was written. -/
theorem Shows.exists_shrunk (h : run.Shows programs edits table) {reference : StatementList}
    (hreference : reference ∈ run.references) :
    ∃ front shrunk back, programs = front ++ (reference.lineOffset, shrunk) :: back ∧
      (run.newOffset reference.lineOffset).toNat = (lineSection front).length ∧
      shrunk.Of run.file.line reference.lineOffset := by
  obtain ⟨relative, hlookup⟩ := h.records.lookup_of_mem hreference
  obtain ⟨front, shrunk, back, hprograms, hlength⟩ := (h.records.moved _ _).mp hlookup
  have hoffset : run.newOffset reference.lineOffset = relative := by rw [newOffset, hlookup]; rfl
  refine ⟨front, shrunk, back, hprograms, by rw [hoffset, hlength], ?_⟩
  exact h.records.shrunk (reference.lineOffset, shrunk) (by simp [hprograms])

/-- No program is too long for its length field, since the whole section fits 32 bits behind the
header. -/
theorem Shows.length_bytes_lt (h : run.Shows programs edits table) {p : UInt32 × ShrunkProgram}
    (hp : p ∈ programs) : p.2.bytes.length < 4 + wideFormatLength.toNat := by
  obtain ⟨front, back, rfl⟩ := List.append_of_mem hp
  have hstop := h.records.stop_eq
  have hlt := run.output.stop.toNat_lt
  have hstart : run.front.length ≤ run.start.toNat := run.arranged_lineLayout.1.front_le
  have hfixed := run.fixedStop_le
  have hheader := run.fresh.header_le
  have hwide : wideFormatLength.toNat = 4294967280 := rfl
  have hplaces : run.places.start = run.start := rfl
  rw [lineSection_append, List.length_append, lineSection_cons, List.length_append,
    hplaces] at hstop
  -- What 32 bits leave behind the file header is less than a length field can say.
  simp only [Part.size] at hheader
  omega

/-- Each program that was written is a unit, and decodes to the program that it was written from
without its redundant rows. -/
theorem Shows.decode_shrunk (h : run.Shows programs edits table) {p : UInt32 × ShrunkProgram}
    (hp : p ∈ programs) :
    IsUnit p.2.bytes ∧ ∃ program', Program.decode p.2.bytes = .ok program' ∧
      program'.rows = reduce p.2.program.rows ∧ program'.Restates p.2.program := by
  obtain ⟨-, hprogram, hrows, hbytes⟩ := h.records.shrunk p hp
  rw [← hrows]
  exact Program.decode_of_encode hprogram hbytes (h.length_bytes_lt hp)

theorem Shows.shrinksTo (h : run.Shows programs edits table) {reference : StatementList}
    (hreference : reference ∈ run.references) :
    reference.ShrinksTo run.file.line (lineSection programs)
      (reference.retarget run.newOffset) := by
  obtain ⟨front, shrunk, back, hprograms, hoffset, hof⟩ := h.exists_shrunk hreference
  obtain ⟨hunit, program', hdecode, hrows, hsame⟩ :=
    h.decode_shrunk (p := (reference.lineOffset, shrunk)) (by simp [hprograms])
  -- A unit says how long it is, so the programs behind it do not matter.
  refine ⟨rfl, rfl, shrunk.unit, shrunk.program, shrunk.bytes, program', hof.unit, hof.program, ?_,
    hdecode, hrows, hsame.params_eq, hsame.directories_eq, hsame.files_eq⟩
  have hsection : lineSection programs =
      lineSection front ++ (shrunk.bytes ++ lineSection back) := by
    rw [hprograms, lineSection_append]
    rfl
  rw [hsection]
  exact unitAt_append hunit _ hoffset

/-- Programs that were apart stay apart. -/
theorem Shows.newOffset_inj (h : run.Shows programs edits table) {a b : StatementList}
    (ha : a ∈ run.references) (hb : b ∈ run.references) :
    run.newOffset a.lineOffset = run.newOffset b.lineOffset ↔ a.lineOffset = b.lineOffset := by
  refine ⟨fun heq => ?_, congrArg run.newOffset⟩
  obtain ⟨front, shrunk, back, hprograms, hoffset, -⟩ := h.exists_shrunk ha
  obtain ⟨front', shrunk', back', hprograms', hoffset', -⟩ := h.exists_shrunk hb
  have hsame := eq_of_length_lineSection_eq (hprograms.symm.trans hprograms')
    (fun q hq => (h.decode_shrunk (hprograms ▸ hq)).1.length_pos)
    (by rw [← hoffset, ← hoffset', heq])
  exact (Prod.mk.inj hsame).1

end Stages

/-- If the parts of a file do not overlap, shrinking it keeps its meaning: the output is opened with
its debug sections where they were and has the same references, each to the program that it was to
without the redundant rows, and two references are to one program just if they were before. -/
theorem shrink_refines {data out : Bytes} {stats : Stats} {file : DebugFile}
    (h : (shrink data).result = .ok (out, stats)) (hfile : (DebugFile.ofBytes data).result = .ok file)
    (hlayout : file.WellLaidOut) :
    ∃ file', (DebugFile.ofBytes out).result = .ok file' ∧
      file'.sections.info.index = file.sections.info.index ∧
      file'.sections.abbreviations.index = file.sections.abbreviations.index ∧
      file'.sections.line.index = file.sections.line.index ∧
      ∃ old new, statementLists file.info file.abbreviations = (old, none) ∧
        statementLists file'.info file'.abbreviations = (new, none) ∧
        List.Forall₂ (StatementList.ShrinksTo file.line file'.line) old new ∧
        ∀ (i j : Nat) (a b a' b' : StatementList), old[i]? = some a → old[j]? = some b →
          new[i]? = some a' → new[j]? = some b' →
          (a'.lineOffset = b'.lineOffset ↔ a.lineOffset = b.lineOffset) := by
  obtain ⟨run⟩ := nonempty_stages h
  obtain rfl := Except.ok.inj (run.opened.symm.trans hfile)
  obtain ⟨hcomplete, programs, edits, table, hshows⟩ := run.exists_shows
  obtain ⟨file', hfile', hinfo, habbreviations, hline, hinfo', habbreviations', hline'⟩ :=
    hshows.exists_file hlayout
  refine ⟨file', hfile', hinfo, habbreviations, hline, run.references,
    run.references.map (StatementList.retarget run.newOffset), Prod.ext rfl hcomplete, ?_, ?_, ?_⟩
  · rw [hinfo', habbreviations']
    exact hshows.statementLists_changedInfo hcomplete
  · rw [hline', List.forall₂_map_right_iff, List.forall₂_same]
    exact fun reference hreference => hshows.shrinksTo hreference
  -- equal new offsets stand for the same program, and each program was written once
  · intro i j a b a' b' ha hb ha' hb'
    rw [List.getElem?_map, ha] at ha'
    rw [List.getElem?_map, hb] at hb'
    cases ha'
    cases hb'
    exact hshows.newOffset_inj (List.mem_of_getElem? ha) (List.mem_of_getElem? hb)

/-- The parts of the file do not overlap, and it is shrunk. -/
theorem exists_shrink_loadedUnitsFile :
    ∃ out stats file, (shrink loadedUnitsFile).result = .ok (out, stats) ∧
      (DebugFile.ofBytes loadedUnitsFile).result = .ok file ∧ file.WellLaidOut := by
  have hsome : (shrink loadedUnitsFile).result.toOption.isSome = true := by decide +kernel
  have hwell : (DebugFile.ofBytes loadedUnitsFile).result.toOption.any
      (fun file => decide file.WellLaidOut) = true := by decide +kernel
  obtain ⟨⟨out, stats⟩, hresult⟩ := exists_of_isSome_toOption hsome
  obtain ⟨file, hopen, hwell⟩ := exists_of_any_toOption hwell
  exact ⟨out, stats, file, hresult, hopen, of_decide_eq_true hwell⟩

theorem shrink_refines_loadedUnitsFile :
    ∃ out stats file, (shrink loadedUnitsFile).result = .ok (out, stats) ∧
      (DebugFile.ofBytes loadedUnitsFile).result = .ok file ∧ file.WellLaidOut ∧
      ∃ file', (DebugFile.ofBytes out).result = .ok file' ∧
        file'.sections.info.index = file.sections.info.index ∧
        file'.sections.abbreviations.index = file.sections.abbreviations.index ∧
        file'.sections.line.index = file.sections.line.index ∧
        ∃ old new, statementLists file.info file.abbreviations = (old, none) ∧
          statementLists file'.info file'.abbreviations = (new, none) ∧
          List.Forall₂ (StatementList.ShrinksTo file.line file'.line) old new ∧
          ∀ (i j : Nat) (a b a' b' : StatementList), old[i]? = some a → old[j]? = some b →
            new[i]? = some a' → new[j]? = some b' →
            (a'.lineOffset = b'.lineOffset ↔ a.lineOffset = b.lineOffset) := by
  obtain ⟨out, stats, file, hresult, hopen, hlayout⟩ := exists_shrink_loadedUnitsFile
  exact ⟨out, stats, file, hresult, hopen, hlayout, shrink_refines hresult hopen hlayout⟩

end DwarfLines
