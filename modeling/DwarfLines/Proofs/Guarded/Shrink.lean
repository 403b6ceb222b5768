import DwarfLines.Proofs.Guarded.Layout
import DwarfLines.Proofs.Guarded.References
import DwarfLines.Proofs.Shrink.Serving

/-!
# Shrinking within bounds

A line section in the making is extended for one reference after the other. There are no more
references than the compile units have bytes, and each adds no more rows than the line section has
bytes; both are counted in 32 bits, so that the sums fit 64. The end of the section never goes back, and
a program is only written where offsets can name its end.
-/

namespace DwarfLines

open Guarded

/-! ## Serving references -/

/-- A program that is added ends where offsets can name it, and adds no more rows than the line
section has bytes. -/
theorem ShrunkProgram.Of.sizes {line : Bytes} {lineOffset : UInt32} {shrunk : ShrunkProgram}
    (h : shrunk.Of line lineOffset) : shrunk.bytes.length < 2 ^ 33 ∧
      shrunk.program.rows.length ≤ line.length ∧ shrunk.rows.length ≤ line.length := by
  have hunit := length_le_of_unitAt h.unit
  have hrows := (Program.sizes h.program).1
  have hreduce := length_reduceAfter_le [] shrunk.program.rows
  rw [List.length_nil, Nat.zero_add, ← reduce, ← h.rows] at hreduce
  refine ⟨?_, by omega, by omega⟩
  obtain ⟨-, -, headerLength, unitLength, -, hlength, hbytes⟩ := encodeUnit_eq_ok_iff.mp h.bytes
  have hlt := unitLength.toNat_lt
  have hparams : shrunk.program.header.params.bytes.length = 5 := rfl
  rw [hlength, List.length_append] at hlt
  rw [hbytes]
  simp only [List.length_append, length_bytesOfWord16, length_bytesOfWord32, hparams]
  omega

namespace LineOutput

/-- Adds a program at the end of the section, and returns its offset in the section. -/
def addWithin (places : Places) (output : LineOutput) (lineOffset : UInt32)
    (shrunk : ShrunkProgram) : Guarded Failure (UInt32 × LineOutput) := do
  let relative ← subWord output.stop places.start
  let image ← output.layout.image.writeWithin output.stop.toNat shrunk.bytes
  let some stop := Elf.advance? output.stop shrunk.bytes.length | throw (.ofCause .offsetOverflow)
  let units ← Guarded.add 64 output.units 1
  let rowsDecoded ← Guarded.add 64 output.rowsDecoded shrunk.program.rows.length
  let rowsKept ← Guarded.add 64 output.rowsKept shrunk.rows.length
  return (relative, {
    layout := { output.layout with image }
    stop
    moved := (lineOffset, relative) :: output.moved
    units
    rowsDecoded
    rowsKept })

/-- Serves a reference: its program is added unless it is there already, and the reference is
changed. -/
def serveWithin (places : Places) (output : LineOutput) (reference : StatementList) :
    Guarded Failure LineOutput := do
  let (relative, output) ← match output.moved.lookup reference.lineOffset with
    | some relative => pure (relative, output)
    | none => do
      let shrunk ← shrinkProgramWithin places.line reference.unitOffset reference.lineOffset
      output.addWithin places reference.lineOffset shrunk
  let place ← Guarded.add 64 places.info.toNat reference.valueOffset
  let image ← output.layout.image.writeWithin place (bytesOfWord32 relative)
  return { output with layout := { output.layout with image } }

/-- The outcome of serving the unit that has a reference. -/
def serveReference (places : Places) (output : LineOutput) (reference : StatementList) :
    Except Failure LineOutput := do
  let (relative, output) ← match output.moved.lookup reference.lineOffset with
    | some relative => .ok (relative, output)
    | none => do
      let shrunk ← (shrinkProgram places.line reference.unitOffset reference.lineOffset).result
      (output.add places reference.lineOffset shrunk).result
  return output.redirected places reference.valueOffset relative

/-- Serving a visit serves its reference, if it has one. -/
theorem result_serve (places : Places) (output : LineOutput) (visit : UnitVisit) :
    (serve places output visit).result = match visit.statementList? with
      | some reference => serveReference places output reference
      | none => .ok output := by
  unfold serve UnitVisit.statementList? serveReference
  cases visit.root with
  | absent | withoutStatementList => rfl
  | statementList valueOffset lineOffset =>
    dsimp only
    cases output.moved.lookup lineOffset with
    | some relative => rfl
    | none =>
      simp only [Traced.result_bind]
      rfl

/-- Serving the units of a walk is serving what an iteration over their references yields. -/
theorem result_serveAll (places : Places) (output : LineOutput)
    (found : List UnitVisit × Option DebugError) :
    (output.serveAll places found).result = (ReferenceIterator.itemsOf found).foldlM
      (ReferenceIterator.forItems (serveReference places)) output := by
  obtain ⟨visits, stopped⟩ := found
  rw [serveAll, Traced.result_bind]
  -- the walk is a list of visits; the error it stopped with, if any, is served last
  induction visits generalizing output with
  | nil =>
    cases stopped with
    | none => rfl
    | some e => rfl
  | cons visit visits ih =>
    rw [List.foldlM_cons, Traced.result_bind, result_serve, bind_assoc, ReferenceIterator.itemsOf]
    cases hvisit : visit.statementList? with
    | none =>
      rw [List.filterMap_cons_none hvisit]
      exact ih output
    | some reference =>
      rw [List.filterMap_cons_some hvisit, List.map_cons, List.cons_append, List.foldlM_cons]
      exact congrArg (serveReference places output reference >>= ·) (funext ih)

/-- What is known of an output when `n` references were served. -/
structure Bounded (data : Bytes) (places : Places) (n : Nat) (output : LineOutput) : Prop where
  layout : output.layout.Bounded data
  start_le : places.start ≤ output.stop
  units_le : output.units ≤ n
  rowsDecoded_le : output.rowsDecoded ≤ n * places.line.length
  rowsKept_le : output.rowsKept ≤ n * places.line.length

namespace Bounded

variable {data : Bytes} {places : Places} {n : Nat} {output : LineOutput}

/-- The output starts within bounds. -/
theorem start {layout : Elf.Layout} (h : layout.Bounded data) (places : Places) :
    Bounded data places 0 (.start layout places.start) :=
  ⟨h, UInt32.le_refl _, Nat.le_refl _, Nat.zero_le _, Nat.zero_le _⟩

/-- The bound on the count of programs may be raised by one. -/
theorem succ (h : Bounded data places n output) : Bounded data places (n + 1) output where
  __ := h
  units_le := Nat.le_succ_of_le h.units_le
  rowsDecoded_le := Nat.le_trans h.rowsDecoded_le (Nat.mul_le_mul_right _ (Nat.le_succ n))
  rowsKept_le := Nat.le_trans h.rowsKept_le (Nat.mul_le_mul_right _ (Nat.le_succ n))

/-- Adding a program stays within bounds, below 2 ^ 32 programs. -/
theorem agrees_addWithin (h : Bounded data places n output) (hn : n < 2 ^ 32)
    (hline : places.line.length < 2 ^ 32) {lineOffset : UInt32} {shrunk : ShrunkProgram}
    (hshrunk : shrunk.Of places.line lineOffset) :
    Agrees (fun p q => p = q ∧ Bounded data places (n + 1) p.2)
      (output.addWithin places lineOffset shrunk) (output.add places lineOffset shrunk).result := by
  -- the unit is shorter than 2 ^ 32 bytes and there are fewer than 2 ^ 32 of them, which bounds all
  -- three counts
  obtain ⟨hbytes, hdecoded, hkept⟩ := hshrunk.sizes
  have hend := output.stop.toNat_lt
  have hrows : (n + 1) * places.line.length ≤ 2 ^ 32 * (2 ^ 32 - 1) :=
    Nat.mul_le_mul hn (Nat.le_sub_one_of_lt hline)
  rw [Nat.succ_mul] at hrows
  have hdecoded' := h.rowsDecoded_le
  have hkept' := h.rowsKept_le
  have hunits := h.units_le
  unfold addWithin add
  simp only [Traced.result_bind, Traced.result_tell, Traced.result_pure]
  rw [subWord_eq h.start_le, pure_bind, Elf.Image.writeWithin_eq (by omega), pure_bind]
  cases hstop : Elf.advance? output.stop shrunk.bytes.length with
  | none => exact .throw _
  | some stop =>
    have hlater := Elf.advance?_eq_some_iff.mp hstop
    have hstart := UInt32.le_iff_toNat_le.mp h.start_le
    dsimp only
    rw [add_eq (by omega), pure_bind, add_eq (by omega), pure_bind, add_eq (by omega), pure_bind]
    refine .pure ⟨rfl, h.layout.withImage _, ?_, Nat.succ_le_succ hunits, ?_, ?_⟩
    · rw [UInt32.le_iff_toNat_le]
      dsimp only
      omega
    all_goals
      rw [Nat.succ_mul]
      dsimp only
      omega

/-- A reference is served within bounds. -/
theorem agrees_serveWithin (h : Bounded data places n output) (hn : n < 2 ^ 32)
    (hline : places.line.length < 2 ^ 32) {reference : StatementList}
    (hvalue : reference.valueOffset < 2 ^ 32) :
    Agrees (fun s t => s = t ∧ Bounded data places (n + 1) s)
      (output.serveWithin places reference) (serveReference places output reference) := by
  have hinfo := places.info.toNat_lt
  -- the last step is the same whether the program is shared or new: the reference is rewritten
  have hplace (relative : UInt32) {between : LineOutput}
      (hbetween : Bounded data places (n + 1) between) :
      Agrees (fun s t => s = t ∧ Bounded data places (n + 1) s) (do
        let place ← Guarded.add 64 places.info.toNat reference.valueOffset
        let image ← between.layout.image.writeWithin place (bytesOfWord32 relative)
        return { between with layout := { between.layout with image } } :
          Guarded Failure LineOutput)
        (.ok (between.redirected places reference.valueOffset relative)) := by
    rw [add_eq (by omega), pure_bind,
      Elf.Image.writeWithin_eq (by rw [length_bytesOfWord32]; omega), pure_bind]
    exact .pure ⟨rfl, hbetween.layout.withImage _, hbetween.start_le, hbetween.units_le,
      hbetween.rowsDecoded_le, hbetween.rowsKept_le⟩
  unfold serveWithin serveReference
  cases output.moved.lookup reference.lineOffset with
  | some relative => exact hplace relative h.succ
  | none =>
    refine (agrees_shrinkProgram hline _ _).bind ?_
    rintro shrunk _ hshrunk rfl
    refine (h.agrees_addWithin hn hline (result_shrinkProgram_eq_ok_iff.mp hshrunk)).bind ?_
    rintro ⟨relative, between⟩ _ - ⟨rfl, hbetween⟩
    exact hplace relative hbetween

end Bounded

end LineOutput

/-! ## Shrinking files -/

/-- A step of laying out a file as a part of a run. -/
def Elf.Laying.run {α : Type} (step : Elf.Laying α) (layout : Elf.Layout) :
    Guarded Failure (α × Elf.Layout) :=
  withCause .elf (step layout)

/-- Shrinks the line section of a file. -/
def shrinkWithin (data : Bytes) : Guarded Failure (Bytes × Stats) := do
  let file ← DebugFile.readWithin data
  let { container, sections, .. } := file
  if sections.line.offset < container.fixedStop then throw (.ofCause .loadedLineSection)
  let (offset, layout) ← Elf.Laying.copyFixed.run (.start container)
  let (offset, layout) ← (Elf.Laying.copySection offset sections.info.index).run layout
  let placedInfo ← withCause .elf (ofExcept (layout.container.section? sections.info.index))
  let some start := Elf.alignUp? offset sections.line.alignment | throw (.ofCause .offsetOverflow)
  let ((), layout) ← (Elf.Laying.markPlaced sections.line.index start).run layout
  let places : LineOutput.Places := { line := file.line, info := placedInfo.header.offset, start }
  let output ← (ReferenceIterator.start file.info file.abbreviations).forEach
    (LineOutput.serveWithin places) (.start layout start)
  let size ← subWord output.stop start
  let ((), layout) ← (Elf.Laying.setSize sections.line.index size).run output.layout
  let (stop, layout) ← (Elf.Laying.copySections output.stop).run layout
  let ((), layout) ← Elf.Laying.writeSegments.run layout
  let (fileSize, layout) ← (Elf.Laying.writeSectionHeaders stop).run layout
  return (layout.image.bytes, {
    units := output.units
    rowsDecoded := output.rowsDecoded
    rowsKept := output.rowsKept
    oldLineSize := sections.line.size
    newLineSize := size
    fileSize })

/-- A step of the layout that stays within bounds does so with its events recorded. -/
theorem Elf.Laying.Places.agrees_traced {α : Type} {data : Bytes} {P : α → Prop} {x : Elf.Laying α}
    {step : Elf.Placing α} (h : Places data P x step)
    {events : Elf.Layout → Elf.Layout → List Event} {layout : Elf.Layout}
    (hlayout : layout.Bounded data) :
    Agrees (fun p q => p = q ∧ P p.1 ∧ p.2.Bounded data) (x.run layout)
      (step.traced events layout).result := by
  have hresult : (step.traced events layout).result =
      (outcome step layout).mapError fun e => .ofCause (.elf e) := by
    unfold Elf.Placing.traced outcome
    cases step layout <;> rfl
  rw [hresult]
  exact (h layout hlayout).adapt _

/-- A reference stands within the compile units. -/
theorem valueOffset_le_of_mem_itemsOf {info abbreviations : Bytes} {reference : StatementList}
    (h : .ok reference ∈ ReferenceIterator.itemsOf (walk info abbreviations)) :
    reference.valueOffset + 4 ≤ info.length := by
  rw [ReferenceIterator.itemsOf, List.mem_append] at h
  simp only [List.mem_map, List.mem_filterMap, Except.ok.injEq, exists_eq_right, reduceCtorEq,
    and_false, exists_false, or_false] at h
  obtain ⟨visit, hvisit, hreference⟩ := h
  obtain ⟨-, hstop, hinside⟩ := walkFrom_bounds (Prod.eta _).symm visit hvisit
  have hspan := (hinside reference hreference).2
  rw [StatementList.span] at hspan
  dsimp only at hspan
  omega

/-- The compile units are served within bounds. -/
theorem LineOutput.agrees_serveAll {data info abbreviations : Bytes} (places : LineOutput.Places)
    {layout : Elf.Layout} (hlayout : layout.Bounded data) (hinfo : info.length < 2 ^ 32)
    (habbreviations : abbreviations.length < 2 ^ 32) (hline : places.line.length < 2 ^ 32) :
    Agrees (fun s t => s = t ∧ ∃ n, Bounded data places n s)
      ((ReferenceIterator.start info abbreviations).forEach (serveWithin places)
        (.start layout places.start))
      ((LineOutput.start layout places.start).serveAll places (walk info abbreviations)).result := by
  have hserves := ReferenceIterator.agrees_forEach (g := serveReference places)
    (R := fun n s t => s = t ∧ Bounded data places n s) (s := .start layout places.start)
    (ReferenceIterator.sound_start info abbreviations)
    (Nat.lt_trans hinfo (by decide)) (Nat.lt_trans habbreviations (by decide))
    (by
      rintro n s _ reference hn hmem ⟨rfl, hs⟩
      have hvalue : reference.valueOffset + 4 ≤ info.length := valueOffset_le_of_mem_itemsOf hmem
      exact hs.agrees_serveWithin (Nat.lt_trans hn hinfo) hline (by omega))
    ⟨rfl, .start hlayout places⟩
  rw [result_serveAll]
  refine hserves.mono ?_
  rintro s _ - ⟨n, -, rfl, hs⟩
  exact ⟨rfl, n, hs⟩

/-- Any file is shrunk within bounds. -/
theorem agrees_shrinkWithin (data : Bytes) :
    Agrees Eq (shrinkWithin data) (shrink data).result := by
  unfold shrinkWithin shrink
  simp only [Traced.result_bind]
  refine (DebugFile.agrees_readWithin data).bind ?_
  rintro file _ hfile rfl
  obtain ⟨hinfo, habbreviations, hline⟩ := DebugFile.lengths_lt hfile
  obtain ⟨hcontainer, -⟩ := DebugFile.result_ofBytes_eq_ok_iff.mp hfile
  -- one stage after the other, each handing on that the layout is within bounds
  by_cases hloaded : file.sections.line.offset < file.container.fixedStop
  · rw [if_pos hloaded, if_pos hloaded]
    exact .throw _
  rw [if_neg hloaded, if_neg hloaded]
  simp only [Traced.result_bind, Traced.result_tell, Traced.result_pure]
  refine (Elf.Laying.places_copyFixed.agrees_traced (.start hcontainer)).bind ?_
  rintro ⟨frontStop, frontLayout⟩ _ - ⟨rfl, -, hfront⟩
  refine ((Elf.Laying.places_copySection _ _).agrees_traced hfront).bind ?_
  rintro ⟨infoStop, infoLayout⟩ _ - ⟨rfl, -, hinfoLayout⟩
  refine (Agrees.ofExcept _).ofElf.bind ?_
  rintro placedInfo _ - rfl
  cases Elf.alignUp? infoStop file.sections.line.alignment with
  | none => exact .throw _
  | some start =>
    show Agrees Eq ((Elf.Laying.markPlaced file.sections.line.index start).run infoLayout >>= _)
      (((Elf.Placing.markPlaced file.sections.line.index start).silent infoLayout).result >>= _)
    refine ((Elf.Laying.places_markPlaced _ _).agrees_traced hinfoLayout).bind ?_
    rintro ⟨⟨⟩, lineLayout⟩ _ - ⟨rfl, -, hlineLayout⟩
    refine (LineOutput.agrees_serveAll ⟨file.line, placedInfo.header.offset, start⟩ hlineLayout
      hinfo habbreviations hline).bind ?_
    rintro output _ - ⟨rfl, n, houtput⟩
    rw [subWord_eq houtput.start_le, pure_bind]
    refine ((Elf.Laying.places_setSize _ _).agrees_traced houtput.layout).bind ?_
    rintro ⟨⟨⟩, sizeLayout⟩ _ - ⟨rfl, -, hsizeLayout⟩
    refine ((Elf.Laying.places_copySections _).agrees_traced hsizeLayout).bind ?_
    rintro ⟨stop, fullLayout⟩ _ - ⟨rfl, -, hfullLayout⟩
    refine (Elf.Laying.places_writeSegments.agrees_traced hfullLayout).bind ?_
    rintro ⟨⟨⟩, segmentLayout⟩ _ - ⟨rfl, -, hsegmentLayout⟩
    refine ((Elf.Laying.places_writeSectionHeaders _).agrees_traced hsegmentLayout).bind ?_
    rintro ⟨fileSize, finalLayout⟩ _ - ⟨rfl, -, -⟩
    exact .pure rfl

end DwarfLines
