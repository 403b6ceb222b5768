import DwarfLines.Proofs.Elf.Retracing

/-!
# Steps that are taken again

Each step of laying out a file is taken again when its output is laid out, at the same offsets and
with the same result, and leads to layouts that are again related. Where a section is moved is told by
the output, which has to foresee it: what it shows of the sections that were placed so far it shows of
those that were placed before them, too.
-/

namespace DwarfLines.Elf

open Outcome

namespace Placing

open Layout

variable {again : Container} {line : Nat} {first second after : Layout}

/-- A section that is kept is kept again. -/
theorem retraces_keepSection (hfresh : again.Fresh)
    (hline : ∀ t, again.sections[line]? = some t → again.fixedStop ≤ t.header.offset)
    (h : first.Retraces again line second) {dest stop : UInt32} {index : Nat}
    (hstep : keepSection dest index first = .ok stop after) :
    ∃ after', keepSection dest index second = .ok stop after' ∧
      after.Retraces again line after' := by
  obtain ⟨s, hs, hstep⟩ := keepSection_eq_ok_iff.mp hstep
  obtain ⟨t, ht, ht'⟩ := h.exists_section hs
  have hbecomes := h.becomes index s t hs ht
  have hfixed : again.fixedStop ≤ t.header.offset ↔ again.fixedStop ≤ s.header.offset := by
    rw [← Section.pinned_eq_none_iff, ← Section.pinned_eq_none_iff, hbecomes.pinned_eq]
  have hsame : ((t.placedAs s).placed || !(t.placedAs s).header.hasFileData ||
      decide (second.container.fixedStop ≤ (t.placedAs s).header.offset)) =
        (s.placed || !s.header.hasFileData ||
          decide (first.container.fixedStop ≤ s.header.offset)) := by
    rw [Section.placed_placedAs, Section.header_placedAs, hbecomes.hasFileData_eq, h.fixedStop_eq,
      h.fixedStop_second, decide_eq_decide.mpr hfixed]
  -- So both files agree on whether the section is kept.
  split at hstep
  · rename_i hskip
    obtain ⟨rfl, rfl⟩ := hstep
    refine ⟨second, keepSection_eq_ok_iff.mpr ⟨_, ht', ?_⟩, h⟩
    rw [hsame, if_pos hskip]
    exact ⟨rfl, rfl⟩
  · rename_i hkeep
    obtain ⟨last, hlast, rfl, rfl⟩ := hstep
    obtain ⟨⟨hunplaced, hdata⟩, hoffset⟩ : (s.placed = false ∧ s.header.hasFileData = true) ∧
        s.header.offset < first.container.fixedStop := by simpa using hkeep
    rw [h.fixedStop_eq] at hoffset
    obtain ⟨-, hplace⟩ := Section.pinned_eq_some_iff.mp
      (hbecomes.pinned_eq.trans (Section.pinned_eq_some_iff.mpr ⟨hoffset, rfl⟩))
    -- The generated section is behind the fixed part of the output, so it is another one.
    have hne : index ≠ line := by
      rintro rfl
      exact UInt32.not_lt.mpr (hline t ht) (hplace ▸ hoffset)
    obtain ⟨hsource, hsource', -, hlength, hstop⟩ :=
      h.sources_eq hfresh hne hs ht hunplaced hdata
    rw [hplace, ← hsource] at hsource'
    have hnew : Section.Becomes again.fixedStop { s with placed := true } t :=
      ⟨hbecomes.type_eq, hbecomes.alignment_eq, hbecomes.pinned_eq⟩
    have hkept := h.copy hs ht hlength hstop rfl hnew
    refine ⟨second.keep index (t.placedAs s), keepSection_eq_ok_iff.mpr ⟨_, ht', ?_⟩, ?_⟩
    · rw [hsame, if_neg hkeep]
      exact ⟨last, hlast.trans (congrArg Span.stop hsource').symm, rfl, rfl⟩
    · rw [keep, ← congrArg Span.start hsource']
      exact hkept

/-- The fixed part of the file is the fixed part of the output. -/
theorem retraces_copyFixed {container : Container} (hfresh : container.Fresh) (hfresh' : again.Fresh)
    (hline : ∀ t, again.sections[line]? = some t → again.fixedStop ≤ t.header.offset)
    (h : (start container).Retraces again line (start again)) {stop : UInt32}
    (hstep : copyFixed (.start container) = .ok stop after) :
    ∃ after', copyFixed (.start again) = .ok stop after' ∧ after.Retraces again line after' := by
  unfold copyFixed at hstep ⊢
  simp only [state_bind_eq_ok_iff, state_get_eq_ok_iff, state_modify_eq_ok_iff] at hstep
  obtain ⟨_, _, ⟨rfl, rfl⟩, _, _, rfl, hstep⟩ := hstep
  have hfixedStop : container.fixedStop = again.fixedStop := h.fixedStop_eq
  have hcount : container.sections.length = again.sections.length := h.count
  rw [start, hcount, hfixedStop] at hstep
  have hstop : (Span.mk 0 again.fixedStop.toNat).stop ≤ again.data.length := hfresh'.fixed_le
  have hlength : (container.data.take again.fixedStop.toNat).length =
      (Span.mk 0 again.fixedStop.toNat).length :=
    List.length_take_of_le (hfixedStop ▸ hfresh.fixed_le)
  have hfront := h.withImages (h.image.writeAt_slice hstop hlength)
  -- both runs take the same steps, since the image of the second already is what the first wrote
  obtain ⟨after', hsteps, hafter⟩ := state_foldlM_lockstep (fun _ => True)
    (fun before before' => before.Retraces again line before') hstep trivial hfront
    (fun _ _ _ _ _ _ _ => trivial) fun index dest before stop after before' hstep _ hbefore =>
      retraces_keepSection hfresh' hline hbefore hstep
  refine ⟨after', ?_, hafter⟩
  simp only [state_bind_eq_ok_iff, state_get_eq_ok_iff, state_modify_eq_ok_iff]
  exact ⟨_, _, ⟨rfl, rfl⟩, (), _, rfl, hsteps⟩

/-- Copying a section leaves those alone that have their place, so what is foreseen after it was
foreseen before. -/
theorem foresees_copySection {dest stop : UInt32} {index : Nat}
    (hstep : copySection dest index first = .ok stop after)
    (h : again.Foresees after.container) : again.Foresees first.container := by
  obtain ⟨found, hfound, hstep⟩ := copySection_eq_ok_iff.mp hstep
  split at hstep
  · obtain ⟨-, rfl⟩ := hstep
    exact h
  · rename_i hmove
    obtain ⟨offset, last, -, -, -, rfl⟩ := hstep
    refine foresees_of_setSection h hfound fun hplaced => ?_
    rw [hplaced] at hmove
    exact absurd rfl hmove

/-- A section that is moved is moved to the same place again. -/
theorem retraces_copySection (hfresh : again.Fresh) (h : first.Retraces again line second)
    {dest stop : UInt32} {index : Nat} (hindex : index = line → first.IsPlaced line)
    (hstep : copySection dest index first = .ok stop after)
    (hforesees : again.Foresees after.container) :
    ∃ after', copySection dest index second = .ok stop after' ∧
      after.Retraces again line after' := by
  obtain ⟨s, hs, hstep⟩ := copySection_eq_ok_iff.mp hstep
  obtain ⟨t, ht, ht'⟩ := h.exists_section hs
  have hbecomes := h.becomes index s t hs ht
  have hsame : ((t.placedAs s).placed || !(t.placedAs s).header.hasFileData) =
      (s.placed || !s.header.hasFileData) := by
    rw [Section.placed_placedAs, Section.header_placedAs, hbecomes.hasFileData_eq]
  split at hstep
  · rename_i hskip
    obtain ⟨rfl, rfl⟩ := hstep
    refine ⟨second, copySection_eq_ok_iff.mpr ⟨_, ht', ?_⟩, h⟩
    rw [hsame, if_pos hskip]
    exact ⟨rfl, rfl⟩
  · rename_i hmove
    obtain ⟨offset, last, hoffset, hlast, hstop, rfl⟩ := hstep
    obtain ⟨hunplaced, hdata⟩ : s.placed = false ∧ s.header.hasFileData = true := by
      simpa using hmove
    -- After the step the section has its place, and the output shows which.
    have hmovedTo : (first.move index s offset).container.sections[index]? =
        some (s.placedAt offset) := by rw [getElem?_move hs, if_pos rfl]
    obtain rfl : t.header.offset = offset := hforesees index _ t hmovedTo ht rfl
    have hne : index ≠ line := by
      intro heq
      rw [hindex heq s (heq ▸ hs)] at hunplaced
      cases hunplaced
    obtain ⟨-, hsource, hlength', hlength, hstop'⟩ :=
      h.sources_eq hfresh hne hs ht hunplaced hdata
    have hnew : (s.placedAt t.header.offset).Becomes again.fixedStop t :=
      ⟨hbecomes.type_eq, hbecomes.alignment_eq, rfl⟩
    have hmoved := h.copy hs ht hlength hstop' rfl hnew
    rw [congrArg Span.start hsource] at hmoved
    refine ⟨second.move index (t.placedAs s) t.header.offset,
      copySection_eq_ok_iff.mpr ⟨_, ht', ?_⟩, hmoved⟩
    rw [hsame, if_neg hmove, Section.header_placedAs, Section.source_placedAs,
      hbecomes.header_alignment_eq, hlength']
    exact ⟨_, last, hoffset, hlast, hstop, rfl⟩

theorem isPlaced_copySection {dest stop : UInt32} {index k : Nat}
    (hstep : copySection dest index first = .ok stop after) (h : first.IsPlaced k) :
    after.IsPlaced k := by
  obtain ⟨found, hfound, hstep⟩ := copySection_eq_ok_iff.mp hstep
  split at hstep
  · obtain ⟨-, rfl⟩ := hstep
    exact h
  · obtain ⟨offset, last, -, -, -, rfl⟩ := hstep
    intro s hs
    rw [getElem?_move hfound] at hs
    split at hs
    · cases hs
      rfl
    · exact h s hs

theorem foresees_copySections {dest stop : UInt32} (hstep : copySections dest first = .ok stop after)
    (h : again.Foresees after.container) : again.Foresees first.container := by
  unfold copySections at hstep
  simp only [state_bind_eq_ok_iff, state_get_eq_ok_iff] at hstep
  obtain ⟨_, _, ⟨rfl, rfl⟩, hstep⟩ := hstep
  exact state_foldlM_induction hstep (motive := fun _ _ layout =>
    again.Foresees layout.container → again.Foresees first.container) id
    (fun _ _ _ _ _ _ hdone hstep h => hdone (foresees_copySection hstep h)) h

/-- The sections that are copied last are copied to the same places again. -/
theorem retraces_copySections (hfresh : again.Fresh) (h : first.Retraces again line second)
    {dest stop : UInt32} (hplaced : first.IsPlaced line)
    (hstep : copySections dest first = .ok stop after) (hforesees : again.Foresees after.container) :
    ∃ after', copySections dest second = .ok stop after' ∧ after.Retraces again line after' := by
  unfold copySections at hstep ⊢
  simp only [state_bind_eq_ok_iff, state_get_eq_ok_iff] at hstep
  obtain ⟨_, _, ⟨rfl, rfl⟩, hstep⟩ := hstep
  rw [h.count] at hstep
  -- the invariant: the second layout retraces the first, and the line section counts as placed in
  -- both
  obtain ⟨after', hsteps, hafter, -⟩ := state_foldlM_lockstep
    (fun layout => again.Foresees layout.container)
    (fun before before' => before.Retraces again line before' ∧ before.IsPlaced line)
    hstep hforesees ⟨h, hplaced⟩ (fun _ _ _ _ _ => foresees_copySection)
    fun index dest before stop after before' hstep hforesees hbefore => by
      obtain ⟨after', hstep', hafter⟩ :=
        retraces_copySection hfresh hbefore.1 (fun _ => hbefore.2) hstep hforesees
      exact ⟨after', hstep', hafter, isPlaced_copySection hstep hbefore.2⟩
  refine ⟨after', ?_, hafter⟩
  simp only [state_bind_eq_ok_iff, state_get_eq_ok_iff]
  exact ⟨_, _, ⟨rfl, rfl⟩, by rwa [h.length_second]⟩

theorem foresees_markPlaced {index : Nat} {offset : UInt32} {u : Unit}
    (hstep : markPlaced index offset first = .ok u after)
    (hunplaced : ∀ s, first.container.sections[index]? = some s → s.placed = false)
    (h : again.Foresees after.container) : again.Foresees first.container := by
  obtain ⟨found, hfound, rfl⟩ := markPlaced_eq_ok_iff.mp hstep
  refine foresees_of_setSection h hfound fun hplaced => ?_
  rw [hunplaced found hfound] at hplaced
  cases hplaced

/-- The section whose contents are generated is put where it is in the output. -/
theorem retraces_markPlaced (h : first.Retraces again line second) {offset : UInt32} {u : Unit}
    (hstep : markPlaced line offset first = .ok u after)
    (hforesees : again.Foresees after.container) :
    ∃ after', markPlaced line offset second = .ok u after' ∧ after.Retraces again line after' ∧
      after.IsPlaced line := by
  obtain ⟨s, hs, rfl⟩ := markPlaced_eq_ok_iff.mp hstep
  obtain ⟨t, ht, ht'⟩ := h.exists_section hs
  have hbecomes := h.becomes line s t hs ht
  have hget : (first.setSection line (s.placedAt offset)).container.sections[line]? =
      some (s.placedAt offset) := by rw [getElem?_setSection hs, if_pos rfl]
  -- the second run marks the offset that stands in its header, which is the one foreseen
  obtain rfl : t.header.offset = offset := hforesees line _ t hget ht rfl
  have hnew : (s.placedAt t.header.offset).Becomes again.fixedStop t :=
    ⟨hbecomes.type_eq, hbecomes.alignment_eq, rfl⟩
  refine ⟨second.setSection line { t with placed := true },
    markPlaced_eq_ok_iff.mpr ⟨_, ht', rfl⟩, h.setSection hs ht rfl hnew, ?_⟩
  intro new hfound
  obtain rfl := Option.some.inj (hget.symm.trans hfound)
  rfl

theorem foresees_setSize {index : Nat} {size : UInt32} {u : Unit}
    (hstep : setSize index size first = .ok u after) (h : again.Foresees after.container) :
    again.Foresees first.container := by
  obtain ⟨found, hfound, rfl⟩ := setSize_eq_ok_iff.mp hstep
  exact foresees_of_setSection h hfound fun hplaced => ⟨hplaced, rfl⟩

/-- The section whose contents are generated has its size in the output already. -/
theorem retraces_setSize (h : first.Retraces again line second) (hplaced : first.IsPlaced line)
    {size : UInt32} (hsize : ∀ t, again.sections[line]? = some t → t.header.size = size) {u : Unit}
    (hstep : setSize line size first = .ok u after) :
    ∃ after', setSize line size second = .ok u after' ∧ after.Retraces again line after' ∧
      after.IsPlaced line := by
  obtain ⟨s, hs, rfl⟩ := setSize_eq_ok_iff.mp hstep
  obtain ⟨t, ht, ht'⟩ := h.exists_section hs
  have hbecomes := h.becomes line s t hs ht
  obtain rfl := hsize t ht
  have hplaced' := hplaced s hs
  have hnew : Section.Becomes again.fixedStop
      { s with header := { s.header with size := t.header.size } } t :=
    ⟨hbecomes.type_eq, hbecomes.alignment_eq, hbecomes.pinned_eq⟩
  refine ⟨second.setSection line { t with placed := true },
    setSize_eq_ok_iff.mpr ⟨_, ht', by rw [Section.placedAs, hplaced']⟩, ?_, ?_⟩
  · exact Retraces.setSection h hs ht hplaced' hnew
  · intro new hfound
    rw [getElem?_setSection hs, if_pos rfl] at hfound
    obtain rfl := Option.some.inj hfound
    exact hplaced'

/-- The table of segments is in the output as it was in the file. -/
theorem retraces_writeSegments (hfresh : again.Fresh) (h : first.Retraces again line second)
    (hheader : again.header.segmentTable = first.container.header.segmentTable)
    (hdata : first.container.header.segmentTable.stop ≤ first.container.data.length) {u : Unit}
    (hstep : writeSegments first = .ok u after) :
    ∃ after', writeSegments second = .ok u after' ∧ after.Retraces again line after' := by
  obtain rfl := state_modify_eq_ok_iff.mp hstep
  have hstop : again.header.segmentTable.stop ≤ again.data.length :=
    Nat.le_trans hfresh.segments_le hfresh.fixed_le
  have hlength : (first.container.header.segmentTable.slice first.container.data).length =
      again.header.segmentTable.length := by rw [Span.length_slice hdata, hheader]
  have himage := h.image.writeAt_slice hstop hlength
  have htable : second.container.header.segmentTable = again.header.segmentTable := by
    rw [h.container_eq]
    rfl
  have hbytes : second.container.data = again.data := by
    rw [h.container_eq]
    rfl
  refine ⟨second.writeAt second.container.header.segmentTable.start
    (second.container.header.segmentTable.slice second.container.data),
    state_modify_eq_ok_iff.mpr rfl, ?_⟩
  rw [hheader] at himage
  rw [htable, hbytes, hheader]
  exact h.withImages himage

/-- If the sections have become those of the output, so does the image. -/
theorem retraces_writeSectionHeaders (h : first.Retraces again line second)
    (hne : first.container.sections ≠ [])
    (hheaders : ∀ (k : Nat) (s t : Section), first.container.sections[k]? = some s →
      again.sections[k]? = some t → t.header = s.header)
    {offset stop : UInt32} (hstep : writeSectionHeaders offset first = .ok stop after) :
    ∃ after', writeSectionHeaders offset second = .ok stop after' ∧
      after.Retraces again line after' := by
  obtain ⟨start, hstart, hstop, rfl⟩ := (writeSectionHeaders_eq_ok_iff hne).mp hstep
  have hlength : second.container.sections.length = first.container.sections.length := by
    rw [h.length_second, h.count]
  have hne' : second.container.sections ≠ [] := by
    rw [← List.length_pos_iff, hlength]
    exact List.length_pos_iff.mpr hne
  -- Both tables hold the headers of the output, whichever sections have their place.
  have hbytes : (second.container.sections.flatMap fun s => s.header.bytes) =
      first.container.sections.flatMap fun s => s.header.bytes := by
    rw [List.flatMap_def, List.flatMap_def]
    congr 1
    apply List.ext_getElem?
    intro k
    rw [List.getElem?_map, List.getElem?_map]
    cases hs : first.container.sections[k]? with
    | none =>
      rw [List.getElem?_eq_none_iff, ← hlength, ← List.getElem?_eq_none_iff] at hs
      rw [hs]
    | some s =>
      obtain ⟨t, ht, ht'⟩ := h.exists_section hs
      rw [ht', Option.map_some, Option.map_some, Section.header_placedAs, hheaders k s t hs ht]
  refine ⟨_, (writeSectionHeaders_eq_ok_iff hne').mpr ⟨start, hstart, ?_, rfl⟩, ?_⟩
  · rw [hlength]
    exact hstop
  · rw [hbytes]
    exact h.withImages (((h.image.writeAt _ _).writeAt _ _).setLength _)

end Placing

end DwarfLines.Elf
