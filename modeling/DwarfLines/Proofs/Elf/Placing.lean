import DwarfLines.Proofs.Elf.Arrangement
import DwarfLines.Proofs.Elf.Settling

/-!
# Laying out whole files

The steps of laying out a file keep it arranged: copying the fixed part makes an arranged layout,
copying sections moves each behind what is there, and the two tables are written into the front and
behind everything. When all sections were copied, each that has contents has its place.
-/

namespace DwarfLines.Elf

open Outcome

/-- What the sections of a file hold before anything is changed. -/
def Container.held (container : Container) (k : Nat) : Bytes :=
  (container.sections[k]?.map container.contents).getD []

theorem Container.held_eq {container : Container} {k : Nat} {s : Section}
    (hs : container.sections[k]? = some s) : container.held k = container.contents s := by
  rw [held, hs]
  rfl

/-- Where the table of segments is. -/
def FileHeader.segmentTable (header : FileHeader) : Span :=
  ⟨header.segmentOffset.toNat, header.segmentsStop⟩

/-- Where a file header stores the offset of the table of sections, as a part of the file. -/
def sectionOffsetPlace : Span := ⟨sectionOffsetField, sectionOffsetField + 4⟩

theorem SectionHeader.length_bytes (header : SectionHeader) :
    header.bytes.length = Part.section.size := by
  simp [bytes, fields, Part.size]

theorem length_flatMap_bytes (sections : List Section) :
    (sections.flatMap fun s => s.header.bytes).length = sections.length * Part.section.size := by
  induction sections with
  | nil => simp
  | cons s sections ih =>
    rw [List.flatMap_cons, List.length_append, ih, SectionHeader.length_bytes, List.length_cons,
      Nat.succ_mul, Nat.add_comm]

theorem Layout.Arranged.setLength {front : Bytes} {held : Nat → Bytes} {layout : Layout}
    {stop : Nat} (h : layout.Arranged front held stop) {length : Nat} (hlength : stop ≤ length) :
    Layout.Arranged front held { layout with image := layout.image.setLength length } stop where
  __ := h
  holds_front := by
    have := h.front_le
    exact h.holds_front.setLength (by omega)
  moved k s hs hmoved := by
    obtain ⟨hfront, hplace, hholds⟩ := h.moved k s hs hmoved
    exact ⟨hfront, hplace, hholds.setLength (Nat.le_trans hplace hlength)⟩

namespace Placing

variable {front : Bytes} {held : Nat → Bytes} {before after : Layout} {stop : UInt32}

/-- The fixed part of a freshly opened file is the front of an arranged layout. -/
theorem arranged_copyFixed {container : Container} (hfresh : container.Fresh)
    (h : copyFixed (.start container) = .ok stop after) :
    after.Arranged (container.data.take stop.toNat) container.held stop.toNat ∧
      (Layout.start container).Keeps after := by
  obtain ⟨rfl, hfixed, hlength, -⟩ := eq_of_copyFixed hfresh h
  have hfront : (container.data.take stop.toNat).length = stop.toNat :=
    List.length_take_of_le hlength
  have hget : ∀ (k : Nat) (s : Section),
      (container.sections.map (Section.settle container.fixedStop))[k]? = some s →
      ∃ s', container.sections[k]? = some s' ∧ s'.placed = false ∧
        s = s'.settle container.fixedStop := by
    intro k s hs
    rw [List.getElem?_map] at hs
    obtain ⟨s', hs', rfl⟩ := Option.map_eq_some_iff.mp hs
    exact ⟨s', hs', hfresh.unplaced s' (List.mem_of_getElem? hs'), rfl⟩
  -- Only sections in the fixed part have places, so none counts as moved yet.
  have hunmoved : ∀ (k : Nat) (s : Section),
      (container.sections.map (Section.settle container.fixedStop))[k]? = some s →
        ¬ s.HasMoved container.fixedStop := by
    rintro k s hs ⟨hplaced, -, hoffset⟩
    obtain ⟨s', -, hunplaced, rfl⟩ := hget k s hs
    rw [Section.header_settle] at hoffset
    exact UInt32.not_lt.mpr hoffset ((Section.placed_settle hunplaced).mp hplaced).2
  refine ⟨⟨?_, ?_, ?_, ?_, ?_, ?_, ?_⟩, ?_, ?_, ?_⟩
  · rw [hfront]
    exact UInt32.le_iff_toNat_le.mp hfixed
  · exact Nat.le_of_eq hfront
  · intro i _
    rw [Nat.zero_add]
  · intro s hs hdata hplaced
    obtain ⟨k, hk⟩ := List.mem_iff_getElem?.mp hs
    obtain ⟨s', -, hunplaced, rfl⟩ := hget k s hk
    rw [← Bool.not_eq_true, Section.placed_settle hunplaced, Section.IsFixed, not_and] at hplaced
    rw [Section.header_settle] at hdata ⊢
    exact UInt32.not_lt.mp (hplaced hdata)
  · intro k s hs _ _
    obtain ⟨s', hs', -, rfl⟩ := hget k s hs
    rw [Container.held_eq hs', Container.contents, Container.contents, Section.source_settle]
  · exact fun k s hs hmoved => absurd hmoved (hunmoved k s hs)
  · exact fun j k s t _ hs _ hmoved _ => absurd hmoved (hunmoved j s hs)
  · simp [Container.skeleton, Layout.start]
  · simp [Container.pinned, Section.pinned, Layout.start]
  · intro k s hs hplaced
    rw [hfresh.unplaced s (List.mem_of_getElem? hs)] at hplaced
    cases hplaced

/-- Copying a section keeps a layout arranged, and afterwards it has its place if it has contents. -/
theorem arranged_copySection {dest : UInt32} {index : Nat}
    (hbefore : before.Arranged front held dest.toNat)
    (h : copySection dest index before = .ok stop after) :
    after.Arranged front held stop.toNat ∧ before.Keeps after ∧
      (∀ s, after.container.sections[index]? = some s → s.header.hasFileData = true →
        s.placed = true) ∧
      ∀ k ≠ index, after.container.sections[k]? = before.container.sections[k]? := by
  -- that the section is placed and the others stay was shown for any copy
  suffices after.Arranged front held stop.toNat ∧ before.Keeps after from
    ⟨this.1, this.2, fun _ => placed_of_copySection h, fun _ => getElem?_of_copySection h⟩
  obtain ⟨found, hfound, h⟩ := copySection_eq_ok_iff.mp h
  split at h
  · obtain ⟨rfl, rfl⟩ := h
    exact ⟨hbefore, .refl _⟩
  · rename_i hmove
    obtain ⟨offset, last, hoffset, hlast, hstop, rfl⟩ := h
    obtain ⟨hunplaced, hdata⟩ : found.placed = false ∧ found.header.hasFileData = true := by
      simpa using hmove
    have hdest := le_of_alignUp? hoffset
    have hlast := advance?_eq_some_iff.mp hlast
    have hstop := le_of_alignUp? hstop
    -- the section was pending, so what it holds still stands in the data
    have hheld := hbefore.pending index found hfound hdata hunplaced
    have hlength : (before.container.contents found).length ≤ found.source.length :=
      List.length_take_le _ _
    have hfixed := hbefore.fixed found (List.mem_of_getElem? hfound) hdata hunplaced
    have hoffset : before.container.fixedStop ≤ offset := by
      have := hbefore.fixed_le
      have := hbefore.front_le
      rw [UInt32.le_iff_toNat_le]
      omega
    have hwritten := hbefore.writeAt_past (before.container.contents found) hdest
    have hfound' : (before.writeAt offset.toNat (before.container.contents found)).container.sections[
        index]? = some found := hfound
    have hplaced : Layout.Arranged front _ _ stop.toNat :=
      hwritten.setPlace hfound' hdest (by omega) (.of_writeAt _ _ _)
    rw [← hheld, Function.update_eq_self, hheld] at hplaced
    exact ⟨hplaced, (Layout.Keeps.writeAt before _ _).trans
      (.setPlace hfound' hunplaced hfixed hoffset)⟩

/-- Copying all sections that have no place gives each that has contents one. -/
theorem arranged_copySections {dest : UInt32} (hbefore : before.Arranged front held dest.toNat)
    (h : copySections dest before = .ok stop after) :
    after.Arranged front held stop.toNat ∧ before.Keeps after ∧
      ∀ s ∈ after.container.sections, s.header.hasFileData = true → s.placed = true := by
  suffices after.Arranged front held stop.toNat ∧ before.Keeps after from
    ⟨this.1, this.2, settled_of_copySections h⟩
  unfold copySections at h
  simp only [state_bind_eq_ok_iff, state_get_eq_ok_iff] at h
  obtain ⟨_, _, ⟨rfl, rfl⟩, h⟩ := h
  exact state_foldlM_induction h
    (motive := fun _ stop layout => layout.Arranged front held stop.toNat ∧ before.Keeps layout)
    ⟨hbefore, .refl _⟩ fun _ _ _ _ _ _ ⟨harranged, hkeeps⟩ hstep =>
      have ⟨harranged, hkeeps', _, _⟩ := arranged_copySection harranged hstep
      ⟨harranged, hkeeps.trans hkeeps'⟩

/-- The table of segments is written into the front. -/
theorem arranged_writeSegments {stop : Nat} {u : Unit} (hbefore : before.Arranged front held stop)
    (hfront : before.container.header.segmentTable.stop ≤ front.length)
    (hdata : before.container.header.segmentTable.stop ≤ before.container.data.length)
    (h : writeSegments before = .ok u after) :
    after.container = before.container ∧
      after.Arranged ((Image.mk front).writeAt before.container.header.segmentTable.start
        (before.container.header.segmentTable.slice before.container.data)).bytes held stop := by
  obtain rfl := state_modify_eq_ok_iff.mp h
  refine ⟨rfl, hbefore.writeAt_front _ ?_⟩
  rw [Span.length_slice hdata, Span.length]
  simp only [FileHeader.segmentTable, FileHeader.segmentsStop] at hfront ⊢
  omega

/-- The table of sections is written behind an arranged layout, and its place into the front. -/
theorem arranged_writeSectionHeaders {offset : UInt32}
    (hbefore : before.Arranged front held offset.toNat)
    (hfront : sectionOffsetField + 4 ≤ front.length) (hsections : before.container.sections ≠ [])
    (h : writeSectionHeaders offset before = .ok stop after) :
    ∃ start : UInt32, alignUp? offset 4 = some start ∧
      stop.toNat = start.toNat + before.container.sections.length * Part.section.size ∧
      after.container = before.container ∧ after.image.length = stop.toNat ∧
      after.image.Holds start.toNat (before.container.sections.flatMap fun s => s.header.bytes) ∧
      after.Arranged ((Image.mk front).writeWord32 sectionOffsetField start).bytes held
        offset.toNat := by
  obtain ⟨start, hstart, hstop, rfl⟩ := (writeSectionHeaders_eq_ok_iff hsections).mp h
  have hle := le_of_alignUp? hstart
  have hstop := advance?_eq_some_iff.mp hstop
  have hfrontLe := hbefore.front_le
  have htable := length_flatMap_bytes before.container.sections
  refine ⟨start, hstart, hstop, rfl, Image.length_setLength _ _, ?_, ?_⟩
  -- the table is written behind everything, the pointer to it in the front, so the two do not meet
  · refine ((Image.Holds.of_writeAt _ _ _).writeAt (Span.apart_of_le ?_).symm).setLength ?_
    · dsimp only
      rw [length_bytesOfWord32]
      omega
    · omega
  · have hwritten := hbefore.writeAt_past
      (before.container.sections.flatMap fun s => s.header.bytes) hle
    have hpointed := hwritten.writeAt_front (bytesOfWord32 start)
      (by rw [length_bytesOfWord32]; exact hfront)
    exact hpointed.setLength (by omega)

end Placing

end DwarfLines.Elf
