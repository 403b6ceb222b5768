import DwarfLines.Proofs.Elf.Parts
import DwarfLines.Proofs.Elf.Reopening
import DwarfLines.Proofs.Elf.RetracedSteps

/-!
# Repacking files

A file is repacked by laying out all of it: the fixed part, the other sections one after the other,
and both tables. If its parts do not overlap, the output is a file with the same segments and with the
same sections in other places, and repacking it again changes nothing. Files without sections, and
sections without contents, are repacked, too.
-/

namespace DwarfLines.Elf

open Outcome

/-- Lays out a whole file: its fixed part, its other sections, and its tables. Returns the length of
the image. -/
def Placing.repack : Placing UInt32 := do
  let stop ← copyFixed
  let stop ← copySections stop
  writeSegments
  writeSectionHeaders stop

/-- What each step of repacking a file leaves. -/
structure Repacking (container : Container) (length : UInt32) (finalLayout : Layout) where
  frontStop : UInt32
  frontLayout : Layout
  copyFixed : Placing.copyFixed (.start container) = .ok frontStop frontLayout
  stop : UInt32
  fullLayout : Layout
  copySections : Placing.copySections frontStop frontLayout = .ok stop fullLayout
  segmentLayout : Layout
  writeSegments : Placing.writeSegments fullLayout = .ok () segmentLayout
  writeHeaders : Placing.writeSectionHeaders stop segmentLayout = .ok length finalLayout

/-- A repacking is a run of the steps that succeeds. -/
theorem nonempty_repacking_iff {container : Container} {length : UInt32} {layout : Layout} :
    Nonempty (Repacking container length layout) ↔
      Placing.repack (.start container) = .ok length layout := by
  unfold Placing.repack
  simp only [state_bind_eq_ok_iff]
  constructor
  · rintro ⟨frontStop, frontLayout, hfixed, stop, fullLayout, hcopy, segmentLayout, hsegments,
      hheaders⟩
    exact ⟨frontStop, frontLayout, hfixed, stop, fullLayout, hcopy, (), segmentLayout, hsegments,
      hheaders⟩
  · rintro ⟨frontStop, frontLayout, hfixed, stop, fullLayout, hcopy, _, segmentLayout, hsegments,
      hheaders⟩
    exact ⟨frontStop, frontLayout, hfixed, stop, fullLayout, hcopy, segmentLayout, hsegments,
      hheaders⟩

/-! ## The table of sections, which may be empty -/

namespace Placing

variable {before after : Layout} {offset stop : UInt32}

/-- Without sections, the header points nowhere and the image ends. -/
theorem writeSectionHeaders_eq_ok_iff_of_nil (hsections : before.container.sections = []) :
    writeSectionHeaders offset before = .ok stop after ↔
      stop = offset ∧ after = { before with
        image := (before.image.writeWord32 sectionOffsetField 0).setLength offset.toNat } := by
  unfold writeSectionHeaders writeSectionHeaders.finish
  simp only [state_bind_eq_ok_iff, state_get_eq_ok_iff]
  constructor
  · rintro ⟨_, _, ⟨rfl, rfl⟩, h⟩
    rw [hsections, List.isEmpty_nil, if_pos rfl] at h
    simp only [state_bind_eq_ok_iff, state_modify_eq_ok_iff, state_pure_eq_ok_iff] at h
    obtain ⟨_, _, rfl, rfl, rfl⟩ := h
    exact ⟨rfl, rfl⟩
  · rintro ⟨rfl, rfl⟩
    refine ⟨before, before, ⟨rfl, rfl⟩, ?_⟩
    rw [hsections, List.isEmpty_nil, if_pos rfl]
    refine state_bind_eq_ok_iff.mpr ⟨(), _, state_modify_eq_ok_iff.mpr rfl, ?_⟩
    exact state_pure_eq_ok_iff.mpr ⟨rfl, rfl⟩

/-- What the last step of laying out a file leaves, be there sections or not. -/
structure Finishes (before : Layout) (front : Bytes) (held : Nat → Bytes) (offset stop table : UInt32)
    (after : Layout) : Prop where
  container : after.container = before.container
  length : after.image.length = stop.toNat
  offset_le : offset.toNat ≤ stop.toNat
  aligned : before.container.sections ≠ [] → table.toNat % 4 = 0 ∧
    stop.toNat = table.toNat + before.container.sections.length * Part.section.size
  table_le : table.toNat + before.container.sections.length * Part.section.size ≤ stop.toNat
  holds_table : after.image.Holds table.toNat
    (before.container.sections.flatMap fun s => s.header.bytes)
  arranged : after.Arranged ((Image.mk front).writeWord32 sectionOffsetField table).bytes held
    offset.toNat

/-- What is written last is the section table, and its offset in the header. -/
theorem exists_finishes {front : Bytes} {held : Nat → Bytes}
    (hbefore : before.Arranged front held offset.toNat)
    (hfront : sectionOffsetField + 4 ≤ front.length)
    (h : writeSectionHeaders offset before = .ok stop after) :
    ∃ table, Finishes before front held offset stop table after := by
  -- without sections there is no table: its offset is zero and it holds anywhere
  by_cases hsections : before.container.sections = []
  · obtain ⟨rfl, rfl⟩ := (writeSectionHeaders_eq_ok_iff_of_nil hsections).mp h
    have hpointed := hbefore.writeAt_front (bytesOfWord32 0)
      (by rw [length_bytesOfWord32]; exact hfront)
    refine ⟨0, rfl, Image.length_setLength _ _, Nat.le_refl _, fun hne => absurd hsections hne, ?_,
      ?_, hpointed.setLength (Nat.le_refl _)⟩
    · rw [hsections]
      exact Nat.zero_le _
    · rw [hsections]
      exact .nil _ _
  · obtain ⟨table, htable, hstop, hcontainer, hlength, hholds, harranged⟩ :=
      arranged_writeSectionHeaders hbefore hfront hsections h
    have hle := le_of_alignUp? htable
    refine ⟨table, hcontainer, hlength, by omega, fun _ => ⟨?_, hstop⟩, Nat.le_of_eq hstop.symm,
      hholds, harranged⟩
    rw [alignUp?_eq_some_iff.mp htable]
    exact Nat.mul_mod_left _ _

/-- The last step is taken again, be there sections or not. -/
theorem retraces_finish {again : Container} {line : Nat} {first second : Layout}
    (h : first.Retraces again line second)
    (hheaders : ∀ (k : Nat) (s t : Section), first.container.sections[k]? = some s →
      again.sections[k]? = some t → t.header = s.header)
    (hstep : writeSectionHeaders offset first = .ok stop after) :
    ∃ after', writeSectionHeaders offset second = .ok stop after' ∧
      after.Retraces again line after' := by
  by_cases hsections : first.container.sections = []
  · obtain ⟨rfl, rfl⟩ := (writeSectionHeaders_eq_ok_iff_of_nil hsections).mp hstep
    have hsections' : second.container.sections = [] := by
      rw [← List.length_eq_zero_iff, h.length_second, ← h.count, hsections, List.length_nil]
    exact ⟨_, (writeSectionHeaders_eq_ok_iff_of_nil hsections').mpr ⟨rfl, rfl⟩,
      h.withImages ((h.image.writeAt _ _).setLength _)⟩
  · exact retraces_writeSectionHeaders h hsections hheaders hstep

end Placing

namespace Repacking

variable {container : Container} {length : UInt32} {layout : Layout}
  (run : Repacking container length layout)

/-- The part of the file that is copied as it is. -/
def front : Bytes := container.data.take run.frontStop.toNat

variable (hfresh : container.Fresh)

include hfresh

/-- The front part ends where the copying of the fixed part stops. -/
theorem length_front : run.front.length = run.frontStop.toNat := by
  obtain ⟨-, -, hlength, -⟩ := Placing.eq_of_copyFixed hfresh run.copyFixed
  exact List.length_take_of_le hlength

/-- The fixed part of the file is in front. -/
theorem fixedStop_le : container.fixedStop.toNat ≤ run.front.length := by
  obtain ⟨-, hfixed, -⟩ := Placing.eq_of_copyFixed hfresh run.copyFixed
  rw [run.length_front hfresh]
  exact UInt32.le_iff_toNat_le.mp hfixed

/-- The segment headers are in front. -/
theorem segmentTable_le : container.header.segmentTable.stop ≤ run.front.length :=
  Nat.le_trans hfresh.segments_le (run.fixedStop_le hfresh)

/-- The offset of the section table is in front. -/
theorem sectionOffsetPlace_le : sectionOffsetField + 4 ≤ run.front.length := by
  have hheader := hfresh.header_le
  have hfixed := run.fixedStop_le hfresh
  simp only [Part.size, sectionOffsetField] at hheader ⊢
  omega

/-- Writing the table of segments where it was does not change the front. -/
theorem writeAt_segmentTable :
    ((Image.mk run.front).writeAt container.header.segmentTable.start
      (container.header.segmentTable.slice container.data)).bytes = run.front := by
  have hfront := run.length_front hfresh
  have hstop := run.segmentTable_le hfresh
  have hspan : container.header.segmentTable.start ≤ container.header.segmentTable.stop :=
    Nat.le_add_right _ _
  obtain ⟨-, -, hlength, -⟩ := Placing.eq_of_copyFixed hfresh run.copyFixed
  have hwritten := Image.writeAt_take container.header.segmentTable (Nat.le_trans hspan (hfront ▸ hstop))
    hlength hspan (Nat.le_trans hstop (hfront ▸ hlength))
  rwa [Nat.max_eq_left (hfront ▸ hstop)] at hwritten

/-- Writing the offset of the section table leaves the front part as long as it was. -/
theorem length_pointed (table : UInt32) :
    ((Image.mk run.front).writeWord32 sectionOffsetField table).bytes.length = run.front.length :=
  Image.length_writeWord32 (run.sectionOffsetPlace_le hfresh)

/-- What the output of repacking a file shows, with the table of sections at `table`. -/
structure Shows (table : UInt32) : Prop where
  container_eq : layout.container = run.fullLayout.container
  keeps : (Layout.start container).Keeps layout
  placed : ∀ s ∈ layout.container.sections, s.header.hasFileData = true → s.placed = true
  finishes : Placing.Finishes run.segmentLayout run.front container.held run.stop length table layout

/-- A repacking shows what the new file holds. -/
theorem exists_shows : ∃ table, run.Shows table := by
  obtain ⟨hfront, hkeeps⟩ := Placing.arranged_copyFixed hfresh run.copyFixed
  obtain ⟨hfull, hkeeps', hplaced⟩ := Placing.arranged_copySections hfront run.copySections
  have hkeeps := hkeeps.trans hkeeps'
  have hstop := run.segmentTable_le hfresh
  have hdata := Nat.le_trans hfresh.segments_le hfresh.fixed_le
  obtain ⟨hsame, hsegments⟩ := Placing.arranged_writeSegments hfull
    (by rw [hkeeps.header]; exact hstop) (by rw [hkeeps.header, hkeeps.data]; exact hdata)
    run.writeSegments
  rw [hkeeps.header, hkeeps.data] at hsegments
  have hsegments : run.segmentLayout.Arranged run.front container.held run.stop.toNat := by
    rw [← run.writeAt_segmentTable hfresh]
    exact hsegments
  obtain ⟨table, hfinishes⟩ := Placing.exists_finishes hsegments
    (run.sectionOffsetPlace_le hfresh) run.writeHeaders
  have hcontainer := hfinishes.container.trans hsame
  exact ⟨table, hcontainer, ⟨by rw [hcontainer]; exact hkeeps.skeleton,
    by rw [hcontainer]; exact hkeeps.pinned, by rw [hcontainer]; exact hkeeps.placed⟩,
    by rwa [hcontainer], hfinishes⟩

omit hfresh

namespace Shows

variable {run} {table : UInt32} (h : run.Shows table)

include h

/-- A section of the output is one of the file with another offset, and in the fixed part it is where
it was. -/
theorem exists_section {k : Nat} {new : Section} (hnew : layout.container.sections[k]? = some new) :
    ∃ old, container.sections[k]? = some old ∧
      new.header = { old.header with offset := new.header.offset } ∧
      new.pinned container.fixedStop = old.pinned container.fixedStop := by
  obtain ⟨old, hold, hskeleton, hpinned⟩ := h.keeps.section_of_getElem? hnew
  exact ⟨old, hold, Section.header_of_skeleton_eq hskeleton, hpinned⟩

/-- No section is added or lost. -/
theorem count : layout.container.sections.length = container.sections.length := h.keeps.length

/-- The end of the table of sections, or without sections of the fixed part, is that of the output. -/
theorem length_eq : layout.image.bytes.length = length.toNat := h.finishes.length

include hfresh

/-- The front part is in the new file. -/
theorem length_front_le : run.front.length ≤ layout.image.bytes.length := by
  have hfront := h.finishes.arranged.front_le
  rw [run.length_pointed hfresh] at hfront
  rw [h.length_eq]
  exact Nat.le_trans hfront h.finishes.offset_le

/-- Only the place of the table of sections is new in the front of the output. -/
theorem getElem?_out {i : Nat} (hi : i < run.front.length) (hplace : i ∉ sectionOffsetPlace) :
    layout.image.bytes[i]? = container.data[i]? := by
  have hholds := h.finishes.arranged.holds_front i (by rwa [run.length_pointed hfresh])
  rw [Nat.zero_add] at hholds
  have houtside : ((Image.mk run.front).writeWord32 sectionOffsetField table).bytes[i]? =
      run.front[i]? := by
    refine Image.getElem?_writeAt_outside hi ?_
    rw [length_bytesOfWord32]
    exact hplace
  exact hholds.trans (houtside.trans (List.getElem?_take_of_lt (run.length_front hfresh ▸ hi)))

/-- The new file holds the offset of its section table. -/
theorem holds_place : layout.image.Holds sectionOffsetField (bytesOfWord32 table) := by
  intro j hj
  have hplace := run.sectionOffsetPlace_le hfresh
  rw [length_bytesOfWord32] at hj
  have hholds := h.finishes.arranged.holds_front (sectionOffsetField + j)
    (by rw [run.length_pointed hfresh]; omega)
  rw [Nat.zero_add] at hholds
  rw [hholds]
  exact Image.getElem?_writeAt_inside _ _ (by rwa [length_bytesOfWord32])

variable (hapart : container.parts.Pairwise Span.Apart)

include hapart

/-- A section in the fixed part is where it was, with the same contents. -/
theorem slice_of_fixed {s : Section} (hs : s ∈ container.sections)
    (hdata : s.header.hasFileData = true) (hfixed : s.header.offset < container.fixedStop) :
    s.source.stop ≤ layout.image.bytes.length ∧
      s.source.slice layout.image.bytes = container.contents s := by
  obtain ⟨-, -, -, hsources⟩ := Placing.eq_of_copyFixed hfresh run.copyFixed
  have hstop := hsources s hs ⟨hdata, hfixed⟩
  rw [← run.length_front hfresh] at hstop
  refine ⟨Nat.le_trans hstop (h.length_front_le hfresh), Span.slice_congr fun i hi => ?_⟩
  refine h.getElem?_out hfresh (Nat.lt_of_lt_of_le hi.2 hstop) fun hplace => ?_
  exact Container.header_apart_section hapart hs hdata i
    (mem_header_of_mem_sectionOffsetPlace hplace) hi

/-- Each section of the output has the contents that it had. -/
theorem exists_source {k : Nat} {new : Section} (hnew : layout.container.sections[k]? = some new) :
    ∃ source, sourceOf? layout.image.bytes.length new.header = some source ∧
      source.slice layout.image.bytes = container.held k := by
  obtain ⟨old, hold, hheader, hpinned⟩ := h.exists_section hnew
  have hmem := List.mem_of_getElem? hold
  have hsame : new.header.hasFileData = old.header.hasFileData := by
    rw [hheader]
    rfl
  rw [Container.held_eq hold]
  -- a section without file contents has an empty source wherever it stands
  cases hdata : new.header.hasFileData with
  | false =>
    obtain ⟨source, hsource, hslice⟩ :=
      exists_sourceOf?_of_not_hasFileData layout.image.bytes.length hdata
    rw [hfresh.contents_eq_nil hmem (hsame ▸ hdata)]
    exact ⟨source, hsource, hslice _⟩
  | true =>
    obtain ⟨hsource, -⟩ := hfresh.source_eq hmem (hsame ▸ hdata)
    have hlength := hfresh.length_contents hmem (hsame ▸ hdata)
    suffices hplace : (new.place (container.contents old)).stop ≤ layout.image.bytes.length ∧
        (new.place (container.contents old)).slice layout.image.bytes = container.contents old by
      refine ⟨_, ?_, hplace.2⟩
      have hsize : new.header.size.toNat = (container.contents old).length := by
        rw [hlength, hheader]
      unfold sourceOf?
      rw [if_pos hdata, hsize]
      exact if_pos hplace.1
    -- a stored section was moved behind the fixed part, or stayed in it
    by_cases hmoved : container.fixedStop ≤ new.header.offset
    · obtain ⟨-, hstop, hholds⟩ := h.finishes.arranged.moved k new hnew
        ⟨h.placed new (List.mem_of_getElem? hnew) hdata, hdata, by rwa [h.keeps.fixedStop]⟩
      rw [Container.held_eq hold] at hstop hholds
      have hoffset := h.finishes.offset_le
      exact ⟨by rw [h.length_eq]; omega, hholds.slice _ rfl (Nat.add_sub_cancel_left _ _)⟩
    · obtain ⟨hfixed, hoffset⟩ := Section.pinned_eq_some_iff.mp (hpinned.symm.trans
        (Section.pinned_eq_some_iff.mpr ⟨UInt32.not_le.mp hmoved, rfl⟩))
      have hplace : new.place (container.contents old) = old.source := by
        rw [Section.place, hlength, hsource, hoffset]
      rw [hplace]
      exact h.slice_of_fixed hfresh hapart hmem (hsame ▸ hdata) hfixed

/-- The output is the file rewritten with its sections in their new places. -/
theorem rewritten :
    container.Rewritten layout.container.sections container.held table layout.image.bytes where
  header i hi hplace := h.getElem?_out hfresh
    (Nat.lt_of_lt_of_le hi (Nat.le_trans hfresh.header_le (run.fixedStop_le hfresh))) hplace
  segments i hi := h.getElem?_out hfresh (Nat.lt_of_lt_of_le hi.2 (run.segmentTable_le hfresh))
    fun hplace => Container.header_apart_segments hapart i
      (mem_header_of_mem_sectionOffsetPlace hplace) hi
  fixed_le := Nat.le_trans (run.fixedStop_le hfresh) (h.length_front_le hfresh)
  place := h.holds_place hfresh
  holds_table := by
    rw [h.finishes.container]
    exact h.finishes.holds_table
  table_le := by
    rw [h.finishes.container, h.length_eq]
    exact h.finishes.table_le
  count := h.count
  source _ _ hnew := h.exists_source hfresh hapart hnew

omit hfresh hapart in
/-- The sections keep their names. -/
theorem keepsNames : container.KeepsNames layout.container.sections container.held where
  section_eq k new hnew := by
    obtain ⟨old, hold, hheader, -⟩ := h.exists_section hnew
    rw [hheader]
    exact ⟨old, hold, rfl, rfl⟩
  names _ hnames := Container.held_eq hnames

end Shows

end Repacking

/-! ## Repacking the output -/

/-- As many sections are opened as the header announces. -/
theorem Container.length_sections {data : Bytes} {container : Container}
    (h : ofBytes data = .ok container) :
    container.sections.length = container.header.sectionCount.toNat := by
  obtain ⟨header, segments, headers, sources, fixedStop, -, -, hheaders, hsources, -, -, rfl⟩ :=
    ofBytes_eq_ok_iff.mp h
  obtain ⟨-, rest, htimes⟩ := readTable_eq_ok_iff.mp hheaders
  exact (length_freshSections hsources.length_eq).trans (Decoder.length_of_times htimes)

/-- What the output of repacking a file is when it is opened. -/
structure Container.Reopens (container : Container) (layout : Layout) (table : UInt32)
    (again : Container) : Prop where
  opened : ofBytes layout.image.bytes = .ok again
  header_eq : again.header = { container.header with sectionOffset := table }
  segments_eq : again.segments = container.segments
  fixedStop_eq : again.fixedStop = container.fixedStop
  count : again.sections.length = container.sections.length
  exists_section : ∀ (k : Nat) (new : Section), layout.container.sections[k]? = some new →
    ∃ t, again.sections[k]? = some t ∧ t.header = new.header
  exists_name : ∀ (k : Nat) (old : Section), container.sections[k]? = some old →
    ∃ t, again.sections[k]? = some t ∧ t.name = old.name ∧
      again.contents t = container.contents old

/-- The new file is opened again. -/
theorem Repacking.Shows.exists_reopens {data : Bytes} {container : Container} {length : UInt32}
    {layout : Layout} {run : Repacking container length layout} {table : UInt32}
    (h : run.Shows table) (hopen : Container.ofBytes data = .ok container)
    (hapart : container.parts.Pairwise Span.Apart) :
    ∃ again, container.Reopens layout table again := by
  have hrewritten := h.rewritten (Container.fresh_of_ofBytes hopen) hapart
  obtain ⟨again, hagain, hheader, hfixedStop, hcount, hsections⟩ := hrewritten.exists_ofBytes hopen
  obtain ⟨again', hagain', hnames⟩ := hrewritten.exists_ofBytes_names hopen h.keepsNames
  obtain rfl := Except.ok.inj (hagain.symm.trans hagain')
  refine ⟨again, hagain, hheader, hrewritten.segments_eq hopen hagain, hfixedStop, hcount, ?_, ?_⟩
  · intro k new hnew
    obtain ⟨t, ht, hsame, -⟩ := hsections k new hnew
    exact ⟨t, ht, hsame⟩
  · intro k old hold
    obtain ⟨t, ht, hname, -, hcontents⟩ := hnames k old hold
    exact ⟨t, ht, hname, hcontents.trans (Container.held_eq hold)⟩

namespace Container.Reopens

variable {container again : Container} {layout : Layout} {length table : UInt32}
  {run : Repacking container length layout} (hagain : container.Reopens layout table again)

include hagain

/-- In the new file nothing is placed yet. -/
theorem fresh : again.Fresh := Container.fresh_of_ofBytes hagain.opened

/-- The new file is the image. -/
theorem data_eq : again.data = layout.image.bytes := Container.data_of_ofBytes hagain.opened

/-- The table of sections of the output is the one that was written. -/
theorem header_eq_of {k : Nat} {s t : Section} (hs : layout.container.sections[k]? = some s)
    (ht : again.sections[k]? = some t) : t.header = s.header := by
  obtain ⟨t', ht', hheader⟩ := hagain.exists_section k s hs
  obtain rfl := Option.some.inj (ht.symm.trans ht')
  exact hheader

/-- Repacking the new file starts as repacking the old one did. -/
theorem retraces_start (hfresh : container.Fresh) (h : run.Shows table) :
    (Layout.start container).Retraces again container.sections.length (Layout.start again) := by
  refine .start hfresh hagain.fresh hagain.fixedStop_eq.symm
    hagain.count.symm fun k s t hs ht => ?_
  have hk : k < layout.container.sections.length := by
    rw [h.count]
    exact (List.getElem?_eq_some_iff.mp hs).1
  have hnew := List.getElem?_eq_getElem hk
  obtain ⟨old, hold, hheader, hpinned⟩ := h.exists_section hnew
  obtain rfl := Option.some.inj (hs.symm.trans hold)
  have hsame := hagain.header_eq_of hnew ht
  have hrelaid := hsame.trans hheader
  refine ⟨⟨by rw [hrelaid], by rw [hrelaid], ?_⟩, fun _ => by rw [hrelaid]⟩
  rw [hagain.fixedStop_eq, ← hpinned, Section.pinned, hsame, Section.pinned]

/-- The output is repacked to itself. -/
theorem repack_again (hfresh : container.Fresh) (h : run.Shows table) :
    ∃ layout', Placing.repack (.start again) = .ok length layout' ∧ layout'.image = layout.image := by
  -- No section is generated, so the number that stands for one is that of none.
  have hnone : ∀ t, again.sections[container.sections.length]? ≠ some t := by
    intro t ht
    have hlt := (List.getElem?_eq_some_iff.mp ht).1
    rw [hagain.count] at hlt
    exact Nat.lt_irrefl _ hlt
  have hheader : run.fullLayout.container.header = container.header := by
    rw [← h.container_eq]
    exact h.keeps.header
  have hdata : run.fullLayout.container.data = container.data := by
    rw [← h.container_eq]
    exact h.keeps.data
  obtain ⟨frontLayout, hfixed, hfront⟩ := Placing.retraces_copyFixed hfresh hagain.fresh
    (fun t ht => absurd ht (hnone t)) (hagain.retraces_start hfresh h) run.copyFixed
  have hforesees : again.Foresees run.fullLayout.container := by
    intro k s t hs ht _
    rw [← h.container_eq] at hs
    exact congrArg SectionHeader.offset (hagain.header_eq_of hs ht)
  have hunlisted : run.frontLayout.IsPlaced container.sections.length := by
    intro s hs
    have hlt := (List.getElem?_eq_some_iff.mp hs).1
    rw [hfront.count, hagain.count] at hlt
    exact absurd hlt (Nat.lt_irrefl _)
  obtain ⟨fullLayout, hcopy, hfull⟩ := Placing.retraces_copySections hagain.fresh hfront hunlisted
    run.copySections hforesees
  obtain ⟨segmentLayout, hsegments, hsegment⟩ := Placing.retraces_writeSegments hagain.fresh hfull
    (by rw [hheader, hagain.header_eq]; rfl)
    (by rw [hheader, hdata]; exact Nat.le_trans hfresh.segments_le hfresh.fixed_le)
    run.writeSegments
  obtain ⟨finalLayout, hheaders, hfinal⟩ := Placing.retraces_finish hsegment
    (fun k s t hs ht => hagain.header_eq_of (h.finishes.container ▸ hs) ht) run.writeHeaders
  refine ⟨finalLayout, nonempty_repacking_iff.mp ⟨⟨run.frontStop, frontLayout, hfixed, run.stop,
    fullLayout, hcopy, segmentLayout, hsegments, hheaders⟩⟩, ?_⟩
  exact hfinal.image.eq_of_bytes hagain.data_eq.symm

end Container.Reopens

/-- Repacking a file whose parts do not overlap gives a file with the same segments and the same fixed
part, in which every section has its name, its contents, and its header but for the offset. The table
of sections is at a multiple of 4 and ends the file. Repacking the output changes nothing. -/
theorem repack_preserves_contents {data : Bytes} {container : Container} {length : UInt32}
    {layout : Layout} (hopen : Container.ofBytes data = .ok container)
    (hapart : container.parts.Pairwise Span.Apart)
    (h : Placing.repack (.start container) = .ok length layout) :
    ∃ again, Container.ofBytes layout.image.bytes = .ok again ∧
      again.segments = container.segments ∧ again.fixedStop = container.fixedStop ∧
      again.sections.length = container.sections.length ∧
      (∀ (k : Nat) (old : Section), container.sections[k]? = some old →
        ∃ new, again.sections[k]? = some new ∧ new.name = old.name ∧
          new.header = { old.header with offset := new.header.offset } ∧
          again.contents new = container.contents old) ∧
      (container.sections ≠ [] → again.header.sectionOffset.toNat % 4 = 0 ∧
        layout.image.bytes.length = again.header.sectionOffset.toNat +
          again.header.sectionCount.toNat * Part.section.size) ∧
      ∃ layout', Placing.repack (.start again) = .ok length layout' ∧
        layout'.image.bytes = layout.image.bytes := by
  have hfresh := Container.fresh_of_ofBytes hopen
  obtain ⟨run⟩ := nonempty_repacking_iff.mpr h
  obtain ⟨table, hshows⟩ := run.exists_shows hfresh
  obtain ⟨again, hagain⟩ := hshows.exists_reopens hopen hapart
  refine ⟨again, hagain.opened, hagain.segments_eq, hagain.fixedStop_eq, hagain.count, ?_, ?_, ?_⟩
  -- name and contents are found by the lookup of the new container, the header by the layout
  · intro k old hold
    obtain ⟨new, hnew, hname, hcontents⟩ := hagain.exists_name k old hold
    have hk : k < layout.container.sections.length := by
      rw [hshows.count]
      exact (List.getElem?_eq_some_iff.mp hold).1
    obtain ⟨old', hold', hheader, -⟩ := hshows.exists_section (List.getElem?_eq_getElem hk)
    obtain rfl := Option.some.inj (hold.symm.trans hold')
    refine ⟨new, hnew, hname, ?_, hcontents⟩
    rw [hagain.header_eq_of (List.getElem?_eq_getElem hk) hnew]
    exact hheader
  -- the table is written last, so the image ends with it
  · intro hne
    have hcount : run.segmentLayout.container.sections.length = container.sections.length := by
      rw [← hshows.finishes.container, hshows.count]
    have hne' : run.segmentLayout.container.sections ≠ [] := by
      rw [← List.length_pos_iff, hcount]
      exact List.length_pos_iff.mpr hne
    obtain ⟨haligned, hstop⟩ := hshows.finishes.aligned hne'
    rw [← Container.length_sections hagain.opened, hagain.count, hagain.header_eq, ← hcount]
    exact ⟨haligned, hshows.length_eq.trans hstop⟩
  · obtain ⟨layout', hagain', himage⟩ := hagain.repack_again hfresh hshows
    exact ⟨layout', hagain', congrArg Image.bytes himage⟩

/-- A file with an unused entry, a section that is not aligned, one without contents at an offset
past the end, one behind the first, and an empty one in the header. There is no section of names. -/
def oddSectionsFile : Bytes :=
  [127, 69, 76, 70, 1, 1, 1, 0, 0, 0, 0, 0, 0, 0, 0, 0, 2, 0, 40, 0, 1, 0, 0, 0, 0, 0, 0, 0, 0, 0,
   0, 0, 52, 0, 0, 0, 0, 0, 0, 0, 52, 0, 0, 0, 0, 0, 40, 0, 5, 0, 9, 0] ++
  [0, 0, 0, 0, 0, 0, 0, 0, 0, 0, 0, 0, 0, 0, 0, 0, 0, 0, 0, 0, 0, 0, 0, 0, 0, 0, 0, 0, 0, 0, 0, 0,
   0, 0, 0, 0, 0, 0, 0, 0] ++
  [1, 0, 0, 0, 1, 0, 0, 0, 0, 0, 0, 0, 0, 0, 0, 0, 252, 0, 0, 0, 3, 0, 0, 0, 0, 0, 0, 0, 0, 0, 0,
   0, 16, 0, 0, 0, 0, 0, 0, 0] ++
  [1, 0, 0, 0, 8, 0, 0, 0, 0, 0, 0, 0, 0, 0, 0, 0, 255, 255, 0, 0, 100, 0, 0, 0, 0, 0, 0, 0, 0, 0,
   0, 0, 4, 0, 0, 0, 0, 0, 0, 0] ++
  [3, 0, 0, 0, 3, 0, 0, 0, 0, 0, 0, 0, 0, 0, 0, 0, 255, 0, 0, 0, 2, 0, 0, 0, 0, 0, 0, 0, 0, 0, 0,
   0, 0, 0, 0, 0, 0, 0, 0, 0] ++
  [0, 0, 0, 0, 1, 0, 0, 0, 0, 0, 0, 0, 0, 0, 0, 0, 10, 0, 0, 0, 0, 0, 0, 0, 0, 0, 0, 0, 0, 0, 0,
   0, 1, 0, 0, 0, 0, 0, 0, 0] ++
  [7, 8, 9, 10, 11]

/-- A file with sections that are not aligned, of no contents, and of none of the usual types. -/
theorem repack_preserves_contents_oddSectionsFile :
    ∃ container length layout, Container.ofBytes oddSectionsFile = .ok container ∧
      container.parts.Pairwise Span.Apart ∧
      Placing.repack (.start container) = .ok length layout ∧
      ∃ again, Container.ofBytes layout.image.bytes = .ok again ∧
        again.segments = container.segments ∧ again.fixedStop = container.fixedStop ∧
        again.sections.length = container.sections.length ∧
        (∀ (k : Nat) (old : Section), container.sections[k]? = some old →
          ∃ new, again.sections[k]? = some new ∧ new.name = old.name ∧
            new.header = { old.header with offset := new.header.offset } ∧
            again.contents new = container.contents old) ∧
        (container.sections ≠ [] → again.header.sectionOffset.toNat % 4 = 0 ∧
          layout.image.bytes.length = again.header.sectionOffset.toNat +
            again.header.sectionCount.toNat * Part.section.size) ∧
        ∃ layout', Placing.repack (.start again) = .ok length layout' ∧
          layout'.image.bytes = layout.image.bytes := by
  have hchecks : (Container.ofBytes oddSectionsFile).toOption.any (fun container =>
      decide (container.parts.Pairwise Span.Apart) &&
        match Placing.repack (.start container) with
        | .ok _ _ => true
        | .error _ _ => false) = true := by decide +kernel
  obtain ⟨container, hopen, hchecks⟩ := exists_of_any_toOption hchecks
  rw [Bool.and_eq_true, decide_eq_true_eq] at hchecks
  obtain ⟨hapart, hrepack⟩ := hchecks
  cases hresult : Placing.repack (.start container) with
  | error e layout =>
    rw [hresult] at hrepack
    cases hrepack
  | ok length layout =>
    exact ⟨container, length, layout, hopen, hapart, hresult,
      repack_preserves_contents hopen hapart hresult⟩

end DwarfLines.Elf
