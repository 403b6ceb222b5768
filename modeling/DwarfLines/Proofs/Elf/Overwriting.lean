import DwarfLines.Proofs.Elf.RetracedSteps
import DwarfLines.Proofs.Elf.Reopening

/-!
# Bytes that are not read

Opening a file reads its header, its tables and the names of its sections. A file of the same length
that has the same bytes there is opened as the same container over other bytes. Laying it out goes the
same way, as long as every section that is copied has the same contents.
-/

namespace DwarfLines.Elf

open Outcome

/-- Where the table of sections is. -/
def FileHeader.sectionTable (header : FileHeader) : Span :=
  ⟨header.sectionOffset.toNat, header.sectionsStop⟩

/-- A header is read from nothing but its own bytes and the length of the file. -/
theorem FileHeader.read_of_same_bytes {data other : Bytes} {header : FileHeader}
    (h : read data = .ok header) (hlength : other.length = data.length)
    (hsame : ∀ i < Part.fileHeader.size, other[i]? = data[i]?) : read other = .ok header := by
  obtain ⟨⟨rest, hdecode⟩, -, -, -, -, -, -, hsegments, hsections⟩ := read_eq_ok_iff.mp h
  obtain ⟨front, back, hdata, hfront, hsize, -⟩ := exists_reads_of_decode hdecode
  -- the offset of the section table stands at its place in both images
  have hplace : (Image.mk data).Holds sectionOffsetField (bytesOfWord32 header.sectionOffset) := by
    have hholds : (Image.mk data).Holds 0
        (front ++ (bytesOfWord32 header.sectionOffset ++ back)) := hdata ▸ .of_append _ _
    have hword := hholds.right.left
    rwa [Nat.zero_add, hfront] at hword
  have hplace' : (Image.mk other).Holds sectionOffsetField (bytesOfWord32 header.sectionOffset) := by
    intro j hj
    rw [length_bytesOfWord32] at hj
    rw [← hplace j (by rwa [length_bytesOfWord32])]
    exact hsame _ (by simp only [Part.size, sectionOffsetField]; omega)
  exact read_of_same h (fun i hi _ => hsame i hi) hplace' (hlength ▸ hsegments)
    (hlength ▸ hsections)

/-- What is behind a section header is not looked at. -/
theorem SectionHeader.local_decode : SectionHeader.decode.Local := by
  unfold decode
  repeat refine Decoder.local_word32.bind fun _ => ?_
  exact .pure _

/-- A section header takes an entry of the table. -/
theorem SectionHeader.takes_decode : SectionHeader.decode.Takes Part.section.size := by
  have word := Decoder.takes_word32
  exact word.bind fun _ => word.bind fun _ => word.bind fun _ => word.bind fun _ =>
    word.bind fun _ => word.bind fun _ => word.bind fun _ => word.bind fun _ =>
    word.bind fun _ => word.bind fun _ => .pure _

namespace Container

/-- The same sections over the bytes of another file. -/
def withData (container : Container) (other : Bytes) : Container := { container with data := other }

/-- Whether another file has the bytes that opening a file reads. -/
structure OpensAs (container : Container) (other : Bytes) : Prop where
  length_eq : other.length = container.data.length
  header : ∀ i < Part.fileHeader.size, other[i]? = container.data[i]?
  segments : ∀ i ∈ container.header.segmentTable, other[i]? = container.data[i]?
  table : ∀ i ∈ container.header.sectionTable, other[i]? = container.data[i]?
  names : ∀ s, container.sections[container.header.nameSection.toNat]? = some s →
    s.source.slice other = container.contents s

/-- A file that has the same headers and names opens to the same container over its own bytes. -/
theorem OpensAs.ofBytes_eq {data other : Bytes} {container : Container}
    (hopen : ofBytes data = .ok container) (h : container.OpensAs other) :
    ofBytes other = .ok (container.withData other) := by
  obtain ⟨header, segments, headers, sources, fixedStop, hheader, hsegments, hheaders, hsources,
    hstop, hfixed, rfl⟩ := ofBytes_eq_ok_iff.mp hopen
  obtain ⟨hlength, hsame, hsegmentsSame, htableSame, hnames⟩ := h
  dsimp only at hlength hsame hsegmentsSame htableSame
  obtain ⟨hsegmentsStop, -⟩ := readTable_eq_ok_iff.mp hsegments
  obtain ⟨hsectionsStop, -⟩ := readTable_eq_ok_iff.mp hheaders
  have hheader' := FileHeader.read_of_same_bytes hheader hlength hsame
  have hsegments' : readSegments other header = .ok segments :=
    readTable_of_same Segment.local_decode Segment.takes_decode hsegments
      (by rwa [hlength]) fun i hstart hstop => hsegmentsSame i ⟨hstart, hstop⟩
  have hheaders' : readSectionHeaders other header = .ok headers :=
    readTable_of_same SectionHeader.local_decode SectionHeader.takes_decode hheaders
      (by rwa [hlength]) fun i hstart hstop => htableSame i ⟨hstart, hstop⟩
  -- The names are the only contents that go into the sections.
  have hnames' : (sources[header.nameSection.toNat]?.map fun source => source.slice other) =
      sources[header.nameSection.toNat]?.map fun source => source.slice data := by
    cases hsource : sources[header.nameSection.toNat]? with
    | none => rfl
    | some source =>
      have hindex := (List.getElem?_eq_some_iff.mp hsource).1
      have hfound := List.getElem?_eq_getElem (hsources.length_eq ▸ hindex)
      have hsame := hnames _ (getElem?_freshSections.mpr ⟨_, source, hfound, hsource, rfl⟩)
      rw [Option.map_some, Option.map_some]
      exact congrArg some hsame
  refine ofBytes_eq_ok_iff.mpr ⟨header, segments, headers, sources, fixedStop, hheader', hsegments',
    hheaders', by rwa [hlength], hstop, by rwa [hlength], ?_⟩
  unfold withData freshSections
  dsimp only
  rw [hnames']

end Container

/-! ## The steps -/

/-- The same layout over the bytes of another file. -/
def Layout.withData (layout : Layout) (other : Bytes) : Layout :=
  { layout with container := layout.container.withData other }

namespace Layout

/-- Whether another file has the contents of all sections but that with number `line`. -/
def SharesAllBut (line : Nat) (other : Bytes) (layout : Layout) : Prop :=
  ∀ (k : Nat) (s : Section), k ≠ line → layout.container.sections[k]? = some s →
    s.source.slice other = layout.container.contents s

variable {line : Nat} {other : Bytes} {layout : Layout}

/-- A section may be replaced by one from the same place. -/
theorem SharesAllBut.setSection (h : layout.SharesAllBut line other) {index : Nat}
    {found new : Section} (hfound : layout.container.sections[index]? = some found)
    (hsource : new.source = found.source) : (layout.setSection index new).SharesAllBut line other := by
  intro k s hk hs
  rw [getElem?_setSection hfound] at hs
  split at hs
  · rename_i hindex
    obtain rfl := Option.some.inj hs
    have hsame := h k found hk (hindex ▸ hfound)
    rw [← hsource] at hsame
    exact hsame.trans (congrArg (fun source => source.slice layout.container.data) hsource.symm)
  · exact h k s hk hs

/-- The fixed part ends where it did, whatever the bytes. -/
@[simp]
theorem fixedStop_withData (layout : Layout) (other : Bytes) :
    (layout.withData other).container.fixedStop = layout.container.fixedStop := rfl

/-- A section with the same contents is moved alike. -/
theorem move_withData (index : Nat) {found : Section} (offset : UInt32)
    (hsame : found.source.slice other = layout.container.contents found) :
    (layout.withData other).move index found offset =
      (layout.move index found offset).withData other := by
  have hcontents : (layout.withData other).container.contents found =
      layout.container.contents found := hsame
  rw [move, hcontents]
  rfl

/-- A section with the same contents is kept alike. -/
theorem keep_withData (index : Nat) {found : Section}
    (hsame : found.source.slice other = layout.container.contents found) :
    (layout.withData other).keep index found = (layout.keep index found).withData other := by
  have hcontents : (layout.withData other).container.contents found =
      layout.container.contents found := hsame
  rw [keep, hcontents]
  rfl

end Layout

namespace Placing

variable {line : Nat} {other : Bytes} {before after : Layout}

/-- A section that is copied is copied from the other file, too, unless it is the one whose contents
differ. -/
theorem copySection_withData (hshares : before.SharesAllBut line other) {dest stop : UInt32}
    {index : Nat} (hline : index = line → before.IsPlaced line)
    (hstep : copySection dest index before = .ok stop after) :
    copySection dest index (before.withData other) = .ok stop (after.withData other) ∧
      after.SharesAllBut line other := by
  obtain ⟨s, hs, hstep⟩ := copySection_eq_ok_iff.mp hstep
  rw [copySection_eq_ok_iff]
  split at hstep
  -- the section of the line programs is placed before the copies start, so it is passed over
  · rename_i hskip
    obtain ⟨rfl, rfl⟩ := hstep
    exact ⟨⟨s, hs, by rw [if_pos hskip]; exact ⟨rfl, rfl⟩⟩, hshares⟩
  · rename_i hmove
    obtain ⟨offset, last, hoffset, hlast, hstop, rfl⟩ := hstep
    have hne : index ≠ line := by
      intro heq
      rw [hline heq s (heq ▸ hs)] at hmove
      exact hmove rfl
    have hsame := hshares index s hne hs
    refine ⟨⟨s, hs, ?_⟩, hshares.setSection hs rfl⟩
    rw [if_neg hmove]
    exact ⟨offset, last, hoffset, hlast, hstop, (Layout.move_withData index offset hsame).symm⟩

/-- The sections that are left are copied alike, as the one that differs has its place. -/
theorem copySections_withData (hshares : before.SharesAllBut line other)
    (hline : before.IsPlaced line) {dest stop : UInt32}
    (hstep : copySections dest before = .ok stop after) :
    copySections dest (before.withData other) = .ok stop (after.withData other) := by
  unfold copySections at hstep ⊢
  simp only [state_bind_eq_ok_iff, state_get_eq_ok_iff] at hstep ⊢
  obtain ⟨_, _, ⟨rfl, rfl⟩, hstep⟩ := hstep
  obtain ⟨after', hsteps, rfl, -⟩ := state_foldlM_lockstep (fun _ => True)
    (fun layout layout' => layout' = layout.withData other ∧ layout.SharesAllBut line other ∧
      layout.IsPlaced line) hstep trivial ⟨rfl, hshares, hline⟩ (fun _ _ _ _ _ _ _ => trivial)
    fun index dest layout stop layout' between hstep _ hbetween => by
      obtain ⟨rfl, hshares, hline⟩ := hbetween
      obtain ⟨hstep', hshares'⟩ := copySection_withData hshares (fun _ => hline) hstep
      exact ⟨_, hstep', rfl, hshares', isPlaced_copySection hstep hline⟩
  exact ⟨_, _, ⟨rfl, rfl⟩, hsteps⟩

/-- Whether the section whose contents differ starts behind the fixed part. -/
def StartsBehind (line : Nat) (layout : Layout) : Prop :=
  ∀ s, layout.container.sections[line]? = some s → layout.container.fixedStop ≤ s.header.offset

/-- A section that stays is passed over alike, as the one that differs is behind the fixed part. -/
theorem keepSection_withData (hshares : before.SharesAllBut line other)
    (hline : StartsBehind line before) {dest stop : UInt32} {index : Nat}
    (hstep : keepSection dest index before = .ok stop after) :
    keepSection dest index (before.withData other) = .ok stop (after.withData other) ∧
      after.SharesAllBut line other ∧ StartsBehind line after := by
  obtain ⟨s, hs, hstep⟩ := keepSection_eq_ok_iff.mp hstep
  rw [keepSection_eq_ok_iff]
  -- the line section starts behind the fixed part, so it is never kept
  split at hstep
  · rename_i hskip
    obtain ⟨rfl, rfl⟩ := hstep
    refine ⟨⟨s, hs, ?_⟩, hshares, hline⟩
    rw [Layout.fixedStop_withData, if_pos hskip]
    exact ⟨rfl, rfl⟩
  · rename_i hkeep
    obtain ⟨last, hlast, rfl, rfl⟩ := hstep
    have hne : index ≠ line := by
      rintro rfl
      rw [decide_eq_true (hline s hs), Bool.or_true] at hkeep
      exact hkeep rfl
    have hsame := hshares index s hne hs
    refine ⟨⟨s, hs, ?_⟩, hshares.setSection hs rfl, ?_⟩
    · rw [Layout.fixedStop_withData, if_neg hkeep]
      exact ⟨last, hlast, rfl, (Layout.keep_withData index hsame).symm⟩
    · intro t ht
      have hget := Layout.getElem?_setSection hs { s with placed := true } line
      rw [if_neg (Ne.symm hne)] at hget
      exact hline t (hget.symm.trans ht)

/-- The fixed part is copied alike, as the bytes differ behind it. -/
theorem copyFixed_withData {container : Container}
    (hsame : ∀ i < container.fixedStop.toNat, other[i]? = container.data[i]?)
    (hshares : (Layout.start container).SharesAllBut line other)
    (hline : StartsBehind line (.start container)) {stop : UInt32}
    (hstep : copyFixed (.start container) = .ok stop after) :
    copyFixed (.start (container.withData other)) = .ok stop (after.withData other) ∧
      after.SharesAllBut line other := by
  unfold copyFixed at hstep ⊢
  simp only [state_bind_eq_ok_iff, state_get_eq_ok_iff, state_modify_eq_ok_iff] at hstep ⊢
  obtain ⟨_, _, ⟨rfl, rfl⟩, _, _, rfl, hstep⟩ := hstep
  have htake : other.take container.fixedStop.toNat =
      container.data.take container.fixedStop.toNat := by
    apply List.ext_getElem?
    intro i
    rw [List.getElem?_take, List.getElem?_take]
    split
    · rename_i hi
      exact hsame i hi
    · rfl
  -- the invariant: the two layouts differ in the data only, and agree on every section but one
  obtain ⟨after', hsteps, rfl, hshares', -⟩ := state_foldlM_lockstep (fun _ => True)
    (fun layout layout' => layout' = layout.withData other ∧ layout.SharesAllBut line other ∧
      StartsBehind line layout) hstep trivial ⟨rfl, hshares, hline⟩
    (fun _ _ _ _ _ _ _ => trivial)
    fun index dest layout stop layout' between hstep _ hbetween => by
      obtain ⟨rfl, hshares, hline⟩ := hbetween
      obtain ⟨hstep', hafter⟩ := keepSection_withData hshares hline hstep
      exact ⟨_, hstep', rfl, hafter⟩
  refine ⟨⟨_, _, ⟨rfl, rfl⟩, (), _, rfl, ?_⟩, hshares'⟩
  have hfront : (Layout.start (container.withData other)).writeAt 0
      (other.take container.fixedStop.toNat) =
        ((Layout.start container).writeAt 0
          (container.data.take container.fixedStop.toNat)).withData other := by
    rw [htake]
    rfl
  exact hfront ▸ hsteps

/-- The size of a section is set alike. -/
theorem setSize_withData (hshares : before.SharesAllBut line other) {index : Nat} {size : UInt32}
    {u : Unit} (hstep : setSize index size before = .ok u after) :
    setSize index size (before.withData other) = .ok u (after.withData other) ∧
      after.SharesAllBut line other := by
  obtain ⟨s, hs, rfl⟩ := setSize_eq_ok_iff.mp hstep
  exact ⟨setSize_eq_ok_iff.mpr ⟨s, hs, rfl⟩, hshares.setSection hs rfl⟩

/-- A section is marked alike. -/
theorem markPlaced_withData (hshares : before.SharesAllBut line other) {index : Nat}
    {offset : UInt32} {u : Unit} (hstep : markPlaced index offset before = .ok u after) :
    markPlaced index offset (before.withData other) = .ok u (after.withData other) ∧
      after.SharesAllBut line other := by
  obtain ⟨s, hs, rfl⟩ := markPlaced_eq_ok_iff.mp hstep
  exact ⟨markPlaced_eq_ok_iff.mpr ⟨s, hs, rfl⟩, hshares.setSection hs rfl⟩

/-- A section that is marked has its place. -/
theorem isPlaced_markPlaced {index : Nat} {offset : UInt32} {u : Unit}
    (hstep : markPlaced index offset before = .ok u after) : after.IsPlaced index := by
  obtain ⟨s, hs, rfl⟩ := markPlaced_eq_ok_iff.mp hstep
  intro t ht
  rw [Layout.getElem?_setSection hs, if_pos rfl] at ht
  cases ht
  rfl

/-- Setting a size takes no place away. -/
theorem isPlaced_setSize {index k : Nat} {size : UInt32} {u : Unit}
    (hstep : setSize index size before = .ok u after) (h : before.IsPlaced k) : after.IsPlaced k := by
  obtain ⟨s, hs, rfl⟩ := setSize_eq_ok_iff.mp hstep
  intro t ht
  rw [Layout.getElem?_setSection hs] at ht
  split at ht
  · rename_i hk
    cases ht
    exact h s (hk ▸ hs)
  · exact h t ht

/-- The segment headers are written alike. -/
theorem writeSegments_withData
    (hsame : ∀ i ∈ before.container.header.segmentTable, other[i]? = before.container.data[i]?)
    {u : Unit} (hstep : writeSegments before = .ok u after) :
    writeSegments (before.withData other) = .ok u (after.withData other) := by
  obtain rfl := state_modify_eq_ok_iff.mp hstep
  refine state_modify_eq_ok_iff.mpr ?_
  have hslice := Span.slice_congr hsame
  show (before.withData other).writeAt _ (before.container.header.segmentTable.slice other) = _
  rw [hslice]
  rfl

/-- The section table is written alike. -/
theorem writeSectionHeaders_withData (hsections : before.container.sections ≠ [])
    {offset stop : UInt32} (hstep : writeSectionHeaders offset before = .ok stop after) :
    writeSectionHeaders offset (before.withData other) = .ok stop (after.withData other) := by
  obtain ⟨start, hstart, hstop, rfl⟩ := (writeSectionHeaders_eq_ok_iff hsections).mp hstep
  have hsections' : (before.withData other).container.sections ≠ [] := hsections
  exact (writeSectionHeaders_eq_ok_iff hsections').mpr ⟨start, hstart, hstop, rfl⟩

end Placing

end DwarfLines.Elf
