import DwarfLines.Proofs.Elf.Placing

/-!
# The parts of a file

A file consists of its header, its table of segments and the contents of its sections. If its parts
do not overlap, each byte of it belongs to one of them at most.
-/

namespace DwarfLines.Elf.Container

/-- The parts of a file: its header, its table of segments, and the contents of its sections. -/
def parts (container : Container) : List Span :=
  ⟨0, Part.fileHeader.size⟩ :: container.header.segmentTable ::
    (container.sections.filter fun s => s.header.hasFileData).map Section.source

variable {container : Container} (h : container.parts.Pairwise Span.Apart)

include h

/-- The file header is apart from the segment table. -/
theorem header_apart_segments :
    (Span.mk 0 Part.fileHeader.size).Apart container.header.segmentTable := by
  rw [parts, List.pairwise_cons, List.forall_mem_cons] at h
  exact h.1.1

/-- The file header is apart from every stored section. -/
theorem header_apart_section {s : Section} (hs : s ∈ container.sections)
    (hdata : s.header.hasFileData = true) : (Span.mk 0 Part.fileHeader.size).Apart s.source := by
  rw [parts, List.pairwise_cons, List.forall_mem_cons] at h
  exact h.1.2 _ (List.mem_map_of_mem (List.mem_filter.mpr ⟨hs, hdata⟩))

/-- The segment table is apart from every stored section. -/
theorem segments_apart_section {s : Section} (hs : s ∈ container.sections)
    (hdata : s.header.hasFileData = true) : container.header.segmentTable.Apart s.source := by
  rw [parts, List.pairwise_cons, List.pairwise_cons] at h
  exact h.2.1 _ (List.mem_map_of_mem (List.mem_filter.mpr ⟨hs, hdata⟩))

/-- Two stored sections are apart. -/
theorem sections_apart {j k : Nat} {s t : Section} (hjk : j ≠ k)
    (hs : container.sections[j]? = some s) (ht : container.sections[k]? = some t)
    (hdata : s.header.hasFileData = true) (hdata' : t.header.hasFileData = true) :
    s.source.Apart t.source := by
  rw [parts, List.pairwise_cons, List.pairwise_cons, List.pairwise_map, List.pairwise_filter,
    List.pairwise_iff_getElem] at h
  obtain ⟨hj, rfl⟩ := List.getElem?_eq_some_iff.mp hs
  obtain ⟨hk, rfl⟩ := List.getElem?_eq_some_iff.mp ht
  rcases Nat.lt_or_gt_of_ne hjk with hlt | hlt
  · exact h.2.2 j k hj hk hlt hdata hdata'
  · exact (h.2.2 k j hk hj hlt hdata' hdata).symm

end DwarfLines.Elf.Container

namespace DwarfLines.Elf

/-- The offset of the section table is a field of the file header. -/
theorem mem_header_of_mem_sectionOffsetPlace {i : Nat} (hi : i ∈ sectionOffsetPlace) :
    i ∈ Span.mk 0 Part.fileHeader.size := by
  simp only [sectionOffsetPlace, sectionOffsetField, Span.mem_iff, Part.size] at hi ⊢
  omega

end DwarfLines.Elf
