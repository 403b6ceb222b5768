import DwarfLines.Proofs.Shrink.Frame

/-!
# Which debug sections are accepted

A debug section is looked up by its name, and the first section of that name has to do: a later one is
not asked for. It is refused if it only takes up memory. An unused entry of the table has no contents in
the file either, but it is accepted.
-/

namespace DwarfLines

open Outcome

/-- Whether a section is the first one of a name. -/
structure Elf.Container.IsFirst (container : Elf.Container) (name : String) (index : Nat)
    (found : Elf.Section) : Prop where
  getElem? : container.sections[index]? = some found
  name_eq : found.name = name
  first : ∀ j < index, ∀ s, container.sections[j]? = some s → s.name ≠ name

theorem Elf.SectionHeader.type_ne_noBits_iff {header : Elf.SectionHeader} :
    header.type ≠ noBits ↔ header.hasFileData = true ∨ header.type = null := by
  unfold hasFileData
  by_cases hnull : header.type = null
  · simp [hnull, noBits, null]
  · simp [hnull]

namespace DebugSections

/-- Whether `info` describes the first section of a name, and that section has contents in the file or
is an unused entry. -/
def Accepts (container : Elf.Container) (name : String) (info : Elf.SectionInfo) : Prop :=
  ∃ found, container.IsFirst name info.index found ∧
    info = Elf.Container.infoOf info.index found ∧
    (found.header.hasFileData = true ∨ found.header.type = Elf.SectionHeader.null)

theorem pick_eq_ok_iff_accepts {container : Elf.Container} {name : String}
    {info : Elf.SectionInfo} : pick container name = .ok info ↔ Accepts container name info := by
  rw [pick_eq_ok_iff, Elf.Container.find?_eq_some_iff]
  constructor
  · rintro ⟨⟨found, hfound, hname, hinfo, hfirst⟩, htype⟩
    refine ⟨found, ⟨hfound, hname, hfirst⟩, hinfo, ?_⟩
    rw [hinfo] at htype
    exact Elf.SectionHeader.type_ne_noBits_iff.mp htype
  · rintro ⟨found, ⟨hfound, hname, hfirst⟩, hinfo, htype⟩
    refine ⟨⟨found, hfound, hname, hinfo, hfirst⟩, ?_⟩
    rw [hinfo]
    exact Elf.SectionHeader.type_ne_noBits_iff.mpr htype

/-- The debug sections of a file are found exactly if each is accepted. -/
theorem ofContainer_eq_ok_iff_accepts (container : Elf.Container) (sections : DebugSections) :
    ofContainer container = .ok sections ↔
      Accepts container ".debug_info" sections.info ∧
        Accepts container ".debug_abbrev" sections.abbreviations ∧
        Accepts container ".debug_line" sections.line := by
  simp only [ofContainer_eq_ok_iff, pick_eq_ok_iff_accepts]

/-- `loadedUnitsFile` with the entry of its `.debug_info` marked as unused. -/
def unusedInfoFile : Bytes := loadedUnitsFile.set 289 0

/-- The `.debug_info` of `unusedInfoFile` is accepted without contents. -/
theorem ofContainer_accepts_unusedInfoFile :
    ∃ container sections found, Elf.Container.ofBytes unusedInfoFile = .ok container ∧
      ofContainer container = .ok sections ∧
      container.IsFirst ".debug_info" sections.info.index found ∧
      found.header.hasFileData = false ∧ container.contents found = [] := by
  have hopens : (Elf.Container.ofBytes unusedInfoFile).toOption.any (fun container =>
      (ofContainer container).toOption.any fun sections => sections.info.index = 0 &&
        container.sections[0]?.any fun found => found.name = ".debug_info" &&
          !found.header.hasFileData && container.contents found = []) = true := by
    decide +kernel
  obtain ⟨container, hopen, hfinds⟩ := exists_of_any_toOption hopens
  obtain ⟨sections, hsections, hfound⟩ := exists_of_any_toOption hfinds
  rw [Bool.and_eq_true, decide_eq_true_eq, Option.any_eq_true] at hfound
  obtain ⟨hindex, found, hfirst, hfound⟩ := hfound
  simp only [Bool.and_eq_true, decide_eq_true_eq, Bool.not_eq_true'] at hfound
  obtain ⟨⟨hname, hdata⟩, hcontents⟩ := hfound
  refine ⟨container, sections, found, hopen, hsections, ⟨?_, hname, ?_⟩, hdata, hcontents⟩
  · rw [hindex, hfirst]
  · rw [hindex]
    exact fun j hj => absurd hj (Nat.not_lt_zero j)

end DebugSections

end DwarfLines
