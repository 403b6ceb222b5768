import DwarfLines.DebugFile
import DwarfLines.Proofs.Outcomes

/-!
# Finding debug sections

The debug sections of a file are the first ones of their names. A file with debugging information is
opened exactly when its container is and has these sections.
-/

namespace DwarfLines

open Outcome

namespace Elf.Container

/-- A section is found at an index exactly where the table has one. -/
theorem section?_eq_ok_iff {container : Container} {index : Nat} {found : Section} :
    container.section? index = .ok found ↔ container.sections[index]? = some found := by
  unfold section?
  split <;> simp_all

/-- The contents at an index are those of the section there. -/
theorem contents?_eq_ok_iff {container : Container} {index : Nat} {bytes : Bytes} :
    container.contents? index = .ok bytes ↔
      ∃ found, container.sections[index]? = some found ∧ bytes = container.contents found := by
  unfold contents?
  rw [← bind_pure_comp, bind_eq_ok_iff]
  simp only [pure_eq_ok_iff, section?_eq_ok_iff, eq_comm (a := bytes)]

/-- What there is to say about a section with a given number. -/
def infoOf (index : Nat) (found : Section) : SectionInfo where
  index
  offset := found.header.offset
  size := found.header.size
  alignment := found.header.alignment
  type := found.header.type

/-- The section that a name stands for is the first one of that name. -/
theorem find?_eq_some_iff {container : Container} {name : String} {info : SectionInfo} :
    container.find? name = some info ↔
      ∃ found, container.sections[info.index]? = some found ∧ found.name = name ∧
        info = infoOf info.index found ∧
        ∀ j < info.index, ∀ s, container.sections[j]? = some s → s.name ≠ name := by
  unfold find?
  simp only [Option.map_eq_some_iff, List.find?_eq_some_iff_getElem, Prod.exists, beq_iff_eq,
    List.getElem_zipIdx, List.length_zipIdx, Nat.zero_add]
  constructor
  · rintro ⟨found, index, ⟨hname, i, hi, hfound, hbefore⟩, rfl⟩
    obtain ⟨rfl, rfl⟩ := Prod.mk.inj hfound
    refine ⟨_, List.getElem?_eq_getElem hi, hname, rfl, ?_⟩
    -- the first section of that name, so none before it has it
    intro j hj s hs
    obtain ⟨hj', rfl⟩ := List.getElem?_eq_some_iff.mp hs
    simpa using hbefore j hj
  · rintro ⟨found, hfound, hname, hinfo, hbefore⟩
    obtain ⟨hi, rfl⟩ := List.getElem?_eq_some_iff.mp hfound
    refine ⟨_, info.index, ⟨hname, info.index, hi, rfl, ?_⟩, hinfo.symm⟩
    intro j hj
    simpa using hbefore j hj _ (List.getElem?_eq_getElem (by omega))

end Elf.Container

namespace DebugSections

/-- A section is picked where it is found under its name and is not `SHT_NOBITS`. -/
theorem pick_eq_ok_iff {container : Elf.Container} {name : String} {info : Elf.SectionInfo} :
    pick container name = .ok info ↔
      container.find? name = some info ∧ info.type ≠ Elf.SectionHeader.noBits := by
  unfold pick
  split
  · rename_i hnone
    simp [hnone]
  · rename_i found hfound
    rw [hfound]
    -- the only type that is refused, by the source as well
    by_cases htype : found.type = Elf.SectionHeader.noBits
    · rw [if_pos htype]
      simp only [reduceCtorEq, Option.some.injEq, false_iff]
      rintro ⟨rfl, hne⟩
      exact hne htype
    · rw [if_neg htype]
      simp only [Except.ok.injEq, Option.some.injEq]
      constructor
      · rintro rfl
        exact ⟨rfl, htype⟩
      · exact And.left

/-- The three sections are picked by their names. -/
theorem ofContainer_eq_ok_iff {container : Elf.Container} {sections : DebugSections} :
    ofContainer container = .ok sections ↔
      pick container ".debug_info" = .ok sections.info ∧
        pick container ".debug_abbrev" = .ok sections.abbreviations ∧
        pick container ".debug_line" = .ok sections.line := by
  unfold ofContainer
  simp only [bind_eq_ok_iff, pure_eq_ok_iff]
  constructor
  · rintro ⟨info, hinfo, abbreviations, habbreviations, line, hline, rfl⟩
    exact ⟨hinfo, habbreviations, hline⟩
  · rintro ⟨hinfo, habbreviations, hline⟩
    exact ⟨_, hinfo, _, habbreviations, _, hline, rfl⟩

end DebugSections

/-- A file with debugging information is opened exactly when the container is and has the sections,
and the contents are those of the sections. -/
theorem DebugFile.result_ofBytes_eq_ok_iff {data : Bytes} {file : DebugFile} :
    (ofBytes data).result = .ok file ↔
      Elf.Container.ofBytes data = .ok file.container ∧
        DebugSections.ofContainer file.container = .ok file.sections ∧
        file.container.contents? file.sections.info.index = .ok file.info ∧
        file.container.contents? file.sections.abbreviations.index = .ok file.abbreviations ∧
        file.container.contents? file.sections.line.index = .ok file.line := by
  unfold ofBytes
  simp only [Traced.result_bind, bind_eq_ok_iff, result_during_eq_ok_iff, result_ofElf_eq_ok_iff]
  constructor
  · rintro ⟨container, hcontainer, h⟩
    -- all or none: a section that is not found ends the reading
    cases hsections : DebugSections.ofContainer container with
    | ok sections =>
      rw [hsections] at h
      simp only [Traced.result_bind, bind_eq_ok_iff, result_ofElf_eq_ok_iff, Traced.result_pure,
        Except.ok.injEq, exists_eq_left'] at h
      obtain ⟨info, hinfo, abbreviations, habbreviations, line, hline, rfl⟩ := h
      exact ⟨hcontainer, hsections, hinfo, habbreviations, hline⟩
    | error cause =>
      rw [hsections] at h
      cases h
  · rintro ⟨hcontainer, hsections, hinfo, habbreviations, hline⟩
    refine ⟨_, hcontainer, ?_⟩
    rw [hsections]
    simp only [Traced.result_bind, bind_eq_ok_iff, result_ofElf_eq_ok_iff, Traced.result_pure,
      Except.ok.injEq, exists_eq_left']
    exact ⟨_, hinfo, _, habbreviations, _, hline, rfl⟩

namespace DebugFile

/-- Whether a file has a section of the given name, with these contents. -/
def Has (file : DebugFile) (name : String) (info : Elf.SectionInfo) (bytes : Bytes) : Prop :=
  ∃ found, file.container.sections[info.index]? = some found ∧ found.name = name ∧
    info = Elf.Container.infoOf info.index found ∧ bytes = file.container.contents found

variable {file : DebugFile} {name : String} {info : Elf.SectionInfo} {bytes : Bytes}

/-- A picked section with its contents is one the file has. -/
theorem has_of_pick (hpick : DebugSections.pick file.container name = .ok info)
    (hcontents : file.container.contents? info.index = .ok bytes) : file.Has name info bytes := by
  obtain ⟨hfind, -⟩ := DebugSections.pick_eq_ok_iff.mp hpick
  obtain ⟨found, hfound, hname, hinfo, -⟩ := Elf.Container.find?_eq_some_iff.mp hfind
  obtain ⟨found', hfound', hbytes⟩ := Elf.Container.contents?_eq_ok_iff.mp hcontents
  obtain rfl := Option.some.inj (hfound.symm.trans hfound')
  exact ⟨found, hfound, hname, hinfo, hbytes⟩

/-- A file that was opened has all three debug sections. -/
theorem has_of_ofBytes {data : Bytes} (h : (ofBytes data).result = .ok file) :
    file.Has ".debug_info" file.sections.info file.info ∧
      file.Has ".debug_abbrev" file.sections.abbreviations file.abbreviations ∧
      file.Has ".debug_line" file.sections.line file.line := by
  obtain ⟨-, hsections, hinfo, habbreviations, hline⟩ := result_ofBytes_eq_ok_iff.mp h
  obtain ⟨hinfo', habbreviations', hline'⟩ := DebugSections.ofContainer_eq_ok_iff.mp hsections
  exact ⟨has_of_pick hinfo' hinfo, has_of_pick habbreviations' habbreviations,
    has_of_pick hline' hline⟩

/-- Sections of different names are different sections. -/
theorem Has.index_ne (h : file.Has name info bytes) {name' : String} {info' : Elf.SectionInfo}
    {bytes' : Bytes} (h' : file.Has name' info' bytes') (hne : name ≠ name') :
    info.index ≠ info'.index := by
  intro heq
  obtain ⟨found, hfound, hname, -⟩ := h
  obtain ⟨found', hfound', hname', -⟩ := h'
  rw [heq, hfound'] at hfound
  obtain rfl := Option.some.inj hfound
  exact hne (hname.symm.trans hname')

end DebugFile

end DwarfLines
