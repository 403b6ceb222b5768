import DwarfLines.Elf.Layout
import DwarfLines.Proofs.DebugFile

/-!
# What a step of laying out a file does

Each step is taken apart once: what it found, which offsets it computed, and the layout it left.
Whatever the steps do, they leave the *skeleton* of a container alone, which is everything but where
its sections are placed. Once all sections were copied the container is *settled*: there is nothing
left to copy.
-/

namespace DwarfLines.Elf

open Outcome

/-- An offset is aligned to the next multiple, if there is one in 32 bits. An alignment of 0 is one
of 1. -/
theorem alignUp?_eq_some_iff {offset alignment result : UInt32} :
    alignUp? offset alignment = some result ↔
      result.toNat = (offset.toNat + max alignment.toNat 1 - 1) / max alignment.toNat 1 *
        max alignment.toNat 1 :=
  word32?_eq_some_iff

/-- The first multiple of `alignment` that is not below `offset`. -/
def aligned (offset : Nat) (alignment : UInt32) : Nat :=
  (offset + max alignment.toNat 1 - 1) / max alignment.toNat 1 * max alignment.toNat 1

/-- Aligning never goes back. -/
theorem le_aligned (offset : Nat) (alignment : UInt32) : offset ≤ aligned offset alignment := by
  unfold aligned
  have hpos : 0 < max alignment.toNat 1 := by omega
  generalize max alignment.toNat 1 = a at hpos
  have hdiv := Nat.div_add_mod (offset + a - 1) a
  have hmod := Nat.mod_lt (offset + a - 1) hpos
  rw [Nat.mul_comm] at hdiv
  omega

/-- An aligned offset is the next multiple of the alignment. -/
theorem toNat_of_alignUp? {offset alignment result : UInt32}
    (h : alignUp? offset alignment = some result) :
    result.toNat = aligned offset.toNat alignment := alignUp?_eq_some_iff.mp h

/-- Aligning does not go back. -/
theorem le_of_alignUp? {offset alignment result : UInt32}
    (h : alignUp? offset alignment = some result) : offset.toNat ≤ result.toNat := by
  rw [toNat_of_alignUp? h]
  exact le_aligned _ _

/-- An offset is advanced as long as 32 bits hold it. -/
theorem advance?_eq_some_iff {offset result : UInt32} {n : Nat} :
    advance? offset n = some result ↔ result.toNat = offset.toNat + n :=
  word32?_eq_some_iff

namespace Placing

variable {before after : Layout} {index : Nat}

/-- A step that needs an offset goes on where there is one, and changes nothing. -/
theorem orInvalidOffset_eq_ok_iff {α : Type} {o : Option α} {a : α} :
    orInvalidOffset o before = .ok a after ↔ o = some a ∧ before = after := by
  cases o with
  | none => simp [orInvalidOffset, state_throw_ne_ok]
  | some b => simp [orInvalidOffset, state_pure_eq_ok_iff]

/-- A section that is there is looked up, and nothing changes. -/
theorem getSection_eq_ok_iff {found : Section} :
    getSection index before = .ok found after ↔
      before.container.sections[index]? = some found ∧ before = after := by
  unfold getSection
  simp only [state_bind_eq_ok_iff, state_get_eq_ok_iff]
  constructor
  · rintro ⟨_, _, ⟨rfl, rfl⟩, h⟩
    cases hfound : before.container.section? index with
    | ok found' =>
      rw [hfound] at h
      obtain ⟨rfl, rfl⟩ := state_pure_eq_ok_iff.mp h
      exact ⟨Container.section?_eq_ok_iff.mp hfound, rfl⟩
    | error e =>
      rw [hfound] at h
      cases h
  · rintro ⟨hfound, rfl⟩
    refine ⟨_, _, ⟨rfl, rfl⟩, ?_⟩
    rw [Container.section?_eq_ok_iff.mpr hfound]
    rfl

/-- Copying a section passes over it, or moves it to the first aligned offset and goes on after its
end. -/
theorem copySection_eq_ok_iff {dest stop : UInt32} :
    copySection dest index before = .ok stop after ↔
      ∃ found, before.container.sections[index]? = some found ∧
        if found.placed || !found.header.hasFileData then stop = dest ∧ after = before
        else ∃ offset last, alignUp? dest found.header.alignment = some offset ∧
          advance? offset found.source.length = some last ∧
          alignUp? last found.header.alignment = some stop ∧
          after = before.move index found offset := by
  unfold copySection
  simp only [state_bind_eq_ok_iff, getSection_eq_ok_iff]
  constructor
  -- an `iff` for each step, so that a run can be taken apart and put together again
  · rintro ⟨found, _, ⟨hfound, rfl⟩, h⟩
    refine ⟨found, hfound, ?_⟩
    split at h
    · rename_i hskip
      obtain ⟨rfl, rfl⟩ := state_pure_eq_ok_iff.mp h
      rw [if_pos hskip]
      exact ⟨rfl, rfl⟩
    · rename_i hmove
      simp only [state_bind_eq_ok_iff, orInvalidOffset_eq_ok_iff, state_modify_eq_ok_iff] at h
      obtain ⟨offset, _, ⟨hoffset, rfl⟩, _, _, rfl, last, _, ⟨hlast, rfl⟩, hstop, rfl⟩ := h
      rw [if_neg hmove]
      exact ⟨offset, last, hoffset, hlast, hstop, rfl⟩
  · rintro ⟨found, hfound, h⟩
    refine ⟨found, before, ⟨hfound, rfl⟩, ?_⟩
    split at h
    · rename_i hskip
      obtain ⟨rfl, rfl⟩ := h
      rw [if_pos hskip]
      rfl
    · rename_i hmove
      obtain ⟨offset, last, hoffset, hlast, hstop, rfl⟩ := h
      rw [if_neg hmove]
      simp only [state_bind_eq_ok_iff, orInvalidOffset_eq_ok_iff, state_modify_eq_ok_iff]
      exact ⟨offset, before, ⟨hoffset, rfl⟩, (), _, rfl, last, _, ⟨hlast, rfl⟩, hstop, rfl⟩

/-- Keeping a section passes over it, or writes it where it was. -/
theorem keepSection_eq_ok_iff {dest stop : UInt32} :
    keepSection dest index before = .ok stop after ↔
      ∃ found, before.container.sections[index]? = some found ∧
        if found.placed || !found.header.hasFileData ||
            before.container.fixedStop ≤ found.header.offset then stop = dest ∧ after = before
        else ∃ last, last.toNat = found.source.stop ∧ stop = max dest last ∧
          after = before.keep index found := by
  unfold keepSection
  simp only [state_bind_eq_ok_iff, getSection_eq_ok_iff, state_get_eq_ok_iff]
  constructor
  -- as for a copy, with the test against the fixed part as a third reason to skip
  · rintro ⟨found, _, ⟨hfound, rfl⟩, _, _, ⟨rfl, rfl⟩, h⟩
    refine ⟨found, hfound, ?_⟩
    split at h
    · rename_i hskip
      obtain ⟨rfl, rfl⟩ := state_pure_eq_ok_iff.mp h
      rw [if_pos hskip]
      exact ⟨rfl, rfl⟩
    · rename_i hkeep
      simp only [state_bind_eq_ok_iff, orInvalidOffset_eq_ok_iff, state_modify_eq_ok_iff,
        state_pure_eq_ok_iff, word32?_eq_some_iff] at h
      obtain ⟨_, _, rfl, last, _, ⟨hlast, rfl⟩, rfl, rfl⟩ := h
      rw [if_neg hkeep]
      exact ⟨last, hlast, rfl, rfl⟩
  · rintro ⟨found, hfound, h⟩
    refine ⟨found, before, ⟨hfound, rfl⟩, before, before, ⟨rfl, rfl⟩, ?_⟩
    split at h
    · rename_i hskip
      obtain ⟨rfl, rfl⟩ := h
      rw [if_pos hskip]
      rfl
    · rename_i hkeep
      obtain ⟨last, hlast, rfl, rfl⟩ := h
      rw [if_neg hkeep]
      simp only [state_bind_eq_ok_iff, orInvalidOffset_eq_ok_iff, state_modify_eq_ok_iff,
        state_pure_eq_ok_iff, word32?_eq_some_iff]
      exact ⟨(), _, rfl, last, _, ⟨hlast, rfl⟩, rfl, rfl⟩

/-- A step that changes a section replaces it by what is made of it. -/
theorem changeSection_eq_ok_iff (change : Section → Section) {u : Unit} :
    (do
      let found ← getSection index
      modify fun layout => layout.setSection index (change found) : Placing Unit) before =
        .ok u after ↔
      ∃ found, before.container.sections[index]? = some found ∧
        after = before.setSection index (change found) := by
  simp only [state_bind_eq_ok_iff, getSection_eq_ok_iff, state_modify_eq_ok_iff]
  constructor
  · rintro ⟨found, _, ⟨hfound, rfl⟩, rfl⟩
    exact ⟨found, hfound, rfl⟩
  · rintro ⟨found, hfound, rfl⟩
    exact ⟨found, _, ⟨hfound, rfl⟩, rfl⟩

/-- Setting the size of a section changes the size in its header. -/
theorem setSize_eq_ok_iff {size : UInt32} {u : Unit} :
    setSize index size before = .ok u after ↔
      ∃ found, before.container.sections[index]? = some found ∧
        after = before.setSection index { found with header := { found.header with size } } :=
  changeSection_eq_ok_iff fun found => { found with header := { found.header with size } }

/-- Marking a section changes the offset in its header and gives it its place. -/
theorem markPlaced_eq_ok_iff {offset : UInt32} {u : Unit} :
    markPlaced index offset before = .ok u after ↔
      ∃ found, before.container.sections[index]? = some found ∧
        after = before.setSection index
          { found with header := { found.header with offset }, placed := true } :=
  changeSection_eq_ok_iff fun found =>
    { found with header := { found.header with offset }, placed := true }

/-- The table of sections goes to a multiple of 4, the header points at it, and the image ends after
it. -/
theorem writeSectionHeaders_eq_ok_iff {offset stop : UInt32}
    (hsections : before.container.sections ≠ []) :
    writeSectionHeaders offset before = .ok stop after ↔
      ∃ start, alignUp? offset 4 = some start ∧
        advance? start (before.container.sections.length * Part.section.size) = some stop ∧
        after = { before with
          image := ((before.image.writeAt start.toNat
            (before.container.sections.flatMap fun s => s.header.bytes)).writeWord32
              sectionOffsetField start).setLength stop.toNat } := by
  unfold writeSectionHeaders writeSectionHeaders.finish
  have hempty : before.container.sections.isEmpty = false := by simpa using hsections
  simp only [state_bind_eq_ok_iff, state_get_eq_ok_iff]
  constructor
  -- with sections the table is aligned and written; without any its offset is zero
  · rintro ⟨_, _, ⟨rfl, rfl⟩, h⟩
    rw [hempty] at h
    simp only [state_bind_eq_ok_iff, orInvalidOffset_eq_ok_iff, state_modify_eq_ok_iff,
      state_pure_eq_ok_iff, Bool.false_eq_true, if_false] at h
    obtain ⟨start, _, ⟨hstart, rfl⟩, _, _, rfl, _, _, ⟨hstop, rfl⟩, _, _, rfl, rfl, rfl⟩ := h
    exact ⟨start, hstart, hstop, rfl⟩
  · rintro ⟨start, hstart, hstop, rfl⟩
    refine ⟨before, before, ⟨rfl, rfl⟩, ?_⟩
    rw [hempty]
    simp only [state_bind_eq_ok_iff, orInvalidOffset_eq_ok_iff, state_modify_eq_ok_iff,
      state_pure_eq_ok_iff, Bool.false_eq_true, if_false]
    exact ⟨start, _, ⟨hstart, rfl⟩, (), _, rfl, stop, _, ⟨hstop, rfl⟩, (), _, rfl, rfl, rfl⟩

end Placing

/-! ## What stays -/

/-- A section without its place. -/
def Section.skeleton (s : Section) : Section :=
  { s with header := { s.header with offset := 0 }, placed := false }

/-- A container without the places of its sections. -/
def Container.skeleton (container : Container) : Container :=
  { container with sections := container.sections.map Section.skeleton }

/-- A section that was placed at `offset`. -/
def Section.placedAt (s : Section) (offset : UInt32) : Section :=
  { s with header := { s.header with offset }, placed := true }

/-- Sections with one skeleton have the same header but for the offset. -/
theorem Section.header_of_skeleton_eq {s t : Section} (h : s.skeleton = t.skeleton) :
    s.header = { t.header with offset := s.header.offset } :=
  congrArg (fun r : Section => { r.header with offset := s.header.offset }) h

/-- The name of a section is part of what stays. -/
theorem Section.name_of_skeleton_eq {s t : Section} (h : s.skeleton = t.skeleton) :
    s.name = t.name := by
  have := congrArg Section.name h
  exact this

theorem Section.skeleton_placedAt (s : Section) (offset : UInt32) :
    (s.placedAt offset).skeleton = s.skeleton := rfl

/-- Where a section starts, if that is in the fixed part. -/
def Section.pinned (fixedStop : UInt32) (s : Section) : Option UInt32 :=
  if s.header.offset < fixedStop then some s.header.offset else none

/-- A section behind the fixed part is not pinned. -/
theorem Section.pinned_eq_none_iff {fixedStop : UInt32} {s : Section} :
    s.pinned fixedStop = none ↔ fixedStop ≤ s.header.offset := by
  unfold pinned
  rw [← UInt32.not_lt]
  split <;> simp_all

/-- A section in the fixed part is pinned to its offset. -/
theorem Section.pinned_eq_some_iff {fixedStop offset : UInt32} {s : Section} :
    s.pinned fixedStop = some offset ↔ s.header.offset < fixedStop ∧ s.header.offset = offset := by
  unfold pinned
  split
  · rename_i h
    simp only [h, true_and, Option.some.injEq]
  · rename_i h
    simp only [h, false_and, reduceCtorEq]

/-- The places of sections in the fixed part. -/
def Container.pinned (container : Container) : List (Option UInt32) :=
  container.sections.map (Section.pinned container.fixedStop)

/-- Whether a layout comes from another by giving sections a place outside the fixed part that had
none. -/
structure Layout.Keeps (before after : Layout) : Prop where
  skeleton : after.container.skeleton = before.container.skeleton
  pinned : after.container.pinned = before.container.pinned
  placed : ∀ (k : Nat) (s : Section), before.container.sections[k]? = some s → s.placed = true →
    after.container.sections[k]? = some s

/-- Replacing a section replaces no other. -/
theorem Layout.getElem?_setSection {layout : Layout} {index : Nat} {found : Section}
    (hfound : layout.container.sections[index]? = some found) (new : Section) (j : Nat) :
    (layout.setSection index new).container.sections[j]? =
      if j = index then some new else layout.container.sections[j]? := by
  have hindex := (List.getElem?_eq_some_iff.mp hfound).1
  show (layout.container.sections.set index new)[j]? = _
  rw [List.getElem?_set]
  by_cases hj : index = j
  · rw [if_pos hj, if_pos hindex, if_pos hj.symm]
  · rw [if_neg hj, if_neg (Ne.symm hj)]

/-- Moving a section moves no other. -/
theorem Layout.getElem?_move {layout : Layout} {index : Nat} {found : Section}
    (hfound : layout.container.sections[index]? = some found) (offset : UInt32) (j : Nat) :
    (layout.move index found offset).container.sections[j]? =
      if j = index then some (found.placedAt offset) else layout.container.sections[j]? := by
  have hwritten : (layout.writeAt offset.toNat (layout.container.contents found)).container.sections[
      index]? = some found := hfound
  exact getElem?_setSection hwritten (found.placedAt offset) j

/-- Replacing an item by one with the same image changes no image. -/
theorem map_set_eq {α β : Type} {f : α → β} {xs : List α} {index : Nat} {old new : α}
    (hold : xs[index]? = some old) (hnew : f new = f old) : (xs.set index new).map f = xs.map f := by
  have hindex := (List.getElem?_eq_some_iff.mp hold).1
  apply List.ext_getElem?
  intro j
  rw [List.getElem?_map, List.getElem?_map, List.getElem?_set]
  by_cases hj : index = j
  · subst hj
    rw [if_pos rfl, if_pos hindex, hold, Option.map_some, Option.map_some, hnew]
  · rw [if_neg hj]

namespace Layout.Keeps

/-- A layout keeps itself. -/
theorem refl (layout : Layout) : layout.Keeps layout := ⟨rfl, rfl, fun _ _ h _ => h⟩

/-- What is kept in two steps is kept. -/
theorem trans {first second third : Layout} (h : first.Keeps second) (h' : second.Keeps third) :
    first.Keeps third :=
  ⟨h'.skeleton.trans h.skeleton, h'.pinned.trans h.pinned,
    fun k s hs hplaced => h'.placed k s (h.placed k s hs hplaced) hplaced⟩

/-- Writing to the image keeps the sections. -/
theorem writeAt (layout : Layout) (offset : Nat) (data : Bytes) :
    layout.Keeps (layout.writeAt offset data) := ⟨rfl, rfl, fun _ _ h _ => h⟩

/-- A section that has no place yet is given one outside the fixed part. -/
theorem setPlace {layout : Layout} {index : Nat} {found : Section}
    (hfound : layout.container.sections[index]? = some found) (hplaced : found.placed = false)
    (hold : layout.container.fixedStop ≤ found.header.offset) {offset : UInt32}
    (hnew : layout.container.fixedStop ≤ offset) :
    layout.Keeps (layout.setSection index (found.placedAt offset)) := by
  refine ⟨?_, map_set_eq hfound ?_, ?_⟩
  · show Container.mk _ _ _ _ _ = Container.mk _ _ _ _ _
    simp only [Layout.setSection, map_set_eq hfound (found.skeleton_placedAt offset)]
  · exact (Section.pinned_eq_none_iff.mpr hnew).trans (Section.pinned_eq_none_iff.mpr hold).symm
  · intro k s hs hs'
    rw [getElem?_setSection hfound]
    split
    · rename_i hk
      rw [hk, hfound] at hs
      obtain rfl := Option.some.inj hs
      rw [hplaced] at hs'
      cases hs'
    · exact hs

/-- The fixed part of a layout that is kept ends where it did. -/
theorem fixedStop {before after : Layout} (h : before.Keeps after) :
    after.container.fixedStop = before.container.fixedStop := by
  have := congrArg Container.fixedStop h.skeleton
  exact this

/-- The file that a layout was made from stays. -/
theorem data {before after : Layout} (h : before.Keeps after) :
    after.container.data = before.container.data := by
  have := congrArg Container.data h.skeleton
  exact this

/-- The header of the file stays. -/
theorem header {before after : Layout} (h : before.Keeps after) :
    after.container.header = before.container.header := by
  have := congrArg Container.header h.skeleton
  exact this

/-- No section is added or lost. -/
theorem length {before after : Layout} (h : before.Keeps after) :
    after.container.sections.length = before.container.sections.length := by
  have := congrArg (fun c => c.sections.length) h.skeleton
  simpa [Container.skeleton] using this

/-- Each section is what it was but for a place of its own. -/
theorem section_of_getElem? {before after : Layout} (h : before.Keeps after) {index : Nat}
    {new : Section} (hnew : after.container.sections[index]? = some new) :
    ∃ old, before.container.sections[index]? = some old ∧ new.skeleton = old.skeleton ∧
      new.pinned before.container.fixedStop = old.pinned before.container.fixedStop := by
  have hskeleton := congrArg (fun c => c.sections[index]?) h.skeleton
  have hpinned := congrArg (fun ps => ps[index]?) h.pinned
  simp only [Container.skeleton, Container.pinned, List.getElem?_map, hnew, h.fixedStop,
    Option.map_some] at hskeleton hpinned
  obtain ⟨old, hold, hskeleton⟩ := Option.map_eq_some_iff.mp hskeleton.symm
  rw [hold] at hpinned
  exact ⟨old, hold, hskeleton.symm, Option.some.inj hpinned⟩

end Layout.Keeps

/-! ## What is left to copy -/

/-- Whether every section with contents in the file has its place, so that nothing is left to copy. -/
def Container.Settled (container : Container) : Prop :=
  ∀ s ∈ container.sections, s.header.hasFileData = true → s.placed = true

namespace Placing

variable {before after : Layout} {start stop : UInt32}

/-- A section with contents in the file has its place once it was copied. -/
theorem placed_of_copySection {index : Nat} (h : copySection start index before = .ok stop after)
    {s : Section} (hs : after.container.sections[index]? = some s)
    (hdata : s.header.hasFileData = true) : s.placed = true := by
  obtain ⟨found, hfound, h⟩ := copySection_eq_ok_iff.mp h
  split at h
  · rename_i hskip
    obtain ⟨-, rfl⟩ := h
    obtain rfl := Option.some.inj (hfound.symm.trans hs)
    simpa [hdata] using hskip
  · obtain ⟨offset, _, _, _, _, rfl⟩ := h
    rw [Layout.getElem?_move hfound, if_pos rfl] at hs
    cases hs
    rfl

/-- Copying a section leaves all others alone. -/
theorem getElem?_of_copySection {index : Nat} (h : copySection start index before = .ok stop after)
    {k : Nat} (hk : k ≠ index) :
    after.container.sections[k]? = before.container.sections[k]? := by
  obtain ⟨found, hfound, h⟩ := copySection_eq_ok_iff.mp h
  split at h
  · rw [h.2]
  · obtain ⟨offset, _, _, _, _, rfl⟩ := h
    rw [Layout.getElem?_move hfound, if_neg hk]

/-- Copying a section adds none and loses none. -/
theorem length_of_copySection {index : Nat} (h : copySection start index before = .ok stop after) :
    after.container.sections.length = before.container.sections.length := by
  obtain ⟨found, hfound, h⟩ := copySection_eq_ok_iff.mp h
  split at h
  · rw [h.2]
  · obtain ⟨offset, _, _, _, _, rfl⟩ := h
    exact List.length_set

/-- When all sections were copied, nothing is left to copy. -/
theorem settled_of_copySections (h : copySections start before = .ok stop after) :
    after.container.Settled := by
  unfold copySections at h
  simp only [state_bind_eq_ok_iff, state_get_eq_ok_iff] at h
  obtain ⟨_, _, ⟨rfl, rfl⟩, h⟩ := h
  -- the invariant: of the sections whose turn has come, those with file contents are placed
  obtain ⟨hlength, hdone⟩ := state_foldlM_induction h
    (motive := fun done _ layout =>
      layout.container.sections.length = before.container.sections.length ∧
        ∀ k ∈ done, ∀ s, layout.container.sections[k]? = some s →
          s.header.hasFileData = true → s.placed = true)
    ⟨rfl, by simp⟩ (by
      rintro done index dest between stop after ⟨hlength, hdone⟩ hstep
      refine ⟨(length_of_copySection hstep).trans hlength, fun k hk s hs => ?_⟩
      by_cases hki : k = index
      · subst hki
        exact placed_of_copySection hstep hs
      · rw [getElem?_of_copySection hstep hki] at hs
        rcases List.mem_append.mp hk with hk | hk
        · exact hdone k hk s hs
        · exact absurd (List.mem_singleton.mp hk) hki)
  intro s hs
  obtain ⟨k, hk⟩ := List.mem_iff_getElem?.mp hs
  refine hdone k ?_ s hk
  rw [List.mem_range, ← hlength]
  exact (List.getElem?_eq_some_iff.mp hk).1

/-- Copying all sections passes over all of them if nothing is left to copy. -/
theorem copySections_of_settled (h : before.container.Settled) (start : UInt32) :
    -- no section is left to move, so each turn returns the destination it was given
    copySections start before = .ok start before := by
  have hskip : ∀ index < before.container.sections.length,
      copySection start index before = .ok start before := by
    intro index hindex
    have hdone := h _ (List.getElem_mem hindex)
    refine copySection_eq_ok_iff.mpr ⟨_, List.getElem?_eq_getElem hindex, ?_⟩
    generalize before.container.sections[index] = found at hdone
    cases hdata : found.header.hasFileData with
    | false => simp
    | true => simp [hdone hdata]
  show (List.range before.container.sections.length).foldlM copySection start before = _
  have hindices : ∀ index ∈ List.range before.container.sections.length,
      index < before.container.sections.length := fun _ => List.mem_range.mp
  generalize List.range before.container.sections.length = indices at hindices
  induction indices with
  | nil => rfl
  | cons index indices ih =>
    rw [List.foldlM_cons, state_bind_eq_ok_iff]
    exact ⟨start, before, hskip index (hindices index List.mem_cons_self),
      ih fun k hk => hindices k (List.mem_cons_of_mem _ hk)⟩

end Placing

end DwarfLines.Elf
