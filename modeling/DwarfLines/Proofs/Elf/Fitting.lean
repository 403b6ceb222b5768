import DwarfLines.Proofs.Elf.Settling
import Mathlib.Algebra.Group.Nat.Defs

/-!
# Offsets that fit

Where sections go can be computed with natural numbers, which have no bounds. A step of laying out a
file succeeds exactly when the offset that it leads to fits 32 bits, and offsets only grow, so a loop
over sections succeeds exactly when the offset at its end does.
-/

namespace DwarfLines.Elf

open Outcome

/-- A number below the limit is a word. -/
theorem exists_word32?_eq_some {n : Nat} (h : n < 2 ^ 32) : ∃ w, word32? n = some w := by
  unfold word32?
  rw [dif_pos (show n < UInt32.size from h)]
  exact ⟨_, rfl⟩

/-- An offset can be aligned if the result fits. -/
theorem exists_alignUp? {offset alignment : UInt32} (h : aligned offset.toNat alignment < 2 ^ 32) :
    ∃ result, alignUp? offset alignment = some result := exists_word32?_eq_some h

/-- An offset can be advanced if the result fits. -/
theorem exists_advance? {offset : UInt32} {n : Nat} (h : offset.toNat + n < 2 ^ 32) :
    ∃ result, advance? offset n = some result := exists_word32?_eq_some h

namespace Section

/-- Where the next section may start after this one was copied to the first aligned place. -/
def paddedStop (s : Section) (offset : Nat) : Nat :=
  aligned (aligned offset s.header.alignment + s.source.length) s.header.alignment

/-- Where the next section may start after this one was copied, if it has to be. -/
def copiedStop (s : Section) (offset : Nat) : Nat :=
  if s.placed || !s.header.hasFileData then offset else s.paddedStop offset

/-- The later of an offset and the end of a section that is kept in the fixed part. -/
def keptStop (fixedStop : UInt32) (s : Section) (offset : Nat) : Nat :=
  if s.placed || !s.header.hasFileData || fixedStop ≤ s.header.offset then offset
  else max offset s.source.stop

/-- Copying a section does not go back. -/
theorem le_copiedStop (s : Section) (offset : Nat) : offset ≤ s.copiedStop offset := by
  unfold copiedStop
  split
  · exact Nat.le_refl _
  · calc offset ≤ aligned offset s.header.alignment := le_aligned _ _
      _ ≤ aligned offset s.header.alignment + s.source.length := Nat.le_add_right _ _
      _ ≤ s.paddedStop offset := le_aligned _ _

/-- Passing over a section does not go back. -/
theorem le_keptStop (fixedStop : UInt32) (s : Section) (offset : Nat) :
    offset ≤ s.keptStop fixedStop offset := by
  unfold keptStop
  split
  · exact Nat.le_refl _
  · exact Nat.le_max_left _ _

end Section

namespace Placing

/-- Whether a step on one section at a time goes to the offset that `next` gives, and succeeds
exactly when that offset fits. -/
structure Computes (step : UInt32 → Nat → Placing UInt32) (next : Section → Nat → Nat)
    (invariant : Layout → Prop) : Prop where
  grows : ∀ (s : Section) (offset : Nat), offset ≤ next s offset
  succeeds : ∀ (dest : UInt32) (index : Nat) (before : Layout) (s : Section), invariant before →
    before.container.sections[index]? = some s → next s dest.toNat < 2 ^ 32 →
    ∃ stop after, step dest index before = .ok stop after
  tells : ∀ (dest : UInt32) (index : Nat) (before : Layout) (stop : UInt32) (after : Layout),
    invariant before → step dest index before = .ok stop after → invariant after ∧
      (∀ k ≠ index, after.container.sections[k]? = before.container.sections[k]?) ∧
      ∃ s, before.container.sections[index]? = some s ∧ stop.toNat = next s dest.toNat

/-- What never goes back for one section does not for all of them. -/
theorem le_foldl {next : Section → Nat → Nat} (hgrows : ∀ s offset, offset ≤ next s offset)
    (sections : List Section) (offset : Nat) :
    offset ≤ sections.foldl (fun offset s => next s offset) offset := by
  induction sections generalizing offset with
  | nil => exact Nat.le_refl _
  | cons s sections ih => exact Nat.le_trans (hgrows s offset) (ih _)

variable {step : UInt32 → Nat → Placing UInt32} {next : Section → Nat → Nat}
  {invariant : Layout → Prop}

/-- A loop over the sections from number `first` on goes where the offsets of its steps add up to. -/
theorem Computes.range' (h : Computes step next invariant) {sections : List Section} {first : Nat}
    {dest : UInt32} {before : Layout} (hbefore : invariant before)
    (hsections : ∀ j < sections.length, before.container.sections[first + j]? = sections[j]?) :
    (sections.foldl (fun offset s => next s offset) dest.toNat < 2 ^ 32 →
      ∃ stop after, (List.range' first sections.length).foldlM step dest before = .ok stop after) ∧
    ∀ stop after, (List.range' first sections.length).foldlM step dest before = .ok stop after →
      stop.toNat = sections.foldl (fun offset s => next s offset) dest.toNat := by
  induction sections generalizing first dest before with
  | nil =>
    refine ⟨fun _ => ⟨dest, before, rfl⟩, fun stop after hstep => ?_⟩
    obtain ⟨rfl, -⟩ := state_pure_eq_ok_iff.mp hstep
    rfl
  | cons s sections ih =>
    have hfirst : before.container.sections[first]? = some s := hsections 0 (Nat.zero_lt_succ _)
    -- A step changes its own section only, so those that follow are still the same.
    have hrest : ∀ stop after, step dest first before = .ok stop after →
        invariant after ∧ stop.toNat = next s dest.toNat ∧
          ∀ j < sections.length, after.container.sections[first + 1 + j]? = sections[j]? := by
      intro stop after hstep
      obtain ⟨hafter, hothers, s', hs', hstop⟩ := h.tells dest first before stop after hbefore hstep
      obtain rfl := Option.some.inj (hfirst.symm.trans hs')
      refine ⟨hafter, hstop, fun j hj => ?_⟩
      rw [hothers _ (by omega), Nat.add_assoc, Nat.add_comm 1 j]
      exact hsections (j + 1) (Nat.succ_lt_succ hj)
    rw [List.length_cons, List.range'_succ, List.foldl_cons]
    constructor
    · intro hfits
      have hnext := Nat.lt_of_le_of_lt (le_foldl h.grows sections _) hfits
      obtain ⟨between, after, hstep⟩ := h.succeeds dest first before s hbefore hfirst hnext
      obtain ⟨hafter, hbetween, hothers⟩ := hrest between after hstep
      rw [← hbetween] at hfits
      obtain ⟨stop, final, hsteps⟩ := (ih hafter hothers).1 hfits
      exact ⟨stop, final, state_bind_eq_ok_iff.mpr ⟨between, after, hstep, hsteps⟩⟩
    · intro stop final hloop
      obtain ⟨between, after, hstep, hsteps⟩ := state_bind_eq_ok_iff.mp hloop
      obtain ⟨hafter, hbetween, hothers⟩ := hrest between after hstep
      rw [← hbetween]
      exact (ih hafter hothers).2 stop final hsteps

/-- A loop over all sections succeeds exactly when the offset at its end fits. -/
theorem Computes.range (h : Computes step next invariant) (dest : UInt32) (before : Layout)
    (hbefore : invariant before) :
    (before.container.sections.foldl (fun offset s => next s offset) dest.toNat < 2 ^ 32 →
      ∃ stop after, (List.range before.container.sections.length).foldlM step dest before =
        .ok stop after) ∧
    ∀ stop after, (List.range before.container.sections.length).foldlM step dest before =
      .ok stop after →
        stop.toNat = before.container.sections.foldl (fun offset s => next s offset) dest.toNat := by
  rw [List.range_eq_range']
  exact h.range' hbefore fun j _ => by rw [Nat.zero_add]

/-- Copying a section stops where it was computed to, and only fails for want of space. -/
theorem computes_copySection : Computes copySection Section.copiedStop fun _ => True where
  grows := Section.le_copiedStop
  succeeds dest index before s _ hs hfits := by
    unfold Section.copiedStop at hfits
    -- the copy takes the room between the two alignments, or none where it is passed over
    by_cases hskip : (s.placed || !s.header.hasFileData) = true
    · exact ⟨dest, before, copySection_eq_ok_iff.mpr ⟨s, hs, by rw [if_pos hskip]; exact ⟨rfl, rfl⟩⟩⟩
    · rw [if_neg hskip, Section.paddedStop] at hfits
      have hlast := Nat.lt_of_le_of_lt (le_aligned _ _) hfits
      obtain ⟨offset, hoffset⟩ := exists_alignUp? (Nat.lt_of_le_of_lt (Nat.le_add_right _ _) hlast)
      rw [← toNat_of_alignUp? hoffset] at hlast hfits
      obtain ⟨last, hadvance⟩ := exists_advance? hlast
      rw [← advance?_eq_some_iff.mp hadvance] at hfits
      obtain ⟨stop, hstop⟩ := exists_alignUp? hfits
      refine ⟨stop, before.move index s offset, copySection_eq_ok_iff.mpr ⟨s, hs, ?_⟩⟩
      rw [if_neg hskip]
      exact ⟨offset, last, hoffset, hadvance, hstop, rfl⟩
  tells dest index before stop after _ hstep := by
    obtain ⟨s, hs, hstep⟩ := copySection_eq_ok_iff.mp hstep
    refine ⟨trivial, ?_⟩
    unfold Section.copiedStop
    split at hstep
    · rename_i hskip
      obtain ⟨rfl, rfl⟩ := hstep
      exact ⟨fun _ _ => rfl, s, hs, by rw [if_pos hskip]⟩
    · rename_i hmove
      obtain ⟨offset, last, hoffset, hlast, hstop, rfl⟩ := hstep
      refine ⟨fun k hk => by rw [Layout.getElem?_move hs, if_neg hk], s, hs, ?_⟩
      rw [if_neg hmove, toNat_of_alignUp? hstop, advance?_eq_some_iff.mp hlast,
        toNat_of_alignUp? hoffset]
      rfl

/-- So does passing over one that stays. -/
theorem computes_keepSection (fixedStop : UInt32) :
    Computes keepSection (Section.keptStop fixedStop)
      fun layout => layout.container.fixedStop = fixedStop where
  grows := Section.le_keptStop fixedStop
  succeeds dest index before s hfixed hs hfits := by
    subst hfixed
    unfold Section.keptStop at hfits
    -- a kept section moves the end to its own, if that is further
    by_cases hskip : (s.placed || !s.header.hasFileData ||
        before.container.fixedStop ≤ s.header.offset) = true
    · exact ⟨dest, before, keepSection_eq_ok_iff.mpr ⟨s, hs, by rw [if_pos hskip]; exact ⟨rfl, rfl⟩⟩⟩
    · rw [if_neg hskip] at hfits
      obtain ⟨last, hlast⟩ := exists_word32?_eq_some (Nat.lt_of_le_of_lt (Nat.le_max_right _ _) hfits)
      refine ⟨max dest last, before.keep index s, keepSection_eq_ok_iff.mpr ⟨s, hs, ?_⟩⟩
      rw [if_neg hskip]
      exact ⟨last, word32?_eq_some_iff.mp hlast, rfl, rfl⟩
  tells dest index before stop after hfixed hstep := by
    subst hfixed
    obtain ⟨s, hs, hstep⟩ := keepSection_eq_ok_iff.mp hstep
    unfold Section.keptStop
    split at hstep
    · rename_i hskip
      obtain ⟨rfl, rfl⟩ := hstep
      exact ⟨rfl, fun _ _ => rfl, s, hs, by rw [if_pos hskip]⟩
    · rename_i hkeep
      obtain ⟨last, hlast, rfl, rfl⟩ := hstep
      have hget := Layout.getElem?_setSection hs { s with placed := true }
      refine ⟨rfl, fun k hk => (hget k).trans (if_neg hk), s, hs, ?_⟩
      rw [if_neg hkeep, toNat_max, hlast]

end Placing

/-! ## Sections that wait for their place -/

/-- A section that counts as placed where it is. -/
def Section.marked (s : Section) : Section := { s with placed := true }

/-- How each section moves the offset when it is copied. -/
def Layout.stops (layout : Layout) : List (Nat → Nat) :=
  layout.container.sections.map Section.copiedStop

/-- A section that has its place takes no more space. -/
theorem Section.copiedStop_of_placed {s : Section} (h : s.placed = true) : s.copiedStop = id := by
  funext offset
  rw [copiedStop, h, Bool.true_or, if_pos rfl]
  rfl

/-- Marking a section makes it take no more space, and no other. -/
theorem map_copiedStop_modify (sections : List Section) (index : Nat) :
    (sections.modify index Section.marked).map Section.copiedStop =
      (sections.map Section.copiedStop).set index id := by
  apply List.ext_getElem?
  intro k
  rw [List.getElem?_map, List.getElem?_modify, List.getElem?_set', List.getElem?_map]
  cases sections[k]? with
  | none => simp
  | some s =>
    by_cases hk : index = k
    · simp [hk, s.marked.copiedStop_of_placed rfl]
    · simp [hk]

namespace Layout

variable {before after : Layout} {index : Nat}

/-- Each section has its stop. -/
@[simp]
theorem length_stops (layout : Layout) :
    layout.stops.length = layout.container.sections.length := List.length_map _

/-- Replacing a section changes its stop only. -/
theorem stops_setSection (layout : Layout) (index : Nat) (new : Section) :
    (layout.setSection index new).stops = layout.stops.set index new.copiedStop := List.map_set

/-- A section that is marked takes no more space. -/
theorem stops_markPlaced {offset : UInt32} {u : Unit}
    (h : Placing.markPlaced index offset before = .ok u after) :
    after.stops = before.stops.set index id := by
  obtain ⟨found, -, rfl⟩ := Placing.markPlaced_eq_ok_iff.mp h
  rw [stops_setSection, Section.copiedStop_of_placed rfl]

/-- A stop may be set to what it is. -/
theorem stops_set_eq {s : Section} (hs : before.container.sections[index]? = some s)
    {f : Nat → Nat} (hf : f = s.copiedStop) : before.stops.set index f = before.stops := by
  rw [hf]
  exact List.map_set.symm.trans (map_set_eq hs rfl)

/-- A size says nothing about the place of a section, because the contents are copied that were
there. -/
theorem stops_setSize {size : UInt32} {u : Unit}
    (h : Placing.setSize index size before = .ok u after) : after.stops = before.stops := by
  obtain ⟨found, hfound, rfl⟩ := Placing.setSize_eq_ok_iff.mp h
  rw [stops_setSection]
  exact stops_set_eq hfound rfl

/-- A section that was copied takes no more space. -/
theorem stops_copySection {dest stop : UInt32}
    (h : Placing.copySection dest index before = .ok stop after) :
    after.stops = before.stops.set index id := by
  obtain ⟨found, hfound, h⟩ := Placing.copySection_eq_ok_iff.mp h
  split at h
  · rename_i hskip
    obtain ⟨-, rfl⟩ := h
    refine (stops_set_eq hfound ?_).symm
    funext offset
    rw [Section.copiedStop, if_pos hskip]
    rfl
  · obtain ⟨offset, last, -, -, -, rfl⟩ := h
    refine (stops_setSection _ index _).trans ?_
    rw [Section.copiedStop_of_placed rfl]
    rfl

/-- Copying a section adds none and loses none. -/
theorem length_copySection {dest stop : UInt32}
    (h : Placing.copySection dest index before = .ok stop after) :
    after.container.sections.length = before.container.sections.length := by
  rw [← length_stops, stops_copySection h, List.length_set, length_stops]

/-- Copying all sections adds none and loses none. -/
theorem length_copySections {start stop : UInt32}
    (h : Placing.copySections start before = .ok stop after) :
    after.container.sections.length = before.container.sections.length := by
  unfold Placing.copySections at h
  simp only [state_bind_eq_ok_iff, state_get_eq_ok_iff] at h
  obtain ⟨_, _, ⟨rfl, rfl⟩, h⟩ := h
  exact state_foldlM_induction h (motive := fun _ _ layout =>
    layout.container.sections.length = before.container.sections.length) rfl
      fun _ _ _ _ _ _ hlength hstep => (length_copySection hstep).trans hlength

end Layout

/-! ## Whole steps -/

/-- Where the fixed part ends, with all sections that start in it. -/
def Container.frontStop (container : Container) : Nat :=
  container.sections.foldl (fun offset s => s.keptStop container.fixedStop offset)
    container.fixedStop.toNat

/-- Where the table of sections ends if sections end at `offset`. -/
def sectionTableStop (count offset : Nat) : Nat := aligned offset 4 + count * Part.section.size

namespace Placing

/-- Copying what stays in place stops where it was computed to, and only fails for want of space. -/
theorem computes_copyFixed (container : Container) :
    (container.frontStop < 2 ^ 32 →
      ∃ stop after, copyFixed (.start container) = .ok stop after) ∧
    ∀ stop after, copyFixed (.start container) = .ok stop after →
      stop.toNat = container.frontStop := by
  have hloop := (computes_keepSection container.fixedStop).range container.fixedStop
    ((Layout.start container).writeAt 0 (container.data.take container.fixedStop.toNat)) rfl
  unfold copyFixed
  simp only [state_bind_eq_ok_iff, state_get_eq_ok_iff, state_modify_eq_ok_iff]
  constructor
  · intro hfits
    obtain ⟨stop, after, hsteps⟩ := hloop.1 hfits
    exact ⟨stop, after, _, _, ⟨rfl, rfl⟩, (), _, rfl, hsteps⟩
  · rintro stop after ⟨_, _, ⟨rfl, rfl⟩, _, _, rfl, hsteps⟩
    exact hloop.2 stop after hsteps

/-- Copying all sections stops where it was computed to, and only fails for want of space. -/
theorem computes_copySections (start : UInt32) (before : Layout) :
    (before.container.sections.foldl (fun offset s => s.copiedStop offset) start.toNat < 2 ^ 32 →
      ∃ stop after, copySections start before = .ok stop after) ∧
    ∀ stop after, copySections start before = .ok stop after →
      stop.toNat =
        before.container.sections.foldl (fun offset s => s.copiedStop offset) start.toNat := by
  have hloop := computes_copySection.range start before trivial
  unfold copySections
  simp only [state_bind_eq_ok_iff, state_get_eq_ok_iff]
  constructor
  · intro hfits
    obtain ⟨stop, after, hsteps⟩ := hloop.1 hfits
    exact ⟨stop, after, _, _, ⟨rfl, rfl⟩, hsteps⟩
  · rintro stop after ⟨_, _, ⟨rfl, rfl⟩, hsteps⟩
    exact hloop.2 stop after hsteps

/-- Writing the section table stops where it was computed to, and only fails for want of space. -/
theorem computes_writeSectionHeaders {before : Layout} (hsections : before.container.sections ≠ [])
    (offset : UInt32) :
    (sectionTableStop before.container.sections.length offset.toNat < 2 ^ 32 →
      ∃ stop after, writeSectionHeaders offset before = .ok stop after) ∧
    ∀ stop after, writeSectionHeaders offset before = .ok stop after →
      stop.toNat = sectionTableStop before.container.sections.length offset.toNat := by
  simp only [writeSectionHeaders_eq_ok_iff hsections, sectionTableStop]
  constructor
  · intro hfits
    obtain ⟨start, hstart⟩ := exists_alignUp? (Nat.lt_of_le_of_lt (Nat.le_add_right _ _) hfits)
    rw [← toNat_of_alignUp? hstart] at hfits
    obtain ⟨stop, hstop⟩ := exists_advance? hfits
    exact ⟨stop, _, start, hstart, hstop, rfl⟩
  · rintro stop after ⟨start, hstart, hstop, -⟩
    rw [advance?_eq_some_iff.mp hstop, toNat_of_alignUp? hstart]

end Placing

end DwarfLines.Elf
