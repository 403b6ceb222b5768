import DwarfLines.Proofs.Elf.Runs
import Mathlib.Data.List.Induction

/-!
# Operations in any order

The operations on an opened file may be called in any order and with any arguments. A call that fails
does not end a history of calls: what it did before it failed stays done. So each operation is
described by what it may make of each section, whether it succeeds or not, and a history by what its
operations make of the sections one after the other.
-/

namespace DwarfLines.Elf

open Outcome

/-! ## Changed sections -/

/-- Whether a container comes from another by changing its sections, each in a way that is allowed for
its number. -/
structure Container.Changes (allowed : Nat → Section → Section → Prop) (before after : Container) :
    Prop where
  frame : after = { before with sections := after.sections }
  length : after.sections.length = before.sections.length
  section_of : ∀ k s, before.sections[k]? = some s →
    ∃ t, after.sections[k]? = some t ∧ allowed k s t

namespace Container.Changes

variable {allowed allowed' allowed'' : Nat → Section → Section → Prop}
  {before between after : Container}

/-- No change is allowed if each section may stay as it is. -/
theorem refl (container : Container) (h : ∀ k s, allowed k s s) :
    container.Changes allowed container :=
  ⟨rfl, rfl, fun k s hs => ⟨s, hs, h k s⟩⟩

/-- One section may be replaced if it may change so and the others may stay. -/
theorem setSection {layout : Layout} {index : Nat} {found new : Section}
    (hfound : layout.container.sections[index]? = some found) (hrefl : ∀ k s, allowed k s s)
    (hnew : allowed index found new) :
    layout.container.Changes allowed (layout.setSection index new).container := by
  refine ⟨rfl, List.length_set, fun k s hs => ?_⟩
  rw [Layout.getElem?_setSection hfound]
  split
  · rename_i hk
    subst hk
    obtain rfl := Option.some.inj (hfound.symm.trans hs)
    exact ⟨new, rfl, hnew⟩
  · exact ⟨s, hs, hrefl k s⟩

/-- One change after the other is a change that allows for both. -/
theorem trans (h : before.Changes allowed between) (h' : between.Changes allowed' after)
    (hcomp : ∀ k s t u, allowed k s t → allowed' k t u → allowed'' k s u) :
    before.Changes allowed'' after := by
  refine ⟨?_, h'.length.trans h.length, fun k s hs => ?_⟩
  · rw [h'.frame, h.frame]
  · obtain ⟨t, ht, hst⟩ := h.section_of k s hs
    obtain ⟨u, hu, htu⟩ := h'.section_of k t ht
    exact ⟨u, hu, hcomp k s t u hst htu⟩

/-- A change is also one by weaker rules. -/
theorem mono (h : before.Changes allowed after)
    (himp : ∀ k s t, allowed k s t → allowed' k s t) : before.Changes allowed' after where
  __ := h
  section_of k s hs :=
    have ⟨t, ht, hst⟩ := h.section_of k s hs
    ⟨t, ht, himp k s t hst⟩

/-- Each section after a change comes from one before it. -/
theorem exists_of_getElem? (h : before.Changes allowed after) {k : Nat} {t : Section}
    (ht : after.sections[k]? = some t) : ∃ s, before.sections[k]? = some s ∧ allowed k s t := by
  have hk := (List.getElem?_eq_some_iff.mp ht).1
  rw [h.length] at hk
  obtain ⟨t', ht', hst⟩ := h.section_of k _ (List.getElem?_eq_getElem hk)
  obtain rfl := Option.some.inj (ht.symm.trans ht')
  exact ⟨_, List.getElem?_eq_getElem hk, hst⟩

end Container.Changes

/-! ## Copying -/

/-- The ways in which copying may change a section: not at all, or it gives the section its place. -/
inductive Section.Copies (s : Section) : Section → Prop where
  | same : Copies s s
  | placed (offset : UInt32) : s.placed = false → s.header.hasFileData = true →
      Copies s (s.placedAt offset)

/-- A section that is copied in two steps is copied. -/
theorem Section.Copies.trans {s t u : Section} (h : s.Copies t) (h' : t.Copies u) : s.Copies u := by
  cases h with
  | same => exact h'
  | placed offset hunplaced hdata =>
    cases h' with
    | same => exact .placed offset hunplaced hdata
    | placed _ hunplaced' => cases hunplaced'

/-- Whether a container comes from another by copying sections. -/
abbrev Container.Copies : Container → Container → Prop := Container.Changes fun _ => Section.Copies

namespace Container.Copies

variable {before between after : Container}

theorem refl (container : Container) : container.Copies container :=
  Changes.refl container fun _ _ => .same

theorem trans (h : before.Copies between) (h' : between.Copies after) : before.Copies after :=
  Changes.trans h h' fun _ _ _ _ => .trans

/-- Copying one section copies no other. -/
theorem place {layout : Layout} {index : Nat} {found new : Section}
    (hfound : layout.container.sections[index]? = some found) (hcopies : found.Copies new) :
    layout.container.Copies (layout.setSection index new).container :=
  Changes.setSection hfound (fun _ _ => .same) hcopies

end Container.Copies

namespace Placing

variable {α β : Type} {before : Layout} {index : Nat}

/-- The layout that a step leaves, whether it succeeds or not. -/
def leaves (step : Placing α) (layout : Layout) : Layout :=
  match step layout with
  | .ok _ after | .error _ after => after

/-- A step that looks at the layout goes on with it. -/
theorem get_bind (f : Layout → Placing α) : (get >>= f) before = f before before := rfl

/-- A step that changes the layout goes on with the changed one. -/
theorem modify_bind (change : Layout → Layout) (f : Unit → Placing α) :
    (modify change >>= f) before = f () (change before) := rfl

/-- A step that looks up a section goes on with it, or fails with its number. -/
theorem getSection_bind (f : Section → Placing α) :
    (getSection index >>= f) before =
      match before.container.sections[index]? with
      | some found => f found before
      | none => .error (.noSuchSection index) before := by
  have hget : getSection index before =
      match before.container.sections[index]? with
      | some found => .ok found before
      | none => .error (.noSuchSection index) before := by
    rw [getSection, get_bind, Container.section?]
    cases before.container.sections[index]? <;> rfl
  simp only [Bind.bind, EStateM.bind, hget]
  cases before.container.sections[index]? <;> rfl

/-- A step that needs an offset goes on with it, or fails. -/
theorem orInvalidOffset_bind (o : Option β) (f : β → Placing α) :
    (orInvalidOffset o >>= f) before =
      match o with
      | some b => f b before
      | none => .error .invalidOffset before := by
  cases o <;> rfl

/-- What a step comes to that may change sections: it succeeds, or fails for want of room, and may
have changed some; or it is rejected since a section it was to find, by one of some numbers, is not
there, and changes nothing. -/
inductive Changing (allowed : Nat → Section → Section → Prop) (indices : List Nat) (before : Layout) :
    EStateM.Result Error Layout α → Prop where
  | changed {after : Layout} (a : α) : before.container.Changes allowed after.container →
      Changing allowed indices before (.ok a after)
  | failed {after : Layout} : before.container.Changes allowed after.container →
      Changing allowed indices before (.error .invalidOffset after)
  | rejected {index : Nat} : index ∈ indices → before.container.sections.length ≤ index →
      Changing allowed indices before (.error (.noSuchSection index) before)

/-- What a step comes to that may copy sections. -/
abbrev Copying : List Nat → Layout → EStateM.Result Error Layout UInt32 → Prop :=
  Changing fun _ => Section.Copies

/-- Copying a section moves no other. -/
theorem copying_copySection (dest : UInt32) (index : Nat) (before : Layout) :
    Copying [index] before (copySection dest index before) := by
  rw [copySection, getSection_bind]
  cases hfound : before.container.sections[index]? with
  | none => exact .rejected List.mem_cons_self (List.getElem?_eq_none_iff.mp hfound)
  | some found =>
    dsimp only
    split
    · exact .changed dest (Container.Copies.refl _)
    · rename_i hmove
      obtain ⟨hunplaced, hdata⟩ : found.placed = false ∧ found.header.hasFileData = true := by
        simpa using hmove
      rw [orInvalidOffset_bind]
      cases alignUp? dest found.header.alignment with
      | none => exact .failed (Container.Copies.refl _)
      | some offset =>
        -- The section stays moved from here on.
        have hmoved : before.container.Copies (before.move index found offset).container :=
          .place hfound (.placed offset hunplaced hdata)
        dsimp only
        rw [modify_bind, orInvalidOffset_bind]
        cases advance? offset found.source.length with
        | none => exact .failed hmoved
        | some last =>
          dsimp only
          cases alignUp? last found.header.alignment with
          | none => exact .failed hmoved
          | some stop => exact .changed stop hmoved

/-- Passing over a section that stays moves no other. -/
theorem copying_keepSection (stop : UInt32) (index : Nat) (before : Layout) :
    Copying [index] before (keepSection stop index before) := by
  rw [keepSection, getSection_bind]
  cases hfound : before.container.sections[index]? with
  | none => exact .rejected List.mem_cons_self (List.getElem?_eq_none_iff.mp hfound)
  | some found =>
    dsimp only
    rw [get_bind]
    split
    · exact .changed stop (Container.Copies.refl _)
    · rename_i hkeep
      obtain ⟨⟨hunplaced, hdata⟩, -⟩ : (found.placed = false ∧ found.header.hasFileData = true) ∧
          found.header.offset < before.container.fixedStop := by
        simpa using hkeep
      -- The section keeps its offset, so its place is where it was.
      have hkept : before.container.Copies (before.keep index found).container :=
        .place hfound (.placed found.header.offset hunplaced hdata)
      rw [modify_bind, orInvalidOffset_bind]
      cases word32? found.source.stop with
      | none => exact .failed hkept
      | some last => exact .changed (max stop last) hkept

/-- A loop over sections that are there copies sections if its steps do, and is never rejected. -/
theorem copying_foldlM {step : UInt32 → Nat → Placing UInt32}
    (hstep : ∀ dest index before, Copying [index] before (step dest index before))
    {indices : List Nat} (hindices : ∀ index ∈ indices, index < before.container.sections.length)
    (dest : UInt32) : Copying [] before (indices.foldlM step dest before) := by
  induction indices generalizing dest before with
  | nil => exact .changed dest (Container.Copies.refl _)
  | cons index indices ih =>
    rw [List.foldlM_cons]
    -- a copy that fails has changed what the copies before it changed
    simp only [Bind.bind, EStateM.bind]
    have hfirst := hstep dest index before
    generalize step dest index before = result at hfirst
    cases hfirst with
    | failed hcopies => exact .failed hcopies
    | rejected hmem hindex =>
      have := hindices _ (List.mem_cons.mpr (.inl (List.mem_singleton.mp hmem)))
      omega
    | @changed between stop hcopies =>
      have hrest : ∀ k ∈ indices, k < between.container.sections.length := fun k hk => by
        rw [hcopies.length]
        exact hindices k (List.mem_cons_of_mem _ hk)
      have hlater := ih hrest stop
      dsimp only
      generalize indices.foldlM step stop between = result at hlater
      cases hlater with
      | changed stop hcopies' => exact .changed stop (Container.Copies.trans hcopies hcopies')
      | failed hcopies' => exact .failed (Container.Copies.trans hcopies hcopies')
      | rejected hmem => cases hmem

/-- Copying what stays in place moves no section. -/
theorem copying_copyFixed (before : Layout) : Copying [] before (copyFixed before) := by
  -- the loop runs over the sections that are there, so no index is rejected
  let written := before.writeAt 0 (before.container.data.take before.container.fixedStop.toNat)
  have hindices : ∀ index ∈ List.range written.container.sections.length,
      index < written.container.sections.length := fun _ => List.mem_range.mp
  have hloop := copying_foldlM copying_keepSection hindices before.container.fixedStop
  show Copying [] before
    ((List.range written.container.sections.length).foldlM keepSection before.container.fixedStop
      written)
  generalize (List.range written.container.sections.length).foldlM keepSection
    before.container.fixedStop written = result at hloop
  cases hloop with
  | changed stop hcopies => exact .changed stop hcopies
  | failed hcopies => exact .failed hcopies
  | rejected hmem => cases hmem

/-- Copying the sections that are left moves none by more than giving it a place. -/
theorem copying_copySections (start : UInt32) (before : Layout) :
    Copying [] before (copySections start before) :=
  copying_foldlM copying_copySection (fun _ => List.mem_range.mp) start

end Placing

/-! ## Operations -/

/-- What may be done with an opened file and an image. -/
inductive Operation where
  | copySection (dest : UInt32) (index : Nat)
  | copyFixed
  | copySections (start : UInt32)
  | setSize (index : Nat) (size : UInt32)
  | markPlaced (index : Nat) (offset : UInt32)
  | writeSegments
  | writeSectionHeaders (offset : UInt32)
  deriving DecidableEq, Repr

namespace Operation

/-- Performs an operation, whatever it returns. -/
def perform : Operation → Placing Unit
  | copySection dest index => discard (Placing.copySection dest index)
  | copyFixed => discard Placing.copyFixed
  | copySections start => discard (Placing.copySections start)
  | setSize index size => Placing.setSize index size
  | markPlaced index offset => Placing.markPlaced index offset
  | writeSegments => Placing.writeSegments
  | writeSectionHeaders offset => discard (Placing.writeSectionHeaders offset)

/-- The numbers that an operation is given. -/
def indices : Operation → List Nat
  | copySection _ index | setSize index _ | markPlaced index _ => [index]
  | copyFixed | copySections _ | writeSegments | writeSectionHeaders _ => []

/-- What an operation may make of the section with number `k`. -/
inductive Makes (operation : Operation) (k : Nat) (s : Section) : Section → Prop where
  | copied {t : Section} : s.Copies t → Makes operation k s t
  | resized (size : UInt32) : operation = .setSize k size →
      Makes operation k s { s with header := { s.header with size } }
  | marked (offset : UInt32) : operation = .markPlaced k offset →
      Makes operation k s (s.placedAt offset)

namespace Makes

variable {operation : Operation} {k : Nat} {s t : Section}

/-- An operation may leave a section as it is. -/
theorem same : operation.Makes k s s := .copied .same

/-- What an operation makes of a section differs from it in offset and size only. -/
theorem kept (h : operation.Makes k s t) : t = { s with
    header := { s.header with offset := t.header.offset, size := t.header.size }
    placed := t.placed } := by
  cases h with
  | copied hcopies => cases hcopies <;> rfl
  | resized | marked => rfl

/-- Only setting the size of a section changes it. -/
theorem size_eq (h : operation.Makes k s t) (hsize : ∀ size, operation ≠ .setSize k size) :
    t.header.size = s.header.size := by
  cases h with
  | copied hcopies => cases hcopies <;> rfl
  | resized size heq => exact absurd heq (hsize size)
  | marked => rfl

/-- A section that has its place keeps having one. -/
theorem stays (h : operation.Makes k s t) (hplaced : s.placed = true) : t.placed = true := by
  cases h with
  | copied hcopies =>
    cases hcopies with
    | same => exact hplaced
    | placed => rfl
  | resized => exact hplaced
  | marked => rfl

/-- The place of a section changes only if it is marked with another. -/
theorem offset_eq (h : operation.Makes k s t) (hplaced : s.placed = true)
    (hmark : ∀ offset, operation ≠ .markPlaced k offset) : t.header.offset = s.header.offset := by
  cases h with
  | copied hcopies =>
    cases hcopies with
    | same => rfl
    | placed offset hunplaced => rw [hplaced] at hunplaced; cases hunplaced
  | resized => rfl
  | marked offset heq => exact absurd heq (hmark offset)

/-- A section without file contents gets a place only by being marked. -/
theorem unplaced (h : operation.Makes k s t) (hdata : s.header.hasFileData = false)
    (hunplaced : s.placed = false) (hmark : ∀ offset, operation ≠ .markPlaced k offset) :
    t.placed = false := by
  cases h with
  | copied hcopies =>
    cases hcopies with
    | same => exact hunplaced
    | placed offset _ hdata' => rw [hdata] at hdata'; cases hdata'
  | resized => exact hunplaced
  | marked offset heq => exact absurd heq (hmark offset)

end Makes

end Operation

namespace Placing

variable {α : Type} {allowed allowed' : Nat → Section → Section → Prop} {indices : List Nat}
  {before : Layout}

/-- A step that changes sections by some rules does so by weaker ones. -/
theorem Changing.mono {result : EStateM.Result Error Layout α}
    (h : Changing allowed indices before result) (himp : ∀ k s t, allowed k s t → allowed' k s t) :
    Changing allowed' indices before result := by
  cases h with
  | changed a hchanges => exact .changed a (hchanges.mono himp)
  | failed hchanges => exact .failed (hchanges.mono himp)
  | rejected hmem hindex => exact .rejected hmem hindex

/-- Dropping the value of a step changes nothing. -/
theorem Changing.discard {step : Placing α} (h : Changing allowed indices before (step before)) :
    Changing allowed indices before (Functor.discard step before) := by
  show Changing allowed indices before (EStateM.map (fun _ => ()) step before)
  unfold EStateM.map
  generalize step before = result at h
  cases h with
  | changed _ hchanges => exact .changed () hchanges
  | failed hchanges => exact .failed hchanges
  | rejected hmem hindex => exact .rejected hmem hindex

/-- A change of one section that is looked up first. -/
theorem changing_setSection {index : Nat} (new : Section → Section)
    (hrefl : ∀ k s, allowed k s s) (hnew : ∀ s, allowed index s (new s)) (before : Layout) :
    Changing allowed [index] before ((do
      let found ← getSection index
      modify fun layout => layout.setSection index (new found) : Placing Unit) before) := by
  rw [getSection_bind]
  cases hfound : before.container.sections[index]? with
  | none => exact .rejected List.mem_cons_self (List.getElem?_eq_none_iff.mp hfound)
  | some found => exact .changed () (.setSection hfound hrefl (hnew found))

/-- Writing the table of sections changes none of them. -/
theorem changing_writeSectionHeaders (hrefl : ∀ k s, allowed k s s) (offset : UInt32)
    (before : Layout) : Changing allowed [] before (writeSectionHeaders offset before) := by
  have hsame := Container.Changes.refl before.container hrefl
  rw [writeSectionHeaders, get_bind]
  split
  -- only without sections the pointer is cleared and nothing aligned
  · exact .changed offset hsame
  · rw [orInvalidOffset_bind]
    cases alignUp? offset 4 with
    | none => exact .failed hsame
    | some start =>
      dsimp only
      rw [modify_bind, orInvalidOffset_bind]
      cases advance? start (before.container.sections.length * Part.section.size) with
      | none => exact .failed hsame
      | some stop => exact .changed stop hsame

/-- An operation makes of the sections what it may, or is rejected and changes nothing. -/
theorem changing_perform (operation : Operation) (before : Layout) :
    Changing operation.Makes operation.indices before (operation.perform before) := by
  have hrefl : ∀ k s, operation.Makes k s s := fun _ _ => .copied .same
  cases operation with
  | copySection dest index =>
    exact ((copying_copySection dest index before).mono fun _ _ _ => .copied).discard
  | copyFixed => exact ((copying_copyFixed before).mono fun _ _ _ => .copied).discard
  | copySections start =>
    exact ((copying_copySections start before).mono fun _ _ _ => .copied).discard
  | setSize index size => exact changing_setSection _ hrefl (fun _ => .resized size rfl) before
  | markPlaced index offset => exact changing_setSection _ hrefl (fun _ => .marked offset rfl) before
  | writeSegments => exact .changed () (.refl _ hrefl)
  | writeSectionHeaders offset => exact (changing_writeSectionHeaders hrefl offset before).discard

end Placing

/-! ## Histories -/

/-- A call of an operation with an image of the caller's choice. -/
structure Call where
  operation : Operation
  image : Image
  deriving DecidableEq, Repr

/-- What a call on a container comes to. -/
def Call.outcome (call : Call) (container : Container) : EStateM.Result Error Layout Unit :=
  call.operation.perform ⟨container, call.image⟩

namespace Container

/-- The container after a call, whether it succeeded or not. -/
def after (container : Container) (call : Call) : Container :=
  (call.operation.perform.leaves ⟨container, call.image⟩).container

/-- The container after calls, one after the other. -/
def afterAll (container : Container) (calls : List Call) : Container :=
  calls.foldl after container

end Container

/-- What a history of operations may make of the section with number `k`. -/
structure Section.Develops (s : Section) (operations : List Operation) (k : Nat) (t : Section) :
    Prop where
  kept : t = { s with
    header := { s.header with offset := t.header.offset, size := t.header.size }
    placed := t.placed }
  size_eq : (∀ size, .setSize k size ∉ operations) → t.header.size = s.header.size
  stays : s.placed = true → t.placed = true
  offset_eq : s.placed = true → (∀ offset, .markPlaced k offset ∉ operations) →
    t.header.offset = s.header.offset
  unplaced : s.header.hasFileData = false → s.placed = false →
    (∀ offset, .markPlaced k offset ∉ operations) → t.placed = false

namespace Section.Develops

variable {operations : List Operation} {operation : Operation} {k : Nat} {s t u : Section}

theorem refl (s : Section) (k : Nat) : s.Develops [] k s :=
  ⟨rfl, fun _ => rfl, id, fun _ _ => rfl, fun _ h _ => h⟩

/-- One more operation keeps what the operations before it kept. -/
theorem snoc (h : s.Develops operations k t) (hmakes : operation.Makes k t u) :
    s.Develops (operations ++ [operation]) k u := by
  -- an operation that is not among all of them is neither among the earlier ones nor the last one
  have hearlier {o : Operation} (ho : o ∉ operations ++ [operation]) : o ∉ operations :=
    fun hmem => ho (List.mem_append_left _ hmem)
  have hlast {o : Operation} (ho : o ∉ operations ++ [operation]) : operation ≠ o :=
    fun heq => ho (heq ▸ List.mem_append_right _ List.mem_cons_self)
  refine ⟨?_, ?_, ?_, ?_, ?_⟩
  · rw [hmakes.kept, h.kept]
  · intro hsize
    rw [hmakes.size_eq fun size => hlast (hsize size), h.size_eq fun size => hearlier (hsize size)]
  · exact fun hplaced => hmakes.stays (h.stays hplaced)
  · intro hplaced hmark
    rw [hmakes.offset_eq (h.stays hplaced) fun offset => hlast (hmark offset),
      h.offset_eq hplaced fun offset => hearlier (hmark offset)]
  · intro hdata hunplaced hmark
    refine hmakes.unplaced ?_ (h.unplaced hdata hunplaced fun offset => hearlier (hmark offset))
      fun offset => hlast (hmark offset)
    rw [h.kept]
    exact hdata

end Section.Develops

namespace Container

/-- A call at the end works on what the calls before it have left. -/
theorem afterAll_concat (container : Container) (calls : List Call) (call : Call) :
    container.afterAll (calls ++ [call]) = (container.afterAll calls).after call :=
  List.foldl_concat _ _ _ _

/-- A call makes of the sections what its operation may. -/
theorem changes_after (container : Container) (call : Call) :
    container.Changes call.operation.Makes (container.after call) := by
  have hchanging := Placing.changing_perform call.operation ⟨container, call.image⟩
  unfold after Placing.leaves
  generalize call.operation.perform ⟨container, call.image⟩ = result at hchanging
  cases hchanging with
  | changed _ hchanges | failed hchanges => exact hchanges
  | rejected => exact .refl _ fun _ _ => .same

/-- The sections after a history of calls. -/
theorem changes_afterAll (container : Container) (calls : List Call) :
    container.Changes (fun k s => s.Develops (calls.map Call.operation) k)
      (container.afterAll calls) := by
  induction calls using List.reverseRecOn with
  | nil => exact .refl _ fun k s => .refl s k
  | append_singleton calls call ih =>
    rw [afterAll_concat, List.map_append]
    exact ih.trans (changes_after _ call) fun _ _ _ _ => .snoc

/-- Nothing is left to copy after more calls, if nothing was before. -/
theorem Settled.afterAll {container : Container} (h : container.Settled) (calls : List Call) :
    (container.afterAll calls).Settled := by
  have hchanges := container.changes_afterAll calls
  intro t ht hdata
  obtain ⟨k, hk⟩ := List.mem_iff_getElem?.mp ht
  obtain ⟨s, hs, hdevelops⟩ := hchanges.exists_of_getElem? hk
  refine hdevelops.stays (h s (List.mem_of_getElem? hs) ?_)
  rw [hdevelops.kept] at hdata
  exact hdata

end Container

/-- Whatever is called on an opened file, or on what earlier calls made of it, changes the sizes and
places of its sections only, and those only as `Section.Develops` says. A call that is rejected for
want of a section changes nothing, and once all sections were copied there is nothing left to copy,
whatever is called then. -/
theorem calls_keep_sections (first : Container) (calls : List Call) :
    (first.Changes (fun k s t => s.Develops (calls.map Call.operation) k t ∧
        (first.afterAll calls).contents t = first.contents s) (first.afterAll calls)) ∧
      (∀ call index rejected,
        Call.outcome call (first.afterAll calls) = .error (.noSuchSection index) rejected →
        rejected = ⟨first.afterAll calls, call.image⟩) ∧
      ∀ image start stop after,
        Placing.copySections start ⟨first.afterAll calls, image⟩ = .ok stop after →
        after.container.Settled ∧
          ∀ later image start, Placing.copySections start ⟨after.container.afterAll later, image⟩ =
            .ok start ⟨after.container.afterAll later, image⟩ := by
  have hchanges := first.changes_afterAll calls
  refine ⟨hchanges.mono fun k s t hdevelops => ⟨hdevelops, ?_⟩, ?_, ?_⟩
  · rw [hdevelops.kept, hchanges.frame]
    rfl
  · intro call index rejected hrejected
    have hchanging := Placing.changing_perform call.operation ⟨first.afterAll calls, call.image⟩
    -- a rejected call is one that changed nothing
    rw [← Call.outcome, hrejected] at hchanging
    cases hchanging
    rfl
  · intro image start stop after hcopied
    have hsettled := Placing.settled_of_copySections hcopied
    exact ⟨hsettled, fun later image start =>
      Placing.copySections_of_settled (hsettled.afterAll later) start⟩

/-- Calls on `mixedFile`: one section is copied, the one without contents is marked, another one's size
is set, and one is asked for that is not there. -/
def mixedCalls : List Call :=
  [⟨.copySection 61 1, .empty⟩, ⟨.markPlaced 2 7, .empty⟩, ⟨.setSize 4 9, .empty⟩,
    ⟨.copySection 0 9, .empty⟩]

/-- Calls that set a size, mark a place, copy, and fail, on a file with sections of several types.
-/
theorem calls_keep_sections_mixedCalls :
    Container.ofBytes mixedFile = .ok mixedContainer ∧
      mixedContainer.Changes (fun k s t => s.Develops (mixedCalls.map Call.operation) k t ∧
        (mixedContainer.afterAll mixedCalls).contents t = mixedContainer.contents s)
        (mixedContainer.afterAll mixedCalls) ∧
      (∀ rejected, Call.outcome ⟨.setSize 9 0, .empty⟩ (mixedContainer.afterAll mixedCalls) =
          .error (.noSuchSection 9) rejected →
        rejected = ⟨mixedContainer.afterAll mixedCalls, .empty⟩) ∧
      (∃ rejected, Call.outcome ⟨.setSize 9 0, .empty⟩ (mixedContainer.afterAll mixedCalls) =
          .error (.noSuchSection 9) rejected) ∧
      ∃ after, Placing.copySections 69 ⟨mixedContainer.afterAll mixedCalls, .empty⟩ = .ok 99 after ∧
        after.container.Settled ∧
        Placing.copySections 5 ⟨after.container.afterAll mixedCalls, .empty⟩ =
          .ok 5 ⟨after.container.afterAll mixedCalls, .empty⟩ := by
  have hopen : Container.ofBytes mixedFile = .ok mixedContainer := by decide +kernel
  obtain ⟨hchanges, hrejected, hsettled⟩ := calls_keep_sections mixedContainer mixedCalls
  have hcopied : ∃ after,
      Placing.copySections 69 ⟨mixedContainer.afterAll mixedCalls, .empty⟩ = .ok 99 after := ⟨_, rfl⟩
  obtain ⟨after, hcopied⟩ := hcopied
  obtain ⟨hdone, hlater⟩ := hsettled .empty 69 99 after hcopied
  exact ⟨hopen, hchanges, hrejected _ 9, ⟨_, rfl⟩, after, hcopied, hdone, hlater mixedCalls .empty 5⟩

end DwarfLines.Elf
