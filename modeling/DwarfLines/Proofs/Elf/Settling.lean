import DwarfLines.Proofs.Elf.Container
import DwarfLines.Proofs.Elf.Image
import DwarfLines.Proofs.Elf.Steps

/-!
# Copying the fixed part

Copying the fixed part of a freshly opened file gives the front of the file itself, up to the end of
the fixed part and of every section that starts in it. Just these sections have their place then.
-/

namespace DwarfLines.Elf

open Outcome

/-- Whether a section has contents that start in the fixed part. -/
def Section.IsFixed (fixedStop : UInt32) (s : Section) : Prop :=
  s.header.hasFileData = true ∧ s.header.offset < fixedStop

instance (fixedStop : UInt32) (s : Section) : Decidable (s.IsFixed fixedStop) :=
  inferInstanceAs (Decidable (_ ∧ _))

/-- A section after the fixed part was copied. -/
def Section.settle (fixedStop : UInt32) (s : Section) : Section :=
  if s.IsFixed fixedStop then { s with placed := true } else s

/-- Settling a section changes no field of its header. -/
@[simp]
theorem Section.header_settle (fixedStop : UInt32) (s : Section) :
    (s.settle fixedStop).header = s.header := by
  unfold settle
  split <;> rfl

/-- Settling a section keeps where its contents come from. -/
@[simp]
theorem Section.source_settle (fixedStop : UInt32) (s : Section) :
    (s.settle fixedStop).source = s.source := by
  unfold settle
  split <;> rfl

/-- Settling a section keeps everything but its place. -/
@[simp]
theorem Section.skeleton_settle (fixedStop : UInt32) (s : Section) :
    (s.settle fixedStop).skeleton = s.skeleton := by
  unfold settle
  split <;> rfl

/-- Settling places the sections in the fixed part and no others. -/
theorem Section.placed_settle {fixedStop : UInt32} {s : Section} (h : s.placed = false) :
    (s.settle fixedStop).placed = true ↔ s.IsFixed fixedStop := by
  unfold settle
  split <;> simp_all

/-- A layout that shows the front of a file up to `stop`, where the sections with the numbers `done`
have been kept. -/
def Layout.settled (container : Container) (done : List Nat) (stop : Nat) : Layout :=
  { container := { container with
      sections := container.sections.mapIdx fun k s =>
        if k ∈ done then s.settle container.fixedStop else s }
    image := ⟨container.data.take stop⟩ }

/-- Writing a part of a file where it was, into a front of this file that reaches so far, gives a
front again. -/
theorem Image.writeAt_take {data : Bytes} (span : Span) {stop : Nat} (hstart : span.start ≤ stop)
    (hstop : stop ≤ data.length) (hspan : span.start ≤ span.stop)
    (hspan' : span.stop ≤ data.length) :
    ((mk (data.take stop)).writeAt span.start (span.slice data)).bytes =
      data.take (max stop span.stop) := by
  have hlength : (span.slice data).length = span.stop - span.start := Span.length_slice hspan'
  -- byte by byte: under the new bytes, in the copied part, past both
  apply List.ext_getElem?
  intro i
  rw [getElem?_writeAt, hlength]
  by_cases hinside : span.start ≤ i ∧ i < span.stop
  · rw [if_pos (by omega), Span.getElem?_slice (by unfold Span.length; omega),
      List.getElem?_take_of_lt (by omega), Nat.add_sub_cancel' hinside.1]
  · have hfront : (mk (data.take stop)).length = stop := by
      simp only [length, List.length_take]
      omega
    rw [if_neg (by omega), hfront]
    by_cases hi : i < stop
    · rw [if_pos (by omega), List.getElem?_take_of_lt hi, List.getElem?_take_of_lt (by omega),
        List.getElem?_eq_getElem (by omega)]
      rfl
    · rw [if_neg (by omega), List.getElem?_take_eq_none (by omega)]

namespace Layout

/-- A section of the settled layout is the old one, settled if its turn has come. -/
theorem getElem?_settled (container : Container) (done : List Nat) (stop k : Nat) :
    (settled container done stop).container.sections[k]? =
      container.sections[k]?.map fun s =>
        if k ∈ done then s.settle container.fixedStop else s := by
  simp only [settled, List.getElem?_mapIdx]

/-- Settling sections does not move the end of the fixed part. -/
@[simp]
theorem fixedStop_settled (container : Container) (done : List Nat) (stop : Nat) :
    (settled container done stop).container.fixedStop = container.fixedStop := rfl

/-- After the turn of every section all of them are settled. -/
theorem sections_settled_range (container : Container) (stop : Nat) :
    (settled container (List.range container.sections.length) stop).container.sections =
      container.sections.map (Section.settle container.fixedStop) := by
  apply List.ext_getElem?
  intro k
  rw [getElem?_settled, List.getElem?_map]
  cases hs : container.sections[k]? with
  | none => rfl
  | some s =>
    rw [Option.map_some, Option.map_some,
      if_pos (List.mem_range.mpr (List.getElem?_eq_some_iff.mp hs).1)]

/-- Before any section is kept, the fixed part is the front of the file. -/
theorem settled_nil {container : Container} {stop : Nat} (hstop : stop ≤ container.data.length) :
    (start container).writeAt 0 (container.data.take stop) = settled container [] stop := by
  have hsections : (settled container [] stop).container.sections = container.sections := by
    apply List.ext_getElem?
    intro k
    rw [getElem?_settled]
    simp
  have himage := Image.writeAt_take ⟨0, stop⟩ (Nat.le_refl 0) (Nat.zero_le _) (Nat.zero_le _) hstop
  rw [Nat.zero_max] at himage
  unfold settled at hsections ⊢
  dsimp only at hsections
  rw [hsections]
  exact congrArg (fun bytes => Layout.mk _ ⟨bytes⟩) himage

/-- A section that is not kept may count as done. -/
theorem settled_concat {container : Container} {done : List Nat} {index : Nat} {s : Section}
    (hs : container.sections[index]? = some s)
    (h : index ∈ done ∨ ¬ s.IsFixed container.fixedStop) (stop : Nat) :
    settled container (done ++ [index]) stop = settled container done stop := by
  have hsections : (settled container (done ++ [index]) stop).container.sections =
      (settled container done stop).container.sections := by
    apply List.ext_getElem?
    intro k
    rw [getElem?_settled, getElem?_settled]
    -- only the section at `index` can change, and it was settled before or is not to be
    by_cases hk : k = index
    · subst hk
      rw [hs, Option.map_some, Option.map_some]
      rcases h with hdone | hfixed
      · simp [hdone]
      · simp [Section.settle, hfixed]
    · simp [hk]
  unfold settled at hsections ⊢
  dsimp only at hsections
  rw [hsections]

/-- Keeping one more section of the fixed part settles it, and extends the copied part to its end.
-/
theorem keep_settled {container : Container} {done : List Nat} {index : Nat} {s : Section}
    (hs : container.sections[index]? = some s) (hfixed : s.IsFixed container.fixedStop) {stop : Nat}
    (hstart : s.source.start ≤ stop) (hstop : stop ≤ container.data.length)
    (hspan : s.source.start ≤ s.source.stop) (hspan' : s.source.stop ≤ container.data.length) :
    (settled container done stop).keep index s =
      settled container (done ++ [index]) (max stop s.source.stop) := by
  have hsections : ((settled container done stop).keep index s).container.sections =
      (settled container (done ++ [index]) (max stop s.source.stop)).container.sections := by
    apply List.ext_getElem?
    intro k
    have hindex := (List.getElem?_eq_some_iff.mp hs).1
    rw [getElem?_settled]
    show ((settled container done stop).container.sections.set index _)[k]? = _
    rw [List.getElem?_set, getElem?_settled]
    -- only the section at `index` is set; the image grows to the end of its contents
    by_cases hk : index = k
    · subst hk
      rw [if_pos rfl, if_pos (by simpa [settled] using hindex), hs, Option.map_some,
        if_pos (by simp), Section.settle, if_pos hfixed]
    · simp [hk, Ne.symm hk]
  have himage := Image.writeAt_take s.source hstart hstop hspan hspan'
  unfold keep setSection writeAt at hsections ⊢
  unfold settled at hsections ⊢
  dsimp only at hsections
  rw [hsections]
  exact congrArg (fun bytes => Layout.mk _ ⟨bytes⟩) himage

/-- Whether a layout comes from keeping the sections `done`, all of which end before `stop`. -/
structure IsSettled (container : Container) (done : List Nat) (stop : UInt32)
    (layout : Layout) : Prop where
  eq : layout = settled container done stop.toNat
  fixed_le : container.fixedStop ≤ stop
  stop_le : stop.toNat ≤ container.data.length
  source_le : ∀ k ∈ done, ∀ s, container.sections[k]? = some s →
    s.IsFixed container.fixedStop → s.source.stop ≤ stop.toNat

end Layout

/-- The larger of two words is the larger of their values. -/
theorem toNat_max (a b : UInt32) : (max a b).toNat = max a.toNat b.toNat := by
  have hmax : max a b = if a ≤ b then b else a := rfl
  rw [hmax]
  split
  · rename_i h
    rw [UInt32.le_iff_toNat_le] at h
    omega
  · rename_i h
    rw [UInt32.le_iff_toNat_le] at h
    omega

namespace Placing

variable {container : Container}

/-- A section already settled, or outside the fixed part, is passed over. -/
theorem skips_of_settle {fixedStop : UInt32} {done : List Nat} {index : Nat} {s : Section}
    (h : index ∈ done ∨ ¬ s.IsFixed fixedStop) :
    ((if index ∈ done then s.settle fixedStop else s).placed ||
      !(if index ∈ done then s.settle fixedStop else s).header.hasFileData ||
      fixedStop ≤ (if index ∈ done then s.settle fixedStop else s).header.offset) = true := by
  by_cases hfixed : s.IsFixed fixedStop
  · simp [h.resolve_right (not_not_intro hfixed), Section.settle, hfixed]
  · have hsame : (if index ∈ done then s.settle fixedStop else s) = s := by
      simp [Section.settle, hfixed]
    rw [hsame]
    unfold Section.IsFixed at hfixed
    rw [not_and, UInt32.not_lt] at hfixed
    cases hdata : s.header.hasFileData with
    | false => simp
    | true => simp [hfixed hdata]

/-- The turn of one section keeps the layout settled up to the destination. -/
theorem isSettled_keepSection (hfresh : container.Fresh) {done : List Nat} {index : Nat}
    {dest stop : UInt32} {before after : Layout}
    (hbefore : before.IsSettled container done dest)
    (h : keepSection dest index before = .ok stop after) :
    after.IsSettled container (done ++ [index]) stop := by
  obtain ⟨rfl, hfixed, hlength, hsource⟩ := hbefore
  obtain ⟨found, hfound, h⟩ := keepSection_eq_ok_iff.mp h
  rw [Layout.getElem?_settled] at hfound
  obtain ⟨s, hs, rfl⟩ := Option.map_eq_some_iff.mp hfound
  have hunplaced := hfresh.unplaced s (List.mem_of_getElem? hs)
  -- its turn has come before or it is not in the fixed part: the layout stays as it is
  by_cases hskip : index ∈ done ∨ ¬ s.IsFixed container.fixedStop
  · rw [Layout.fixedStop_settled, if_pos (skips_of_settle hskip)] at h
    obtain ⟨rfl, rfl⟩ := h
    refine ⟨(Layout.settled_concat hs hskip _).symm, hfixed, hlength, ?_⟩
    intro k hk t ht htfixed
    rcases List.mem_append.mp hk with hk | hk
    · exact hsource k hk t ht htfixed
    · obtain rfl := List.mem_singleton.mp hk
      obtain rfl := Option.some.inj (hs.symm.trans ht)
      exact hsource k (hskip.resolve_right (not_not_intro htfixed)) s ht htfixed
  · obtain ⟨hdone, hkeep⟩ := not_or.mp hskip
    have hkeep := not_not.mp hkeep
    rw [if_neg hdone, if_neg] at h
    · obtain ⟨last, hlast, rfl, rfl⟩ := h
      obtain ⟨hsource', hstop⟩ := sourceOf?_eq_some_of_hasFileData
        (hfresh.source s (List.mem_of_getElem? hs)) hkeep.1
      have hstart := UInt32.lt_iff_toNat_lt.mp hkeep.2
      have hmax := toNat_max dest last
      have hdest := UInt32.le_iff_toNat_le.mp hfixed
      refine ⟨?_, ?_, by omega, ?_⟩
      · rw [hmax, hlast]
        exact Layout.keep_settled hs hkeep (by rw [hsource']; dsimp only; omega) hlength
          (by rw [hsource']; dsimp only; omega) hstop
      · rw [UInt32.le_iff_toNat_le]
        omega
      -- the contents of the sections before it end no later than before
      · intro k hk t ht htfixed
        rcases List.mem_append.mp hk with hk | hk
        · have := hsource k hk t ht htfixed
          omega
        · obtain rfl := List.mem_singleton.mp hk
          obtain rfl := Option.some.inj (hs.symm.trans ht)
          omega
    · simp [hunplaced, hkeep.1, UInt32.not_le.mpr hkeep.2]

/-- Copying the fixed part gives the front of the file. -/
theorem eq_of_copyFixed (hfresh : container.Fresh) {stop : UInt32} {after : Layout}
    (h : copyFixed (.start container) = .ok stop after) :
    after = ⟨{ container with sections := container.sections.map (.settle container.fixedStop) },
      ⟨container.data.take stop.toNat⟩⟩ ∧
      container.fixedStop ≤ stop ∧ stop.toNat ≤ container.data.length ∧
      ∀ s ∈ container.sections, s.IsFixed container.fixedStop → s.source.stop ≤ stop.toNat := by
  unfold copyFixed at h
  simp only [state_bind_eq_ok_iff, state_get_eq_ok_iff, state_modify_eq_ok_iff] at h
  obtain ⟨_, _, ⟨rfl, rfl⟩, _, _, rfl, h⟩ := h
  have hstart : ((Layout.start container).writeAt 0
      (container.data.take container.fixedStop.toNat)).IsSettled container []
        container.fixedStop := by
    refine ⟨Layout.settled_nil hfresh.fixed_le, UInt32.le_refl _, hfresh.fixed_le, ?_⟩
    exact fun k hk => absurd hk List.not_mem_nil
  -- the invariant: the sections whose turn has come are settled, the others as they were
  have hdone := state_foldlM_induction h (motive := fun done stop layout =>
    layout.IsSettled container done stop) hstart
      fun done index dest before stop after hbefore hstep =>
        isSettled_keepSection hfresh hbefore hstep
  refine ⟨?_, hdone.fixed_le, hdone.stop_le, fun s hs hfixed => ?_⟩
  · rw [hdone.eq, ← Layout.sections_settled_range container stop.toNat]
    rfl
  · obtain ⟨k, hk⟩ := List.mem_iff_getElem?.mp hs
    exact hdone.source_le k (List.mem_range.mpr (List.getElem?_eq_some_iff.mp hk).1) s hk hfixed

end Placing

end DwarfLines.Elf
