import DwarfLines.Proofs.Elf.Placing
import DwarfLines.Proofs.Guarded.Container

/-!
# Laying out files within bounds

A write fills an image up first, so there is always something to write over; what it needs is an end
that an offset can name. The offsets that steps choose fit 32 bits, and so do the sizes of sections.
Hence a step needs nothing but what opening a file has established, and it leaves that as it is.
-/

namespace DwarfLines.Elf

open Guarded

/-! ## Images -/

namespace Image

variable {ε : Type}

/-- Writes bytes at an offset. An image that ends before the write does is filled up first. -/
def writeWithin (image : Image) (offset : Nat) (new : Bytes) : Guarded ε Image := do
  let stop ← add 64 offset new.length
  let filled := if image.length < stop then image.setLength stop else image
  return ⟨← overwrite filled.bytes offset stop new⟩

theorem setLength_length (image : Image) : image.setLength image.length = image := by
  simp [setLength, length]

/-- Writing within bounds writes the same, as no end of it leaves the words. -/
theorem writeWithin_eq {offset : Nat} {new : Bytes} (h : offset + new.length < 2 ^ 64)
    (image : Image) : (image.writeWithin offset new : Guarded ε Image) =
      pure (image.writeAt offset new) := by
  -- growing before the write or growing to the larger of the two lengths is the same
  have hfilled : (if image.length < offset + new.length then image.setLength (offset + new.length)
      else image) = image.setLength (max image.length (offset + new.length)) := by
    split
    · rw [Nat.max_eq_right (by omega)]
    · rw [Nat.max_eq_left (by omega), setLength_length]
  have hlength := length_setLength image (max image.length (offset + new.length))
  rw [length] at hlength
  rw [writeWithin, add_eq h, pure_bind, hfilled]
  dsimp only
  rw [overwrite_eq rfl (by omega), pure_bind]
  rfl

/-- Bytes may be written in two parts. -/
theorem writeAt_append (image : Image) (offset : Nat) (front back : Bytes) :
    (image.writeAt offset front).writeAt (offset + front.length) back =
      image.writeAt offset (front ++ back) := by
  have hbytes : ((image.writeAt offset front).writeAt (offset + front.length) back).bytes =
      (image.writeAt offset (front ++ back)).bytes := by
    -- byte by byte: behind the first write, inside it, or in the image that was there
    apply List.ext_getElem?
    intro i
    simp only [getElem?_writeAt, length_writeAt, List.length_append]
    by_cases hback : offset + front.length ≤ i ∧ i < offset + front.length + back.length
    · rw [if_pos hback, if_pos (by omega), List.getElem?_append_right (by omega), Nat.sub_sub]
    · rw [if_neg hback]
      by_cases hfront : offset ≤ i ∧ i < offset + front.length
      · rw [if_pos hfront, if_pos (by omega), if_pos (by omega),
          List.getElem?_append_left (by omega), List.getElem?_eq_getElem (by omega)]
        rfl
      · have hneither : ¬ (offset ≤ i ∧ i < offset + (front.length + back.length)) := by omega
        rw [if_neg hfront, if_neg hneither]
        by_cases hi : i < max image.length (offset + (front.length + back.length))
        · rw [if_pos (by omega), if_pos (by omega), if_pos hi]
          rfl
        · rw [if_neg (by omega), if_neg hi]
  exact congrArg Image.mk hbytes

end Image

/-! ## Section headers -/

/-- Stores words one after the other in the places of `bytes`, the first in the place with the given
number. -/
def storeWords (bytes : Bytes) (words : List UInt32) (first : Nat) : Guarded Error Bytes :=
  (words.zipIdx first).foldlM (fun bytes (word, i) =>
    overwrite bytes (4 * i) (4 * i + 4) (bytesOfWord32 word)) bytes

/-- The entry of a section as it is stored. -/
def SectionHeader.bytesWithin (header : SectionHeader) : Guarded Error Bytes :=
  storeWords (List.replicate Part.section.size 0) header.fields 0

/-- Words that are stored one by one into zeroed space stand there one behind the other. -/
theorem storeWords_eq (words : List UInt32) (front : Bytes) {first : Nat}
    (hfront : front.length = 4 * first) :
    storeWords (front ++ List.replicate (4 * words.length) 0) words first =
      pure (front ++ words.flatMap bytesOfWord32) := by
  -- the words before `first` are written, those from it on still zero
  induction words generalizing front first with
  | nil => rfl
  | cons word words ih =>
    have hword := length_bytesOfWord32 word
    have hrest : 4 * (word :: words).length - (front.length + 4 - front.length) =
        4 * words.length := by
      rw [List.length_cons]
      omega
    have hover : overwrite (front ++ List.replicate (4 * (word :: words).length) 0) (4 * first)
        (4 * first + 4) (bytesOfWord32 word) =
        (pure ((front ++ bytesOfWord32 word) ++ List.replicate (4 * words.length) 0) :
          Guarded Error Bytes) := by
      -- the next word replaces the first four of the zero bytes that are left
      rw [overwrite_eq (by rw [hword]) (by
        rw [List.length_append, List.length_replicate, List.length_cons]
        omega), ← hfront, List.take_left, List.drop_append, List.drop_replicate,
        List.drop_of_length_le (Nat.le_add_right _ _)]
      rw [hrest, List.nil_append]
    have hnext : (front ++ bytesOfWord32 word).length = 4 * (first + 1) := by
      rw [List.length_append, hfront, hword]
      omega
    rw [storeWords, List.zipIdx_cons, List.foldlM_cons]
    dsimp only
    rw [hover, pure_bind, List.flatMap_cons, ← List.append_assoc]
    exact ih _ hnext

/-- The bytes of a section header are those of its words. -/
theorem SectionHeader.bytesWithin_eq (header : SectionHeader) :
    header.bytesWithin = pure header.bytes :=
  storeWords_eq header.fields [] rfl

/-! ## Layouts within bounds -/

/-- Whether the contents of a section lie within the file. -/
structure Section.Bounded (data : Bytes) (s : Section) : Prop where
  start_le : s.source.start ≤ s.source.stop
  stop_le : s.source.stop ≤ data.length
  stop_lt : s.source.stop < 2 ^ 33

/-- What bounds a section is only where it comes from. -/
theorem Section.Bounded.of_source_eq {data : Bytes} {s new : Section} (h : s.Bounded data)
    (hnew : new.source = s.source) : new.Bounded data :=
  ⟨hnew ▸ h.start_le, hnew ▸ h.stop_le, hnew ▸ h.stop_lt⟩

/-- What opening a file has established, and what laying it out leaves as it is. -/
structure Layout.Bounded (data : Bytes) (layout : Layout) : Prop where
  data_eq : layout.container.data = data
  sections : ∀ s ∈ layout.container.sections, s.Bounded data
  count : layout.container.sections.length < 2 ^ 16
  fixed_le : layout.container.fixedStop.toNat ≤ data.length
  segments_le : layout.container.header.segmentsStop ≤ data.length

namespace Layout.Bounded

variable {data : Bytes} {layout : Layout}

/-- The layout of an opened file starts within bounds. -/
theorem start {container : Container} (h : Container.ofBytes data = .ok container) :
    (Layout.start container).Bounded data := by
  have hfresh := Container.fresh_of_ofBytes h
  obtain rfl := Container.data_of_ofBytes h
  -- what is checked is the header; the copy of the section lies in the same file
  refine ⟨rfl, fun s hs => ?_, Container.length_sections_lt h, hfresh.fixed_le,
    Nat.le_trans hfresh.segments_le hfresh.fixed_le⟩
  have hsource := hfresh.source s hs
  obtain ⟨hstart, hstop⟩ := span_of_sourceOf? hsource
  refine ⟨hstart, hstop, ?_⟩
  have hoffset := s.header.offset.toNat_lt
  have hsize := s.header.size.toNat_lt
  cases hdata : s.header.hasFileData with
  | true =>
    rw [(sourceOf?_eq_some_of_hasFileData hsource hdata).1]
    dsimp only
    omega
  | false =>
    rw [sourceOf?, hdata] at hsource
    rw [← Option.some.inj hsource]
    dsimp only
    omega

/-- Bounds say nothing about what the image holds. -/
theorem withImage (h : layout.Bounded data) (image : Image) :
    Layout.Bounded data { layout with image } where
  __ := h

/-- A section may be replaced by one that is within bounds. -/
theorem setSection (h : layout.Bounded data) {new : Section} (hnew : new.Bounded data)
    (index : Nat) : (layout.setSection index new).Bounded data where
  __ := h
  sections s hs := by
    rcases List.mem_or_eq_of_mem_set hs with hs | rfl
    · exact h.sections s hs
    · exact hnew
  count := by
    show (layout.container.sections.set index new).length < 2 ^ 16
    rw [List.length_set]
    exact h.count

end Layout.Bounded

/-! ## Steps -/

/-- A step of laying out a file within bounds. -/
abbrev Laying := StateT Layout (Guarded Error)

namespace Laying

variable {α : Type}

/-- The value, or the error that an offset does not fit. -/
def orInvalidOffset : Option α → Laying α
  | some a => pure a
  | none => throw .invalidOffset

/-- The section with a given number. -/
def getSection (index : Nat) : Laying Section := fun layout => do
  return (← ofExcept (layout.container.section? index), layout)

/-- Writes bytes into the image. -/
def writeAt (offset : Nat) (new : Bytes) : Laying Unit := fun layout => do
  return ((), { layout with image := ← layout.image.writeWithin offset new })

/-- Writes the contents of a section at `offset`, puts another section in its place, and returns the
number of bytes. -/
def put (index : Nat) (found : Section) (offset : Nat) (new : Section) : Laying Nat := do
  let data := (← get).container.data
  let bytes ← StateT.lift (slice data found.source.start found.source.stop)
  writeAt offset bytes
  modify fun layout => layout.setSection index new
  return bytes.length

/-- Copies a section to the first place at or after `dest` that its alignment allows, and returns the
aligned end of the copy. -/
def copySection (dest : UInt32) (index : Nat) : Laying UInt32 := do
  let found ← getSection index
  if found.placed || !found.header.hasFileData then return dest
  let offset ← orInvalidOffset (alignUp? dest found.header.alignment)
  let length ← put index found offset.toNat
    { found with header := { found.header with offset }, placed := true }
  let stop ← orInvalidOffset (advance? offset length)
  orInvalidOffset (alignUp? stop found.header.alignment)

/-- Copies a section to where it was, if it starts in the fixed part, and returns the later of `stop`
and its end. -/
def keepSection (stop : UInt32) (index : Nat) : Laying UInt32 := do
  let found ← getSection index
  let fixedStop := (← get).container.fixedStop
  if found.placed || !found.header.hasFileData || fixedStop ≤ found.header.offset then return stop
  let _length ← put index found found.source.start { found with placed := true }
  let sectionStop ← orInvalidOffset (word32? found.source.stop)
  return max stop sectionStop

/-- Copies the fixed part as it is and every section that starts in it to where it was, and returns
the first offset past all of them. -/
def copyFixed : Laying UInt32 := do
  let container := (← get).container
  writeAt 0 (← StateT.lift (slice container.data 0 container.fixedStop.toNat))
  (List.range container.sections.length).foldlM keepSection container.fixedStop

/-- Copies every section that has no place yet, in the order of the table, from `start` on, and
returns the end. -/
def copySections (start : UInt32) : Laying UInt32 := do
  let count := (← get).container.sections.length
  (List.range count).foldlM copySection start

/-- Records the size of a section whose contents were generated. -/
def setSize (index : Nat) (size : UInt32) : Laying Unit := do
  let found ← getSection index
  modify fun layout => layout.setSection index { found with header := { found.header with size } }

/-- Records that a section's contents were written at `offset`. -/
def markPlaced (index : Nat) (offset : UInt32) : Laying Unit := do
  let found ← getSection index
  modify fun layout => layout.setSection index
    { found with header := { found.header with offset }, placed := true }

/-- Writes the table of segments where it was. -/
def writeSegments : Laying Unit := do
  let container := (← get).container
  let start := container.header.segmentOffset.toNat
  let stop ← StateT.lift
    (tableStop .segment container.header.segmentOffset container.header.segmentCount)
  writeAt start (← StateT.lift (slice container.data start stop))

/-- Writes the entry of a section, and returns where the next one goes. -/
def writeEntry (position : Nat) (s : Section) : Laying Nat := do
  writeAt position (← StateT.lift s.header.bytesWithin)
  StateT.lift (add 64 position Part.section.size)

/-- Points the header at a table of sections and ends the image. -/
def finish (table : UInt32) (stop : Nat) : Laying Unit := do
  writeAt sectionOffsetField (bytesOfWord32 table)
  modify fun layout => { layout with image := layout.image.setLength stop }

/-- Writes the table of sections at the first multiple of 4 at or after `offset`, points the header
at it, and ends the image after it. Returns the length of the image. -/
def writeSectionHeaders (offset : UInt32) : Laying UInt32 := do
  let sections := (← get).container.sections
  if sections.isEmpty then
    finish 0 offset.toNat
    return offset
  let start ← orInvalidOffset (alignUp? offset 4)
  let position ← sections.foldlM writeEntry start.toNat
  let stop ← orInvalidOffset (word32? position)
  finish start position
  return stop

/-! ## Steps that agree -/

/-- Whether a step within bounds does what a step does, on every layout within bounds, returns only
values that satisfy `P`, and leaves the layout within bounds. -/
def Places (data : Bytes) (P : α → Prop) (x : Laying α) (step : Placing α) : Prop :=
  ∀ layout : Layout, layout.Bounded data →
    Agrees (fun p q => p = q ∧ P p.1 ∧ p.2.Bounded data) (x layout) (outcome step layout)

namespace Places

variable {β : Type} {data : Bytes} {P : α → Prop} {Q : β → Prop} {x : Laying α} {step : Placing α}

/-- A value is laid by no steps. -/
theorem pure {a : α} (h : P a) : Places data P (Pure.pure a) (Pure.pure a) :=
  fun _ hlayout => .pure ⟨rfl, h, hlayout⟩

/-- Steps that are laid one after the other stay within bounds if each does. -/
theorem bind (h : Places data P x step) {f : α → Laying β} {g : α → Placing β}
    (hf : ∀ a, P a → Places data Q (f a) (g a)) : Places data Q (x >>= f) (step >>= g) := by
  intro layout hlayout
  rw [outcome_bind]
  refine (h layout hlayout).bind ?_
  rintro ⟨a, after⟩ _ - ⟨rfl, ha, hafter⟩
  exact hf a ha after hafter

/-- What holds of the value may be forgotten. -/
theorem mono (h : Places data P x step) {P' : α → Prop} (hP : ∀ a, P a → P' a) :
    Places data P' x step := fun layout hlayout =>
  (h layout hlayout).mono fun _ _ _ ⟨heq, ha, hafter⟩ => ⟨heq, hP _ ha, hafter⟩

/-- Both programs may branch alike. -/
theorem ite {c : Prop} [Decidable c] {x' : Laying α} {step' : Placing α}
    (h : c → Places data P x step) (h' : ¬ c → Places data P x' step') :
    Places data P (if c then x else x') (if c then step else step') := by
  split
  · exact h ‹_›
  · exact h' ‹_›

/-- A guard that holds does not matter. -/
theorem lift {y : Guarded Error β} {b : β} (hy : y = Pure.pure b) {f : β → Laying α}
    (h : Places data P (f b) step) : Places data P (StateT.lift y >>= f) step := by
  subst hy
  exact h

end Places

/-- The steps of a sequence in order. -/
theorem bind_apply {β : Type} (x : Laying α) (f : α → Laying β) (layout : Layout) :
    (x >>= f) layout = x layout >>= fun p => f p.1 p.2 := rfl

/-- A check that passes leaves the layout as it is. -/
theorem lift_pure_bind {β : Type} (b : β) (f : β → Laying α) :
    (StateT.lift (pure b) >>= f) = f b := rfl

variable {data : Bytes}

/-- The layout may be looked at. -/
theorem places_get : Places data (fun layout => layout.Bounded data) get get :=
  fun _ hlayout => .pure ⟨rfl, hlayout, hlayout⟩

/-- The layout may be changed to one within bounds. -/
theorem places_modify {f : Layout → Layout}
    (hf : ∀ layout, layout.Bounded data → (f layout).Bounded data) :
    Places data (fun _ => True) (modify f) (modify f) :=
  fun layout hlayout => .pure ⟨rfl, trivial, hf layout hlayout⟩

/-- An offset that is not there stops both programs with the same error. -/
theorem places_orInvalidOffset (o : Option α) :
    Places data (fun a => o = some a) (orInvalidOffset o) (Placing.orInvalidOffset o) := by
  intro layout hlayout
  cases o with
  | none => exact .throw _
  | some a => exact .pure ⟨rfl, rfl, hlayout⟩

/-- A section that is looked up is within bounds, and one that is missing stops both programs. -/
theorem places_getSection (index : Nat) :
    Places data (fun found => found.Bounded data) (getSection index)
      (Placing.getSection index) := by
  intro layout hlayout
  have hright : outcome (Placing.getSection index) layout =
      layout.container.section? index >>= fun found => .ok (found, layout) := by
    show outcome (Bind.bind get _) layout = _
    rw [outcome_bind]
    show outcome _ layout = _
    cases layout.container.section? index <;> rfl
  rw [hright]
  refine (Agrees.ofExcept _).bind fun found _ hfound heq => ?_
  subst heq
  exact .pure ⟨rfl, hlayout.sections found
    (List.mem_of_getElem? (Container.section?_eq_ok_iff.mp hfound)), hlayout⟩

/-- A write whose end fits 64 bits goes through. -/
theorem writeAt_eq {offset : Nat} {new : Bytes} (h : offset + new.length < 2 ^ 64)
    (layout : Layout) : writeAt offset new layout = pure ((), layout.writeAt offset new) := by
  rw [writeAt, Image.writeWithin_eq h, pure_bind]
  rfl

/-- A write whose end fits 64 bits is the same in both programs. -/
theorem places_writeAt {offset : Nat} {new : Bytes} (h : offset + new.length < 2 ^ 64) :
    Places data (fun _ => True) (writeAt offset new)
      (modify fun layout => layout.writeAt offset new) := by
  intro layout hlayout
  rw [writeAt_eq h]
  exact .pure ⟨rfl, trivial, hlayout.withImage _⟩

/-- Contents that are within the file are written where they are put. -/
theorem places_put_bind {index offset : Nat} {found new : Section} {step : Layout → Layout}
    (hstep : ∀ layout : Layout, step layout =
      (layout.writeAt offset (layout.container.contents found)).setSection index new)
    (hfound : found.Bounded data) (hnew : new.source = found.source) (hoffset : offset < 2 ^ 33)
    {P : α → Prop} {f : Nat → Laying α} {g : Unit → Placing α}
    (h : Places data P (f found.source.length) (g ())) :
    Places data P (put index found offset new >>= f) (modify step >>= g) := by
  intro layout hlayout
  have hlt := hfound.stop_lt
  have hstop' : found.source.stop ≤ layout.container.data.length := by
    rw [hlayout.data_eq]
    exact hfound.stop_le
  have hlength : (layout.container.contents found).length = found.source.length :=
    Span.length_slice hstop'
  have hlength' : found.source.length ≤ found.source.stop := Nat.sub_le _ _
  have hput : put index found offset new layout = pure (found.source.length, step layout) := by
    have hget : (get : Laying Layout) layout = pure (layout, layout) := rfl
    rw [put, bind_apply, hget, pure_bind, slice_eq hfound.start_le hstop', lift_pure_bind,
      ← Container.contents, bind_apply, writeAt_eq (by omega), pure_bind, hlength, hstep]
    rfl
  have hafter : (step layout).Bounded data := by
    rw [hstep]
    exact (hlayout.withImage _).setSection (hfound.of_source_eq hnew) index
  rw [bind_apply, hput, pure_bind]
  exact h _ hafter

/-- A section is copied within bounds. -/
theorem places_copySection (dest : UInt32) (index : Nat) :
    Places data (fun _ => True) (copySection dest index) (Placing.copySection dest index) := by
  unfold copySection Placing.copySection
  refine (places_getSection index).bind fun found hfound => ?_
  refine .ite (fun _ => .pure trivial) fun _ => ?_
  refine (places_orInvalidOffset _).bind fun offset _ => ?_
  have hoffset := offset.toNat_lt
  refine places_put_bind ?_ hfound ?_ ?_ ?_
  · exact fun _ => rfl
  · rfl
  · omega
  refine (places_orInvalidOffset _).bind fun stop _ => ?_
  exact (places_orInvalidOffset _).mono fun _ _ => trivial

/-- A section that stays where it is is passed over within bounds. -/
theorem places_keepSection (stop : UInt32) (index : Nat) :
    Places data (fun _ => True) (keepSection stop index) (Placing.keepSection stop index) := by
  unfold keepSection Placing.keepSection
  refine (places_getSection index).bind fun found hfound => ?_
  refine places_get.bind fun layout _ => ?_
  refine .ite (fun _ => .pure trivial) fun _ => ?_
  have hstart := hfound.start_le
  have hstop := hfound.stop_lt
  refine places_put_bind ?_ hfound ?_ ?_ ?_
  · exact fun _ => rfl
  · rfl
  · omega
  exact (places_orInvalidOffset _).bind fun _ _ => .pure trivial

/-- Steps that are repeated stay within bounds if one does. -/
theorem places_foldlM {β : Type} {f : β → α → Laying β} {g : β → α → Placing β}
    (hf : ∀ b a, Places data (fun _ => True) (f b a) (g b a)) (items : List α) (b : β) :
    Places data (fun _ => True) (items.foldlM f b) (items.foldlM g b) := by
  induction items generalizing b with
  | nil => exact .pure trivial
  | cons item items ih =>
    rw [List.foldlM_cons, List.foldlM_cons]
    exact (hf b item).bind fun b' _ => ih b'

/-- Everything that stays in place is copied within bounds. -/
theorem places_copyFixed : Places data (fun _ => True) copyFixed Placing.copyFixed := by
  unfold copyFixed Placing.copyFixed
  refine places_get.bind fun layout hlayout => ?_
  have hdata := hlayout.data_eq
  have hfixed := hlayout.fixed_le
  have hstop := layout.container.fixedStop.toNat_lt
  refine .lift (slice_eq (Nat.zero_le _) (by rw [hdata]; exact hfixed)) ?_
  refine (places_writeAt ?_).bind fun _ _ => places_foldlM places_keepSection _ _
  rw [Span.length_slice (by rw [hdata]; exact hfixed), Span.length]
  dsimp only
  omega

/-- All sections that are left are copied within bounds. -/
theorem places_copySections (start : UInt32) :
    Places data (fun _ => True) (copySections start) (Placing.copySections start) := by
  unfold copySections Placing.copySections
  exact places_get.bind fun layout _ => places_foldlM places_copySection _ _

/-- The size of a section is set within bounds. -/
theorem places_setSize (index : Nat) (size : UInt32) :
    Places data (fun _ => True) (setSize index size) (Placing.setSize index size) := by
  unfold setSize Placing.setSize
  refine (places_getSection index).bind fun found hfound => ?_
  refine places_modify fun layout hlayout => hlayout.setSection ?_ index
  exact hfound.of_source_eq rfl

/-- A section is given its place within bounds. -/
theorem places_markPlaced (index : Nat) (offset : UInt32) :
    Places data (fun _ => True) (markPlaced index offset) (Placing.markPlaced index offset) := by
  unfold markPlaced Placing.markPlaced
  refine (places_getSection index).bind fun found hfound => ?_
  refine places_modify fun layout hlayout => hlayout.setSection ?_ index
  exact hfound.of_source_eq rfl

/-- The segment headers are written within bounds. -/
theorem places_writeSegments : Places data (fun _ => True) writeSegments Placing.writeSegments := by
  have hstep : Placing.writeSegments = (do
      let container := (← get).container
      modify fun layout => layout.writeAt container.header.segmentOffset.toNat
        (container.header.segmentTable.slice container.data)) := rfl
  rw [hstep]
  unfold writeSegments
  refine places_get.bind fun layout hlayout => ?_
  have hsegments := hlayout.segments_le
  rw [← hlayout.data_eq] at hsegments
  have hlength : (layout.container.header.segmentTable.slice layout.container.data).length =
      layout.container.header.segmentTable.length := Span.length_slice hsegments
  have hoffset := layout.container.header.segmentOffset.toNat_lt
  have hcount := Nat.mul_le_mul (Nat.le_of_lt layout.container.header.segmentCount.toNat_lt)
    (size_le .segment)
  refine .lift (tableStop_eq _ _ _) ?_
  refine .lift (slice_eq (Nat.le_add_right _ _) hsegments) ?_
  refine places_writeAt ?_
  show _ + (layout.container.header.segmentTable.slice layout.container.data).length < 2 ^ 64
  rw [hlength, Span.length, FileHeader.segmentTable, FileHeader.segmentsStop]
  dsimp only
  omega

/-- An entry of the section table is written at its place, and the next comes behind it. -/
theorem writeEntry_eq {position : Nat} (hlt : position + Part.section.size < 2 ^ 64) (s : Section)
    (layout : Layout) : writeEntry position s layout =
      pure (position + Part.section.size, layout.writeAt position s.header.bytes) := by
  rw [writeEntry, SectionHeader.bytesWithin_eq, add_eq hlt, lift_pure_bind, bind_apply,
    writeAt_eq (by rw [SectionHeader.length_bytes]; exact hlt), pure_bind]
  rfl

/-- Entries that are written one after the other are written as a whole. -/
theorem writeEntries_eq (sections : List Section) (layout : Layout) (start : Nat) (front : Bytes)
    (hlt : start + front.length + sections.length * Part.section.size < 2 ^ 64) :
    sections.foldlM writeEntry (start + front.length) (layout.writeAt start front) =
      pure (start + front.length + sections.length * Part.section.size,
        layout.writeAt start (front ++ sections.flatMap fun s => s.header.bytes)) := by
  induction sections generalizing front with
  | nil =>
    rw [List.flatMap_nil, List.append_nil, List.length_nil, Nat.zero_mul, Nat.add_zero]
    rfl
  | cons s sections ih =>
    have hlength : start + front.length + Part.section.size =
        start + (front ++ s.header.bytes).length := by
      rw [List.length_append, SectionHeader.length_bytes, Nat.add_assoc]
    have hwritten : (layout.writeAt start front).writeAt (start + front.length) s.header.bytes =
        layout.writeAt start (front ++ s.header.bytes) :=
      congrArg (Layout.mk layout.container) (Image.writeAt_append _ _ _ _)
    rw [List.length_cons, Nat.succ_mul, Nat.add_comm (_ * _), ← Nat.add_assoc] at hlt ⊢
    rw [List.foldlM_cons, bind_apply, writeEntry_eq (by omega), pure_bind, hwritten]
    dsimp only
    rw [hlength, ih _ (by omega), List.flatMap_cons, List.append_assoc]

/-- Entries that are written one by one make one write of all of them. -/
theorem places_writeEntries_bind {sections : List Section} (hne : sections ≠ [])
    (hcount : sections.length < 2 ^ 16) {start : Nat} (hstart : start < 2 ^ 32) {P : α → Prop}
    {f : Nat → Laying α} {g : Unit → Placing α}
    (h : Places data P (f (start + sections.length * Part.section.size)) (g ())) :
    Places data P (sections.foldlM writeEntry start >>= f) (modify (fun layout =>
      layout.writeAt start (sections.flatMap fun s => s.header.bytes)) >>= g) := by
  intro layout hlayout
  have hsize := Nat.mul_le_mul (Nat.le_of_lt hcount) (size_le .section)
  have hrun : sections.foldlM writeEntry start layout =
      pure (start + sections.length * Part.section.size,
        layout.writeAt start (sections.flatMap fun s => s.header.bytes)) := by
    cases sections with
    | nil => exact absurd rfl hne
    | cons s sections =>
      have hlength : start + Part.section.size = start + s.header.bytes.length := by
        rw [SectionHeader.length_bytes]
      rw [List.length_cons, Nat.succ_mul, Nat.add_comm (_ * _)] at hsize ⊢
      rw [List.foldlM_cons, bind_apply, writeEntry_eq (by omega), pure_bind, ← Nat.add_assoc]
      dsimp only
      rw [hlength, writeEntries_eq _ _ _ _ (by omega), List.flatMap_cons]
  rw [bind_apply, hrun, pure_bind]
  exact h _ (hlayout.withImage _)

/-- What is left to be written after the section table is written within bounds. -/
theorem places_finish (table stop : UInt32) : Places data (fun _ => True) (finish table stop.toNat)
    (Placing.writeSectionHeaders.finish table stop) := by
  intro layout hlayout
  have hlt : sectionOffsetField + (bytesOfWord32 table).length < 2 ^ 64 := by
    rw [length_bytesOfWord32]
    decide
  show Agrees _ (writeAt sectionOffsetField (bytesOfWord32 table) layout >>= fun p =>
    pure ((), { p.2 with image := p.2.image.setLength stop.toNat })) _
  rw [writeAt_eq hlt, pure_bind]
  exact .pure ⟨rfl, trivial, hlayout.withImage _⟩

/-- The section table is written within bounds. -/
theorem places_writeSectionHeaders (offset : UInt32) : Places data (fun _ => True)
    (writeSectionHeaders offset) (Placing.writeSectionHeaders offset) := by
  unfold writeSectionHeaders Placing.writeSectionHeaders
  refine places_get.bind fun layout hlayout => ?_
  refine .ite (fun _ => (places_finish 0 offset).bind fun _ _ => .pure trivial) fun hne => ?_
  refine (places_orInvalidOffset _).bind fun start _ => ?_
  refine places_writeEntries_bind (by simpa using hne) hlayout.count start.toNat_lt ?_
  refine (places_orInvalidOffset _).bind fun stop hstop => ?_
  rw [← word32?_eq_some_iff.mp hstop]
  exact (places_finish start stop).bind fun _ _ => .pure trivial

end Laying

end DwarfLines.Elf
