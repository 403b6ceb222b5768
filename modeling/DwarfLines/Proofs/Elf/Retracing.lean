import DwarfLines.Proofs.Elf.Placing

/-!
# Laying out an output again

When the output of a layout is laid out in turn, each step goes where the same step went before: every
section is already where it is going to be. So what is written is either the same, or what the output
has at that place anyway. `Retraces` relates the layouts of both files after each step.
-/

namespace DwarfLines.Elf

open Outcome

/-! ## Images -/

namespace Image

/-- Whether an image is another one in which some bytes are those of `out`. -/
structure Mixes (first : Image) (out : Bytes) (image : Image) : Prop where
  length_eq : image.length = first.length
  bytes_or : ∀ i : Nat, image.bytes[i]? = first.bytes[i]? ∨ image.bytes[i]? = out[i]?

namespace Mixes

variable {first image : Image} {out : Bytes}

/-- An image mixes with any output of its length. -/
theorem refl (image : Image) (out : Bytes) : image.Mixes out image := ⟨rfl, fun _ => .inl rfl⟩

/-- Where an image is filled up, so is the other one, with zeros. -/
theorem filled_or (h : first.Mixes out image) (i : Nat) :
    some (image.bytes[i]?.getD 0) = some (first.bytes[i]?.getD 0) ∨
      some (image.bytes[i]?.getD 0) = out[i]? := by
  have hlength : image.bytes.length = first.bytes.length := h.length_eq
  by_cases hi : i < image.bytes.length
  · refine (h.bytes_or i).imp (fun hbyte => by rw [hbyte]) fun hbyte => ?_
    rw [← hbyte, List.getElem?_eq_getElem hi]
    rfl
  · rw [List.getElem?_eq_none (by omega), List.getElem?_eq_none (by omega)]
    exact .inl rfl

/-- Byte by byte, the second image is written the same or what `out` has there. -/
theorem writeAt_of (h : first.Mixes out image) (offset : Nat) {data data' : Bytes}
    (hlength : data'.length = data.length)
    (hdata : ∀ j < data.length, data'[j]? = data[j]? ∨ data'[j]? = out[offset + j]?) :
    (first.writeAt offset data).Mixes out (image.writeAt offset data') := by
  refine ⟨by rw [length_writeAt, length_writeAt, h.length_eq, hlength], fun i => ?_⟩
  rw [getElem?_writeAt, getElem?_writeAt, h.length_eq, hlength]
  by_cases hinside : offset ≤ i ∧ i < offset + data.length
  · rw [if_pos hinside, if_pos hinside]
    have hbyte := hdata (i - offset) (by omega)
    rwa [Nat.add_sub_cancel' hinside.1] at hbyte
  · rw [if_neg hinside, if_neg hinside]
    split
    · exact h.filled_or i
    · exact .inl rfl

/-- What is written to both mixes. -/
theorem writeAt (h : first.Mixes out image) (offset : Nat) (data : Bytes) :
    (first.writeAt offset data).Mixes out (image.writeAt offset data) :=
  h.writeAt_of offset rfl fun _ _ => .inl rfl

/-- A part of `out` may be written where `out` has it. -/
theorem writeAt_slice (h : first.Mixes out image) {span : Span} (hstop : span.stop ≤ out.length)
    {data : Bytes} (hlength : data.length = span.length) :
    (first.writeAt span.start data).Mixes out (image.writeAt span.start (span.slice out)) := by
  refine h.writeAt_of span.start ((Span.length_slice hstop).trans hlength.symm) fun j hj => ?_
  exact .inr (Span.getElem?_slice (hlength ▸ hj))

/-- Both may be cut or padded alike. -/
theorem setLength (h : first.Mixes out image) (length : Nat) :
    (first.setLength length).Mixes out (image.setLength length) := by
  refine ⟨by rw [length_setLength, length_setLength], fun i => ?_⟩
  rw [getElem?_setLength, getElem?_setLength]
  split
  · exact h.filled_or i
  · exact .inl rfl

/-- An image that mixes an output with itself is the output. -/
theorem eq_of_bytes (h : first.Mixes out image) (hout : first.bytes = out) : image = first := by
  have hbytes : image.bytes = first.bytes := by
    apply List.ext_getElem?
    intro i
    have hbyte := h.bytes_or i
    rwa [← hout, or_self] at hbyte
  exact congrArg Image.mk hbytes

end Mixes

end Image

/-! ## Layouts -/

/-- A section whose place is taken to be its own if that of another is. -/
def Section.placedAs (t s : Section) : Section := { t with placed := s.placed }

@[simp]
theorem Section.header_placedAs (t s : Section) : (t.placedAs s).header = t.header := rfl

@[simp]
theorem Section.source_placedAs (t s : Section) : (t.placedAs s).source = t.source := rfl

@[simp]
theorem Section.placed_placedAs (t s : Section) : (t.placedAs s).placed = s.placed := rfl

/-- A container in which those sections have their place that have one in another. -/
def Container.placedAs (again first : Container) : Container :=
  { again with sections := List.zipWith Section.placedAs again.sections first.sections }

/-- Whether a section of the output may be what a section of the file becomes. -/
structure Section.Becomes (fixedStop : UInt32) (s t : Section) : Prop where
  type_eq : t.header.type = s.header.type
  alignment_eq : t.header.addressAlignment = s.header.addressAlignment
  pinned_eq : t.pinned fixedStop = s.pinned fixedStop

/-- Whether the sections that have their place in `first` are there in `again`, too. -/
def Container.Foresees (again first : Container) : Prop :=
  ∀ (k : Nat) (s t : Section), first.sections[k]? = some s → again.sections[k]? = some t →
    s.placed = true → t.header.offset = s.header.offset

/-- Whether laying out `again`, which is opened from the output, has come as far as laying out the
file. The contents of the section with number `line` are not copied but generated, so they may have
another size as long as the section has no place. -/
structure Layout.Retraces (again : Container) (line : Nat) (first second : Layout) : Prop where
  container_eq : second.container = again.placedAs first.container
  image : first.image.Mixes again.data second.image
  fixedStop_eq : first.container.fixedStop = again.fixedStop
  count : first.container.sections.length = again.sections.length
  becomes : ∀ (k : Nat) (s t : Section), first.container.sections[k]? = some s →
    again.sections[k]? = some t → s.Becomes again.fixedStop t
  source : ∀ s ∈ first.container.sections, s.placed = false →
    sourceOf? first.container.data.length s.header = some s.source
  size_eq : ∀ (k : Nat) (s t : Section), k ≠ line → first.container.sections[k]? = some s →
    again.sections[k]? = some t → s.placed = false → t.header.size = s.header.size

/-- A section that gets a place has contents as before. -/
theorem Section.Becomes.hasFileData_eq {fixedStop : UInt32} {s t : Section}
    (h : s.Becomes fixedStop t) : t.header.hasFileData = s.header.hasFileData := by
  rw [SectionHeader.hasFileData, h.type_eq, SectionHeader.hasFileData]

/-- A section that gets a place keeps its alignment. -/
theorem Section.Becomes.header_alignment_eq {fixedStop : UInt32} {s t : Section}
    (h : s.Becomes fixedStop t) : t.header.alignment = s.header.alignment := by
  rw [SectionHeader.alignment, h.alignment_eq, SectionHeader.alignment]

namespace Container

variable {again first : Container}

/-- Each section of the second run is placed as that of the first. -/
theorem getElem?_placedAs {k : Nat} {s t : Section} (hs : first.sections[k]? = some s)
    (ht : again.sections[k]? = some t) :
    (again.placedAs first).sections[k]? = some (t.placedAs s) := by
  show (List.zipWith Section.placedAs again.sections first.sections)[k]? = _
  rw [List.getElem?_zipWith, hs, ht]

/-- Where nothing has its place, there is none to take over. -/
theorem placedAs_of_unplaced (hcount : first.sections.length = again.sections.length)
    (hfirst : ∀ s ∈ first.sections, s.placed = false)
    (hagain : ∀ t ∈ again.sections, t.placed = false) : again.placedAs first = again := by
  have hsame : List.zipWith Section.placedAs again.sections first.sections = again.sections := by
    apply List.ext_getElem?
    intro k
    rw [List.getElem?_zipWith]
    cases ht : again.sections[k]? with
    | none => rfl
    | some t =>
      have hk := (List.getElem?_eq_some_iff.mp ht).1
      have hs := List.getElem?_eq_getElem (hcount ▸ hk)
      have hunplaced := hfirst _ (List.mem_of_getElem? hs)
      rw [hs]
      show some (t.placedAs _) = some t
      rw [Section.placedAs, hunplaced, ← hagain t (List.mem_of_getElem? ht)]
  rw [placedAs, hsame]

/-- Replacing a section in the first run replaces one in the second. -/
theorem zipWith_placedAs_set {index : Nat} {t : Section} (ht : again.sections[index]? = some t)
    (sections : List Section) (new : Section) :
    List.zipWith Section.placedAs again.sections (sections.set index new) =
      (List.zipWith Section.placedAs again.sections sections).set index (t.placedAs new) := by
  apply List.ext_getElem?
  intro k
  by_cases hk : index = k
  · subst hk
    have hindex := (List.getElem?_eq_some_iff.mp ht).1
    rw [List.getElem?_zipWith, List.getElem?_set_self', List.getElem?_set_self', ht,
      List.getElem?_zipWith, ht]
    cases sections[index]? <;> rfl
  · rw [List.getElem?_zipWith, List.getElem?_set_ne hk, List.getElem?_set_ne hk,
      List.getElem?_zipWith]

end Container

namespace Layout

/-- Whether the section with a given number has its place. -/
def IsPlaced (layout : Layout) (k : Nat) : Prop :=
  ∀ s, layout.container.sections[k]? = some s → s.placed = true

variable {again : Container} {line : Nat} {first second : Layout}

/-- A section that had its place has it still. -/
theorem foresees_of_setSection {index : Nat} {found new : Section}
    (h : again.Foresees (first.setSection index new).container)
    (hfound : first.container.sections[index]? = some found)
    (hnew : found.placed = true → new.placed = true ∧ new.header.offset = found.header.offset) :
    again.Foresees first.container := by
  intro k s t hs ht hplaced
  have hafter := h k
  rw [getElem?_setSection hfound] at hafter
  by_cases hk : k = index
  · subst hk
    obtain rfl := Option.some.inj (hfound.symm.trans hs)
    obtain ⟨hplaced', hoffset⟩ := hnew hplaced
    rw [if_pos rfl] at hafter
    exact (hafter new t rfl ht hplaced').trans hoffset
  · rw [if_neg hk] at hafter
    exact hafter s t hs ht hplaced

namespace Retraces

/-- Before anything is laid out, there is nothing to tell the files apart by but their sections. -/
theorem start {container : Container} (hfresh : container.Fresh) (hfresh' : again.Fresh)
    (hfixedStop : container.fixedStop = again.fixedStop)
    (hcount : container.sections.length = again.sections.length)
    (hsections : ∀ (k : Nat) (s t : Section), container.sections[k]? = some s →
      again.sections[k]? = some t →
      s.Becomes again.fixedStop t ∧ (k ≠ line → t.header.size = s.header.size)) :
    (Layout.start container).Retraces again line (.start again) where
  container_eq := (Container.placedAs_of_unplaced hcount hfresh.unplaced hfresh'.unplaced).symm
  image := .refl _ _
  fixedStop_eq := hfixedStop
  count := hcount
  becomes k s t hs ht := (hsections k s t hs ht).1
  source s hs _ := hfresh.source s hs
  size_eq k s t hk hs ht _ := (hsections k s t hs ht).2 hk

/-- Each section of the first run has one in the second. -/
theorem exists_section (h : first.Retraces again line second) {k : Nat} {s : Section}
    (hs : first.container.sections[k]? = some s) :
    ∃ t, again.sections[k]? = some t ∧ second.container.sections[k]? = some (t.placedAs s) := by
  have hk : k < again.sections.length := by
    rw [← h.count]
    exact (List.getElem?_eq_some_iff.mp hs).1
  have ht := List.getElem?_eq_getElem hk
  refine ⟨_, ht, ?_⟩
  rw [h.container_eq]
  exact Container.getElem?_placedAs hs ht

/-- Both images may be written, the second one with what the output has. -/
theorem withImages (h : first.Retraces again line second) {image image' : Image}
    (himage : image.Mixes again.data image') :
    Retraces again line { first with image } { second with image := image' } :=
  { h with image := himage }

/-- Both may write the same. -/
theorem writeAt (h : first.Retraces again line second) (offset : Nat) (data : Bytes) :
    (first.writeAt offset data).Retraces again line (second.writeAt offset data) :=
  h.withImages (h.image.writeAt offset data)

/-- A section is given the place that it has in the output. -/
theorem setSection (h : first.Retraces again line second) {index : Nat} {s new t : Section}
    (hs : first.container.sections[index]? = some s) (ht : again.sections[index]? = some t)
    (hplaced : new.placed = true) (hnew : new.Becomes again.fixedStop t) :
    (first.setSection index new).Retraces again line
      (second.setSection index { t with placed := true }) := by
  have hget := getElem?_setSection hs new
  -- Only the section that is placed differs from before, and of placed sections nothing is asked
  -- but that they become what the output has.
  have hold : ∀ (k : Nat) (u : Section), (first.setSection index new).container.sections[k]? = some u →
      u.placed = false → first.container.sections[k]? = some u := by
    intro k u hu hunplaced
    rw [hget] at hu
    split at hu
    · cases hu
      rw [hplaced] at hunplaced
      cases hunplaced
    · exact hu
  refine ⟨?_, h.image, h.fixedStop_eq, ?_, ?_, ?_, ?_⟩
  · have hset := Container.zipWith_placedAs_set ht first.container.sections new
    rw [Section.placedAs, hplaced] at hset
    unfold Layout.setSection
    rw [h.container_eq]
    unfold Container.placedAs
    dsimp only
    rw [hset]
  · exact (List.length_set ..).trans h.count
  · intro k u v hu hv
    rw [hget] at hu
    split at hu
    · rename_i hk
      cases hu
      obtain rfl := Option.some.inj (ht.symm.trans (hk ▸ hv))
      exact hnew
    · exact h.becomes k u v hu hv
  · intro u hu hunplaced
    obtain ⟨k, hk⟩ := List.mem_iff_getElem?.mp hu
    exact h.source u (List.mem_of_getElem? (hold k u hk hunplaced)) hunplaced
  · exact fun k u v hk hu hv hunplaced => h.size_eq k u v hk (hold k u hu hunplaced) hv hunplaced

/-- The contents of a section that has no place yet are as long as those that it has in the
output. -/
theorem sources_eq (h : first.Retraces again line second) (hfresh : again.Fresh) {k : Nat}
    {s t : Section} (hk : k ≠ line) (hs : first.container.sections[k]? = some s)
    (ht : again.sections[k]? = some t) (hunplaced : s.placed = false)
    (hdata : s.header.hasFileData = true) :
    s.source = ⟨s.header.offset.toNat, s.header.offset.toNat + s.header.size.toNat⟩ ∧
      t.source = ⟨t.header.offset.toNat, t.header.offset.toNat + s.header.size.toNat⟩ ∧
      t.source.length = s.source.length ∧
      (first.container.contents s).length = t.source.length ∧
      t.source.stop ≤ again.data.length := by
  obtain ⟨hsource, hstop⟩ := sourceOf?_eq_some_of_hasFileData
    (h.source s (List.mem_of_getElem? hs) hunplaced) hdata
  obtain ⟨hsource', hstop'⟩ := hfresh.source_eq (List.mem_of_getElem? ht)
    ((h.becomes k s t hs ht).hasFileData_eq.trans hdata)
  rw [h.size_eq k s t hk hs ht hunplaced] at hsource'
  have hlength : t.source.length = s.source.length := by
    rw [hsource, hsource', Span.length, Span.length, Nat.add_sub_cancel_left,
      Nat.add_sub_cancel_left]
  refine ⟨hsource, hsource', hlength, ?_, hstop'⟩
  rw [hlength, Container.contents, Span.length_slice hstop]

/-- A section that is copied to where it is in the output is copied there from the output, too. -/
theorem copy (h : first.Retraces again line second) {k : Nat} {s new t : Section}
    (hs : first.container.sections[k]? = some s) (ht : again.sections[k]? = some t)
    (hlength : (first.container.contents s).length = t.source.length)
    (hstop : t.source.stop ≤ again.data.length) (hplaced : new.placed = true)
    (hnew : new.Becomes again.fixedStop t) :
    ((first.writeAt t.source.start (first.container.contents s)).setSection k new).Retraces again line
      ((second.writeAt t.source.start (second.container.contents (t.placedAs s))).setSection k
        { t with placed := true }) := by
  have hcontents : second.container.contents (t.placedAs s) = t.source.slice again.data := by
    rw [h.container_eq]
    rfl
  rw [hcontents]
  exact (h.withImages (h.image.writeAt_slice hstop hlength)).setSection hs ht hplaced hnew

/-- The second run has the sections of the new file. -/
theorem length_second (h : first.Retraces again line second) :
    second.container.sections.length = again.sections.length := by
  rw [h.container_eq, Container.placedAs, List.length_zipWith, h.count, Nat.min_self]

/-- The fixed part of the second run is that of the new file. -/
theorem fixedStop_second (h : first.Retraces again line second) :
    second.container.fixedStop = again.fixedStop := by
  rw [h.container_eq]
  rfl

end Retraces

end Layout

end DwarfLines.Elf
