import DwarfLines.Proofs.Elf.Container
import DwarfLines.Proofs.Elf.Image
import DwarfLines.Proofs.Elf.Steps
import Mathlib.Logic.Function.Basic

/-!
# Arranged layouts

A layout is arranged if its image shows a front, which covers the fixed part, and behind it the
contents of every section that was moved, each in a place of its own. Steps that place a section at
or after the offset they are given keep a layout arranged. So do writes into the front, and writes
into the contents of one section, which change what the layout shows there.
-/

namespace DwarfLines.Elf

open Outcome

/-- Whether a section has contents and was moved out of the fixed part. -/
def Section.HasMoved (fixedStop : UInt32) (s : Section) : Prop :=
  s.placed = true ∧ s.header.hasFileData = true ∧ fixedStop ≤ s.header.offset

/-- Where a section has its contents, if these are `bytes`. -/
def Section.place (s : Section) (bytes : Bytes) : Span :=
  ⟨s.header.offset.toNat, s.header.offset.toNat + bytes.length⟩

namespace Layout

/-- Whether the image of a layout shows `front`, and behind it, up to `stop`, what each section that
was moved is to hold. Sections in the fixed part stay there, and a section that has no place yet is
to hold its contents. -/
structure Arranged (front : Bytes) (held : Nat → Bytes) (layout : Layout) (stop : Nat) : Prop where
  fixed_le : layout.container.fixedStop.toNat ≤ front.length
  front_le : front.length ≤ stop
  holds_front : layout.image.Holds 0 front
  fixed : ∀ s ∈ layout.container.sections, s.header.hasFileData = true → s.placed = false →
    layout.container.fixedStop ≤ s.header.offset
  pending : ∀ k s, layout.container.sections[k]? = some s → s.header.hasFileData = true →
    s.placed = false → held k = layout.container.contents s
  moved : ∀ k s, layout.container.sections[k]? = some s →
    s.HasMoved layout.container.fixedStop → front.length ≤ s.header.offset.toNat ∧
      (s.place (held k)).stop ≤ stop ∧ layout.image.Holds s.header.offset.toNat (held k)
  apart : ∀ j k (s t : Section), j ≠ k → layout.container.sections[j]? = some s →
    layout.container.sections[k]? = some t → s.HasMoved layout.container.fixedStop →
    t.HasMoved layout.container.fixedStop → (s.place (held j)).Apart (t.place (held k))

namespace Arranged

variable {front : Bytes} {held : Nat → Bytes} {layout : Layout} {stop : Nat}

/-- What is written past everything leaves a layout arranged. -/
theorem writeAt_past (h : Arranged front held layout stop) {offset : Nat} (data : Bytes)
    (hoffset : stop ≤ offset) : Arranged front held (layout.writeAt offset data) stop where
  __ := h
  holds_front := by
    have := h.front_le
    exact h.holds_front.writeAt (Span.apart_of_le (by dsimp only; omega))
  moved k s hs hmoved := by
    obtain ⟨hfront, hplace, hholds⟩ := h.moved k s hs hmoved
    exact ⟨hfront, hplace, hholds.writeAt (Span.apart_of_le (Nat.le_trans hplace hoffset))⟩

/-- A section may be given a place past everything, to hold what the image shows there. -/
theorem setPlace (h : Arranged front held layout stop) {index : Nat} {found : Section}
    (hfound : layout.container.sections[index]? = some found) {offset : UInt32} {bytes : Bytes}
    (hoffset : stop ≤ offset.toNat) {stop' : Nat} (hstop : offset.toNat + bytes.length ≤ stop')
    (hholds : layout.image.Holds offset.toNat bytes) :
    Arranged front (Function.update held index bytes)
      (layout.setSection index (found.placedAt offset)) stop' := by
  have hget := getElem?_setSection hfound (found.placedAt offset)
  have hold : ∀ j s, j ≠ index → layout.container.sections[j]? = some s →
      s.HasMoved layout.container.fixedStop → (s.place (held j)).stop ≤ offset.toNat :=
    fun j s _ hs hmoved => Nat.le_trans (h.moved j s hs hmoved).2.1 hoffset
  have hfront := h.front_le
  refine ⟨h.fixed_le, by omega, h.holds_front, ?_, ?_, ?_, ?_⟩
  · intro s hs hdata hplaced
    obtain ⟨j, hj⟩ := List.mem_iff_getElem?.mp hs
    rw [hget] at hj
    split at hj
    · cases hj
      cases hplaced
    · exact h.fixed s (List.mem_of_getElem? hj) hdata hplaced
  · intro j s hs hdata hplaced
    rw [hget] at hs
    split at hs
    · cases hs
      cases hplaced
    · rename_i hj
      rw [Function.update_of_ne hj]
      exact h.pending j s hs hdata hplaced
  · intro j s hs hmoved
    rw [hget] at hs
    split at hs
    · rename_i hj
      cases hs
      rw [hj, Function.update_self]
      exact ⟨Nat.le_trans hfront hoffset, hstop, hholds⟩
    · rename_i hj
      rw [Function.update_of_ne hj]
      obtain ⟨hfront', hplace, hholds'⟩ := h.moved j s hs hmoved
      exact ⟨hfront', by omega, hholds'⟩
  · intro j k s t hjk hs ht hmoved hmoved'
    rw [hget] at hs ht
    -- The section that is placed comes after all others, which were apart before.
    split at hs
    · rename_i hj
      have hk : k ≠ index := fun hk => hjk (hj.trans hk.symm)
      rw [if_neg hk] at ht
      cases hs
      rw [Function.update_of_ne hk]
      exact (Span.apart_of_le (hold k t hk ht hmoved')).symm
    · rename_i hj
      rw [Function.update_of_ne hj]
      split at ht
      · cases ht
        exact Span.apart_of_le (hold j s hj hs hmoved)
      · rename_i hk
        rw [Function.update_of_ne hk]
        exact h.apart j k s t hjk hs ht hmoved hmoved'

/-- Changing anything of a section but its place leaves a layout arranged. -/
theorem setSection (h : Arranged front held layout stop) {index : Nat} {found new : Section}
    (hfound : layout.container.sections[index]? = some found)
    (hoffset : new.header.offset = found.header.offset)
    (hdata : new.header.hasFileData = found.header.hasFileData)
    (hsource : new.source = found.source) (hplaced : new.placed = found.placed) :
    Arranged front held (layout.setSection index new) stop := by
  have hget := getElem?_setSection hfound new
  -- Each section agrees with the one before in everything that `Arranged` looks at.
  have hsame : ∀ (j : Nat) (s : Section), (layout.setSection index new).container.sections[j]? = some s →
      ∃ s' : Section, layout.container.sections[j]? = some s' ∧ s.header.offset = s'.header.offset ∧
        s.header.hasFileData = s'.header.hasFileData ∧ s.source = s'.source ∧
        s.placed = s'.placed := by
    intro j s hs
    rw [hget] at hs
    split at hs
    · rename_i hj
      cases hs
      exact ⟨found, hj ▸ hfound, hoffset, hdata, hsource, hplaced⟩
    · exact ⟨s, hs, rfl, rfl, rfl, rfl⟩
  have hmove : ∀ s s' : Section, s.header.offset = s'.header.offset →
      s.header.hasFileData = s'.header.hasFileData → s.placed = s'.placed →
      s.HasMoved layout.container.fixedStop → s'.HasMoved layout.container.fixedStop := by
    intro s s' ho hd hp ⟨hplaced, hdata, hoffset⟩
    exact ⟨hp ▸ hplaced, hd ▸ hdata, ho ▸ hoffset⟩
  refine ⟨h.fixed_le, h.front_le, h.holds_front, ?_, ?_, ?_, ?_⟩
  · intro s hs hdata hplaced
    obtain ⟨j, hj⟩ := List.mem_iff_getElem?.mp hs
    obtain ⟨s', hs', ho, hd, -, hp⟩ := hsame j s hj
    rw [ho]
    exact h.fixed s' (List.mem_of_getElem? hs') (hd ▸ hdata) (hp ▸ hplaced)
  · intro j s hs hdata hplaced
    obtain ⟨s', hs', -, hd, hsrc, hp⟩ := hsame j s hs
    rw [h.pending j s' hs' (hd ▸ hdata) (hp ▸ hplaced)]
    show s'.source.slice layout.container.data = s.source.slice layout.container.data
    rw [hsrc]
  · intro j s hs hmoved
    obtain ⟨s', hs', ho, hd, -, hp⟩ := hsame j s hs
    have := h.moved j s' hs' (hmove s s' ho hd hp hmoved)
    unfold Section.place
    rw [ho]
    exact this
  · intro j k s t hjk hs ht hmoved hmoved'
    obtain ⟨s', hs', ho, hd, -, hp⟩ := hsame j s hs
    obtain ⟨t', ht', ho', hd', -, hp'⟩ := hsame k t ht
    have := h.apart j k s' t' hjk hs' ht' (hmove s s' ho hd hp hmoved)
      (hmove t t' ho' hd' hp' hmoved')
    unfold Section.place
    rw [ho, ho']
    exact this

/-- A write into the front changes the front. -/
theorem writeAt_front (h : Arranged front held layout stop) {offset : Nat} (data : Bytes)
    (hdata : offset + data.length ≤ front.length) :
    Arranged ((Image.mk front).writeAt offset data).bytes held (layout.writeAt offset data)
      stop := by
  have hlength : ((Image.mk front).writeAt offset data).bytes.length = front.length :=
    Image.length_writeAt_of_le hdata
  have hholds := h.holds_front.writeAt_inside data hdata
  rw [Nat.zero_add] at hholds
  refine ⟨by rw [hlength]; exact h.fixed_le, by rw [hlength]; exact h.front_le, hholds, h.fixed,
    h.pending, ?_, h.apart⟩
  intro k s hs hmoved
  obtain ⟨hfront, hplace, hk⟩ := h.moved k s hs hmoved
  rw [hlength]
  exact ⟨hfront, hplace, hk.writeAt (Span.apart_of_le (by dsimp only; omega)).symm⟩

/-- What a placed section holds may change with the image, if it stays apart from what others
hold. -/
theorem writeAt_held (h : Arranged front held layout stop) {index : Nat} {found : Section}
    (hfound : layout.container.sections[index]? = some found) (hplaced : found.placed = true)
    {offset : Nat} {data bytes : Bytes} {stop' : Nat} (hstop : stop ≤ stop')
    (hfront : front.length ≤ offset)
    (hbytes : found.HasMoved layout.container.fixedStop → (found.place bytes).stop ≤ stop' ∧
      (layout.image.writeAt offset data).Holds found.header.offset.toNat bytes)
    (hdata : ∀ k s, k ≠ index → layout.container.sections[k]? = some s →
      s.HasMoved layout.container.fixedStop →
        (s.place (held k)).Apart ⟨offset, offset + data.length⟩)
    (hapart : ∀ k s, k ≠ index → layout.container.sections[k]? = some s →
      s.HasMoved layout.container.fixedStop → found.HasMoved layout.container.fixedStop →
        (s.place (held k)).Apart (found.place bytes)) :
    Arranged front (Function.update held index bytes) (layout.writeAt offset data) stop' := by
  refine ⟨h.fixed_le, Nat.le_trans h.front_le hstop,
    h.holds_front.writeAt (Span.apart_of_le (by dsimp only; omega)), h.fixed, ?_, ?_, ?_⟩
  -- sections not placed yet, the places of the others, and that no two of them meet
  · intro k s hs hdata hunplaced
    have hk : k ≠ index := by
      rintro rfl
      obtain rfl := Option.some.inj (hs.symm.trans hfound)
      rw [hplaced] at hunplaced
      cases hunplaced
    rw [Function.update_of_ne hk]
    exact h.pending k s hs hdata hunplaced
  · intro k s hs hmoved
    obtain ⟨hfront', hplace, hholds⟩ := h.moved k s hs hmoved
    by_cases hk : k = index
    · subst hk
      obtain rfl := Option.some.inj (hs.symm.trans hfound)
      rw [Function.update_self]
      exact ⟨hfront', hbytes hmoved⟩
    · rw [Function.update_of_ne hk]
      exact ⟨hfront', Nat.le_trans hplace hstop, hholds.writeAt (hdata k s hk hs hmoved)⟩
  · intro j k s t hjk hs ht hmoved hmoved'
    -- `index` may be either of the two
    by_cases hj : j = index
    · subst hj
      obtain rfl := Option.some.inj (hs.symm.trans hfound)
      rw [Function.update_self, Function.update_of_ne hjk.symm]
      exact (hapart k t hjk.symm ht hmoved' hmoved).symm
    · rw [Function.update_of_ne hj]
      by_cases hk : k = index
      · subst hk
        obtain rfl := Option.some.inj (ht.symm.trans hfound)
        rw [Function.update_self]
        exact hapart j s hj hs hmoved hmoved'
      · rw [Function.update_of_ne hk]
        exact h.apart j k s t hjk hs ht hmoved hmoved'

/-- The last section may grow. -/
theorem append (h : Arranged front held layout stop) {index : Nat} {found : Section}
    (hfound : layout.container.sections[index]? = some found) (hplaced : found.placed = true)
    (hlast : (found.place (held index)).stop = stop) (bytes : Bytes) :
    Arranged front (Function.update held index (held index ++ bytes)) (layout.writeAt stop bytes)
      (stop + bytes.length) := by
  -- All that is moved ends before `stop`, so the new bytes meet nothing.
  have hbehind : ∀ (k : Nat) (s : Section), layout.container.sections[k]? = some s →
      s.HasMoved layout.container.fixedStop → (s.place (held k)).stop ≤ stop :=
    fun k s hs hmoved => (h.moved k s hs hmoved).2.1
  refine h.writeAt_held hfound hplaced (Nat.le_add_right _ _) h.front_le ?_ ?_ ?_
  · intro hmoved
    obtain ⟨-, -, hholds⟩ := h.moved index found hfound hmoved
    constructor
    · simp only [Section.place, List.length_append] at hlast ⊢
      omega
    · refine (hholds.writeAt (Span.apart_of_le (Nat.le_of_eq hlast))).append ?_
      rw [show found.header.offset.toNat + (held index).length = stop from hlast]
      exact .of_writeAt _ _ _
  · exact fun k s _ hs hmoved => Span.apart_of_le (hbehind k s hs hmoved)
  · intro k s hk hs hmoved hmoved' i hi hi'
    have := hbehind k s hs hmoved
    refine h.apart k index s found hk hs hfound hmoved hmoved' i hi ?_
    rw [Span.mem_iff] at hi hi' ⊢
    exact ⟨hi'.1, by omega⟩

/-- A word written into what a section holds changes it there. -/
theorem writeWord32_moved (h : Arranged front held layout stop) {index : Nat} {found : Section}
    (hfound : layout.container.sections[index]? = some found)
    (hmoved : found.HasMoved layout.container.fixedStop) {place : Nat} (word : UInt32)
    (hplace : place + 4 ≤ (held index).length) :
    Arranged front
      (Function.update held index ((Image.mk (held index)).writeWord32 place word).bytes)
      (layout.writeAt (found.header.offset.toNat + place) (bytesOfWord32 word)) stop := by
  obtain ⟨hfront, hstop, hholds⟩ := h.moved index found hfound hmoved
  -- a word inside the section changes its contents and not its length
  have hlength : ((Image.mk (held index)).writeWord32 place word).bytes.length =
      (held index).length := Image.length_writeWord32 hplace
  have hsame : found.place ((Image.mk (held index)).writeWord32 place word).bytes =
      found.place (held index) := by rw [Section.place, hlength, Section.place]
  have hinside : ∀ i, i ∈ Span.mk (found.header.offset.toNat + place)
      (found.header.offset.toNat + place + (bytesOfWord32 word).length) →
        i ∈ found.place (held index) := by
    intro i hi
    simp only [Span.mem_iff, Section.place, length_bytesOfWord32] at hi ⊢
    omega
  refine h.writeAt_held hfound hmoved.1 (Nat.le_refl _) (by omega) ?_ ?_ ?_
  · rw [hsame]
    exact fun _ => ⟨hstop, hholds.writeAt_inside _ (by rwa [length_bytesOfWord32])⟩
  · exact fun k s hk hs hmoved' i hi hi' =>
      h.apart k index s found hk hs hfound hmoved' hmoved i hi (hinside i hi')
  · rw [hsame]
    exact fun k s hk hs hmoved' _ => h.apart k index s found hk hs hfound hmoved' hmoved

end Arranged

end Layout

end DwarfLines.Elf
