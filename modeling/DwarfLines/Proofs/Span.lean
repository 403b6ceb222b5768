import DwarfLines.Span

/-!
# Parts of byte strings

A span names the same bytes however they are come by: as a part of a concatenation, or byte by byte.
Two spans are apart if no byte is in both; spans without bytes are apart from all others.
-/

namespace DwarfLines.Span

/-- The middle of three strings is what lies between the ends of the first two. -/
theorem slice_append {span : Span} {front middle : Bytes} (back : Bytes)
    (hstart : span.start = front.length) (hstop : span.stop = front.length + middle.length) :
    span.slice (front ++ (middle ++ back)) = middle := by
  have hlength : span.length = middle.length := by
    rw [length, hstart, hstop]
    omega
  rw [slice, hlength, hstart, List.drop_left, List.take_left]

/-- A byte of a slice is the byte of the whole, counted from the start of the range. -/
theorem getElem?_slice {span : Span} {bytes : Bytes} {i : Nat} (hi : i < span.length) :
    (span.slice bytes)[i]? = bytes[span.start + i]? := by
  rw [slice, List.getElem?_take_of_lt hi, List.getElem?_drop]

instance : Membership Nat Span := ⟨fun span i => span.start ≤ i ∧ i < span.stop⟩

/-- A place is in a range between its start and its stop. -/
theorem mem_iff {span : Span} {i : Nat} : i ∈ span ↔ span.start ≤ i ∧ i < span.stop := Iff.rfl

instance (span : Span) (i : Nat) : Decidable (i ∈ span) :=
  inferInstanceAs (Decidable (span.start ≤ i ∧ i < span.stop))

/-- Strings that agree on a span have the same bytes there. -/
theorem slice_congr {span : Span} {a b : Bytes} (h : ∀ i ∈ span, a[i]? = b[i]?) :
    span.slice a = span.slice b := by
  apply List.ext_getElem?
  intro i
  by_cases hi : i < span.length
  · rw [getElem?_slice hi, getElem?_slice hi]
    unfold length at hi
    exact h _ ⟨Nat.le_add_right _ _, by omega⟩
  · rw [slice, slice, List.getElem?_take_eq_none (by omega), List.getElem?_take_eq_none (by omega)]

/-- Whether two spans have no byte in common. -/
def Apart (a b : Span) : Prop := ∀ i ∈ a, i ∉ b

/-- Being apart goes both ways. -/
theorem Apart.symm {a b : Span} (h : a.Apart b) : b.Apart a := fun i hb ha => h i ha hb

/-- A range that stops before another starts is apart from it. -/
theorem apart_of_le {a b : Span} (h : a.stop ≤ b.start) : a.Apart b := by
  intro i ha hb
  rw [mem_iff] at ha hb
  omega

/-- Two ranges are apart where the larger start is not below the smaller stop. -/
theorem apart_iff {a b : Span} : a.Apart b ↔ min a.stop b.stop ≤ max a.start b.start := by
  constructor
  · intro h
    have hmem := h (max a.start b.start)
    simp only [mem_iff] at hmem
    omega
  · intro h i ha hb
    rw [mem_iff] at ha hb
    omega

instance (a b : Span) : Decidable (a.Apart b) := decidable_of_iff _ apart_iff.symm

end DwarfLines.Span
