import DwarfLines.Proofs.Elf.Image
import Mathlib.Data.List.Induction
import Mathlib.Tactic.MkIffOfInductiveProp

/-!
# What is left of the writes into an image

An image is written, overwritten, cut and filled up in any order. A byte of it is the one that the
latest write gave it, unless the image was cut in front of it since then: what was cut off is gone,
and where the image gets longer again, there are zeros.
-/

namespace DwarfLines.Elf.Image

/-- An operation on an image. -/
inductive Operation where
  | write (offset : Nat) (data : Bytes)
  | writeWord (offset : Nat) (word : UInt32)
  | setLength (length : Nat)
  deriving DecidableEq, Repr

namespace Operation

/-- The image after an operation. -/
def perform (image : Image) : Operation → Image
  | write offset data => image.writeAt offset data
  | writeWord offset word => image.writeWord32 offset word
  | setLength length => image.setLength length

/-- The length that an operation gives to an image of some length. -/
def lengthAfter (length : Nat) : Operation → Nat
  | write offset data => max length (offset + data.length)
  | writeWord offset _ => max length (offset + 4)
  | setLength length => length

/-- The byte that an operation writes at an index, if it writes one there. -/
def byteAt? (i : Nat) : Operation → Option UInt8
  | write offset data => if offset ≤ i then data[i - offset]? else none
  | writeWord offset word => if offset ≤ i then (bytesOfWord32 word)[i - offset]? else none
  | setLength _ => none

/-- Whether an operation ends the image in front of the byte at an index. -/
def Cuts (i : Nat) : Operation → Prop
  | write _ _ | writeWord _ _ => False
  | setLength length => length ≤ i

instance (i : Nat) : (operation : Operation) → Decidable (operation.Cuts i)
  | write _ _ | writeWord _ _ => inferInstanceAs (Decidable False)
  | setLength length => inferInstanceAs (Decidable (length ≤ i))

end Operation

open Operation

/-- The image that operations on an empty one lead to. -/
def afterAll (operations : List Operation) : Image :=
  operations.foldl (fun image operation => operation.perform image) .empty

variable {operations : List Operation} {operation : Operation} {i k : Nat} {b : UInt8}

/-- The last operation acts on the image after all others. -/
theorem afterAll_concat (operations : List Operation) (operation : Operation) :
    afterAll (operations ++ [operation]) = operation.perform (afterAll operations) := by
  simp [afterAll]

/-! ## One operation -/

/-- The length after an operation depends only on the length before it. -/
theorem length_perform (image : Image) (operation : Operation) :
    (operation.perform image).length = operation.lengthAfter image.length := by
  cases operation with
  | write offset data => exact length_writeAt image offset data
  | writeWord offset word =>
    rw [perform, writeWord32, length_writeAt, length_bytesOfWord32, lengthAfter]
  | setLength length => exact length_setLength image length

/-- A byte after a write: that of the data where it reaches, the old one elsewhere. -/
theorem getD_writeAt (image : Image) (offset : Nat) (data : Bytes) (i : Nat) :
    (image.writeAt offset data).bytes[i]?.getD 0 =
      (if offset ≤ i then data[i - offset]? else none).getD (image.bytes[i]?.getD 0) := by
  rw [getElem?_writeAt]
  by_cases hinside : offset ≤ i ∧ i < offset + data.length
  · have hbyte : data[i - offset]? = some data[i - offset] := List.getElem?_eq_getElem (by omega)
    rw [if_pos hinside, if_pos hinside.1, hbyte]
    rfl
  · have hnone : (if offset ≤ i then data[i - offset]? else none) = none := by
      split
      · exact List.getElem?_eq_none (by omega)
      · rfl
    rw [if_neg hinside, hnone]
    split
    · rfl
    · rename_i hend
      rw [List.getElem?_eq_none (by unfold length at hend; omega)]
      rfl

/-- After an operation there is the byte that it writes, and otherwise the byte that was there, unless
it cuts that off. Where there is no byte, it is taken to be 0. -/
theorem getD_perform (image : Image) (operation : Operation) (i : Nat) :
    (operation.perform image).bytes[i]?.getD 0 =
      (operation.byteAt? i).getD (if operation.Cuts i then 0 else image.bytes[i]?.getD 0) := by
  cases operation with
  | write offset data => exact getD_writeAt image offset data i
  | writeWord offset word => exact getD_writeAt image offset (bytesOfWord32 word) i
  | setLength length =>
    rw [perform, getElem?_setLength, byteAt?, Option.getD_none]
    by_cases hcut : Cuts i (.setLength length)
    · rw [if_neg (Nat.not_lt.mpr hcut), if_pos hcut]
      rfl
    · rw [if_pos (Nat.not_le.mp hcut), if_neg hcut]
      rfl

/-! ## The latest write -/

/-- Whether the operation with a given number writes a byte at an index, and none after it cuts the
image there. -/
@[mk_iff]
structure Survives (operations : List Operation) (i k : Nat) (b : UInt8) : Prop where
  writes : operations[k]?.bind (byteAt? i) = some b
  uncut : ∀ operation ∈ operations.drop (k + 1), ¬ operation.Cuts i

/-- Whether the latest of the surviving writes at an index gives it a byte. -/
def IsLatest (operations : List Operation) (i : Nat) (b : UInt8) : Prop :=
  ∃ k, Survives operations i k b ∧ ∀ k' b', Survives operations i k' b' → k' ≤ k

/-- Whether a byte is the one to be seen at an index: that of the latest surviving write, and 0 if no
write survives. -/
def IsDue (operations : List Operation) (i : Nat) (b : UInt8) : Prop :=
  IsLatest operations i b ∨ (∀ k b', ¬ Survives operations i k b') ∧ b = 0

/-- A surviving write is one of the operations. -/
theorem Survives.lt_length (h : Survives operations i k b) : k < operations.length := by
  obtain ⟨operation, hk, -⟩ := Option.bind_eq_some_iff.mp h.writes
  exact (List.getElem?_eq_some_iff.mp hk).1

/-- There is at most one latest byte. -/
theorem IsLatest.unique {b' : UInt8} (h : IsLatest operations i b) (h' : IsLatest operations i b') :
    b = b' := by
  obtain ⟨k, hk, hlatest⟩ := h
  obtain ⟨k', hk', hlatest'⟩ := h'
  obtain rfl := Nat.le_antisymm (hlatest' k b hk) (hlatest k' b' hk')
  exact Option.some.inj (hk.writes.symm.trans hk'.writes)

/-- There is at most one byte due at a place. -/
theorem IsDue.unique {b' : UInt8} (h : IsDue operations i b) (h' : IsDue operations i b') :
    b = b' := by
  rcases h with h | ⟨hnone, rfl⟩ <;> rcases h' with h' | ⟨hnone', rfl⟩
  · exact h.unique h'
  · obtain ⟨k, hk, -⟩ := h
    exact absurd hk (hnone' k b)
  · obtain ⟨k, hk, -⟩ := h'
    exact absurd hk (hnone k b')
  · rfl

/-- An earlier write survives one more operation exactly where that does not cut it off. -/
theorem survives_concat_of_lt (hk : k < operations.length) :
    Survives (operations ++ [operation]) i k b ↔
      Survives operations i k b ∧ ¬ operation.Cuts i := by
  rw [survives_iff, survives_iff, List.getElem?_append_left hk, List.drop_append_of_le_length hk,
    List.forall_mem_append, List.forall_mem_singleton, and_assoc]

/-- The last operation survives wherever it writes. -/
theorem survives_concat_length :
    Survives (operations ++ [operation]) i operations.length b ↔ operation.byteAt? i = some b := by
  rw [survives_iff, List.getElem?_concat_length, List.drop_eq_nil_of_le (by simp)]
  simp

/-- Of the writes at an index, an operation that is none of them leaves all or nothing. -/
theorem survives_concat_of_none (hnone : operation.byteAt? i = none) :
    Survives (operations ++ [operation]) i k b ↔
      Survives operations i k b ∧ ¬ operation.Cuts i := by
  constructor
  · intro h
    have hk := h.lt_length
    rw [List.length_append, List.length_singleton] at hk
    rcases Nat.lt_or_eq_of_le (Nat.le_of_lt_succ hk) with hk | rfl
    · exact (survives_concat_of_lt hk).mp h
    · rw [survives_concat_length, hnone] at h
      cases h
  · intro h
    exact (survives_concat_of_lt h.1.lt_length).mpr h

namespace IsDue

/-- A write gives its byte. -/
theorem of_write (operations : List Operation) (h : operation.byteAt? i = some b) :
    IsDue (operations ++ [operation]) i b := by
  refine .inl ⟨operations.length, survives_concat_length.mpr h, fun k' b' h' => ?_⟩
  have := h'.lt_length
  rw [List.length_append, List.length_singleton] at this
  exact Nat.le_of_lt_succ this

/-- Nothing is left of what is cut off. -/
theorem of_cut (operations : List Operation) (hnone : operation.byteAt? i = none)
    (hcut : operation.Cuts i) : IsDue (operations ++ [operation]) i 0 :=
  .inr ⟨fun _ _ h => ((survives_concat_of_none hnone).mp h).2 hcut, rfl⟩

/-- Otherwise the byte stays due. -/
theorem concat (h : IsDue operations i b) (hnone : operation.byteAt? i = none)
    (huncut : ¬ operation.Cuts i) : IsDue (operations ++ [operation]) i b := by
  simpa only [IsDue, IsLatest, survives_concat_of_none hnone, and_iff_left huncut] using h

end IsDue

/-! ## Runs -/

/-- The length after all operations is folded from their lengths alone. -/
theorem length_afterAll (operations : List Operation) :
    (afterAll operations).length = operations.foldl lengthAfter 0 := by
  induction operations using List.reverseRecOn with
  | nil => rfl
  | append_singleton operations operation ih =>
    rw [afterAll_concat, length_perform, ih, List.foldl_append, List.foldl_cons, List.foldl_nil]

/-- What is due at each index is there, if what is not there is taken to be 0. -/
theorem isDue_afterAll (operations : List Operation) (i : Nat) :
    IsDue operations i ((afterAll operations).bytes[i]?.getD 0) := by
  induction operations using List.reverseRecOn with
  | nil => exact .inr ⟨fun k b h => absurd h.lt_length (Nat.not_lt_zero k), rfl⟩
  | append_singleton operations operation ih =>
    rw [afterAll_concat, getD_perform]
    cases hwrites : operation.byteAt? i with
    | some b => exact .of_write operations hwrites
    | none =>
      rw [Option.getD_none]
      split
      · exact .of_cut operations hwrites ‹_›
      · exact ih.concat hwrites ‹_›

/-- A byte that was cut off is 0 as long as nothing is written there. -/
theorem getD_foldl_eq_zero {image : Image} (h : image.bytes[i]?.getD 0 = 0)
    (hnone : ∀ operation ∈ operations, operation.byteAt? i = none) :
    (operations.foldl (fun image operation => operation.perform image) image).bytes[i]?.getD 0 =
      0 := by
  induction operations generalizing image with
  | nil => exact h
  | cons operation operations ih =>
    rw [List.forall_mem_cons] at hnone
    rw [List.foldl_cons]
    refine ih ?_ hnone.2
    rw [getD_perform, hnone.1, Option.getD_none, h, ite_self]

/-- Whatever operations an image comes from, it is as long as they make it one after the other, and
each of its bytes is the one that the latest surviving write gave it, and 0 if none survives. So what
was cut off is not seen again. -/
theorem afterAll_shows_latest (operations : List Operation) :
    (afterAll operations).length = operations.foldl lengthAfter 0 ∧
    (∀ i < (afterAll operations).length, ∀ b,
      (afterAll operations).bytes[i]? = some b ↔ IsDue operations i b) ∧
    ∀ before length after, operations = before ++ .setLength length :: after →
      ∀ i < (afterAll operations).length, length ≤ i →
        (∀ operation ∈ after, operation.byteAt? i = none) →
          (afterAll operations).bytes[i]? = some 0 := by
  have hbyte {i : Nat} (hi : i < (afterAll operations).length) : (afterAll operations).bytes[i]? =
      some ((afterAll operations).bytes[i]?.getD 0) := by
    rw [List.getElem?_eq_getElem hi]
    rfl
  refine ⟨length_afterAll operations, ?_, ?_⟩
  · intro i hi b
    have hdue := isDue_afterAll operations i
    rw [hbyte hi, Option.some.injEq]
    exact ⟨fun h => h ▸ hdue, hdue.unique⟩
  · rintro before length after rfl i hi hlength hnone
    have hcut : Cuts i (.setLength length) := hlength
    have hzero : ((Operation.setLength length).perform (afterAll before)).bytes[i]?.getD 0 = 0 := by
      rw [getD_perform, if_pos hcut]
      rfl
    rw [hbyte hi]
    congr 1
    rw [afterAll, List.foldl_append, List.foldl_cons]
    exact getD_foldl_eq_zero hzero hnone

example : (afterAll [.write 2 [1, 2], .setLength 3, .write 6 [], .writeWord 0 9]).bytes =
    [9, 0, 0, 0, 0, 0] := by
  decide

end DwarfLines.Elf.Image
