import DwarfLines.Cursor
import DwarfLines.Proofs.Decoder
import DwarfLines.Proofs.Outcomes

/-!
# What reading computations take

A reading computation is local if its value depends on where it starts and on the bytes that it
takes, but not on what comes after them. Like a decoder it reads a value from some bytes if it makes
that of any bytes that start so. A computation may also find an error in some bytes whatever follows
them.
-/

namespace DwarfLines

open Outcome

namespace Reading

variable {α β : Type}

/-- Whether, at `position`, the computation takes `front` off any bytes that start so, and makes `a`
of it. -/
def Reads (reading : Reading α) (position : Nat) (front : Bytes) (a : α) : Prop :=
  ∀ rest, reading ⟨position, front ++ rest⟩ = .ok a ⟨position + front.length, rest⟩

/-- Whether what the computation makes of some bytes depends on nothing but its place and the bytes
that it takes. -/
def Local (reading : Reading α) : Prop :=
  ∀ (c c' : Cursor) (a : α), reading c = .ok a c' →
    ∃ front, c.rest = front ++ c'.rest ∧ c'.position = c.position + front.length ∧
      reading.Reads c.position front a

/-- A value that takes no bytes is read without moving. -/
theorem Reads.pure (position : Nat) (a : α) : (Pure.pure a : Reading α).Reads position [] a :=
  fun _ => rfl

/-- Two parts are read one behind the other, the second as the first says. -/
theorem Reads.bind {reading : Reading α} {f : α → Reading β} {position : Nat} {xs ys : Bytes} {a : α}
    {b : β} (hx : reading.Reads position xs a) (hy : (f a).Reads (position + xs.length) ys b) :
    (reading >>= f).Reads position (xs ++ ys) b := by
  intro rest
  rw [List.append_assoc, state_bind_eq_ok_iff]
  refine ⟨a, _, hx _, ?_⟩
  rw [List.length_append, ← Nat.add_assoc]
  exact hy rest

/-- The last part may take no bytes. -/
theorem Reads.bind_last {reading : Reading α} {f : α → Reading β} {position : Nat} {xs : Bytes}
    {a : α} {b : β} (hx : reading.Reads position xs a)
    (hy : (f a).Reads (position + xs.length) [] b) : (reading >>= f).Reads position xs b := by
  simpa using hx.bind hy

/-- What a decoder reads is read at any place. -/
theorem Reads.read {d : Decoder α} {front : Bytes} {a : α} (h : d.Reads front a) (position : Nat) :
    (Cursor.read d).Reads position front a := by
  intro rest
  simp only [Cursor.read, h rest, List.length_append]
  rw [Nat.add_sub_cancel]

/-- A computation that asks where it is and goes on. -/
theorem Reads.get {f : Cursor → Reading α} {position : Nat} {front : Bytes} {a : α}
    (h : ∀ c, c.position = position → (f c).Reads position front a) :
    (MonadState.get >>= f : Reading α).Reads position front a :=
  fun rest => h _ rfl rest

/-- A value that takes no bytes looks at none. -/
theorem Local.pure (a : α) : (Pure.pure a : Reading α).Local := by
  intro c c' b h
  obtain ⟨rfl, rfl⟩ := state_pure_eq_ok_iff.mp h
  exact ⟨[], rfl, rfl, .pure _ a⟩

/-- A failure looks at no bytes. -/
theorem Local.throw (e : DebugError) : (throw e : Reading α).Local :=
  fun _ _ _ h => absurd h state_throw_ne_ok

/-- A failure looks at no bytes, whatever was to come. -/
theorem Local.throw_bind (e : DebugError) (f : α → Reading β) :
    (MonadExcept.throw e >>= f).Local :=
  fun _ _ _ h => absurd h state_throw_ne_ok

/-- Two parts that look at their own bytes only do so together. -/
theorem Local.bind {reading : Reading α} {f : α → Reading β} (hx : reading.Local)
    (hy : ∀ a, (f a).Local) : (reading >>= f).Local := by
  intro c c'' b h
  obtain ⟨a, c', ha, h⟩ := state_bind_eq_ok_iff.mp h
  -- the second reading starts where the first one stopped, so the bytes they take stand side by
  -- side
  obtain ⟨xs, hxs, hposition, hreads⟩ := hx c c' a ha
  obtain ⟨ys, hys, hposition', hreads'⟩ := hy a c' c'' b h
  refine ⟨xs ++ ys, ?_, ?_, ?_⟩
  · rw [hxs, hys, List.append_assoc]
  · rw [hposition', hposition, List.length_append, Nat.add_assoc]
  · rw [hposition] at hreads'
    exact hreads.bind hreads'

/-- A cursor looks at the bytes that its decoder looks at. -/
theorem Local.read {d : Decoder α} (hd : d.Local) : (Cursor.read d).Local := by
  intro c c' a h
  unfold Cursor.read at h
  -- only the reading that succeeds takes bytes
  split at h
  · rename_i b rest hb
    obtain ⟨front, hfront, hreads⟩ := hd _ _ _ hb
    cases h
    refine ⟨front, hfront, ?_, .read hreads _⟩
    rw [hfront, List.length_append, Nat.add_sub_cancel]
  · cases h

/-- Whether all that the computation accepts is of the same size. -/
def Takes (reading : Reading α) (n : Nat) : Prop :=
  ∀ (c c' : Cursor) (a : α), reading c = .ok a c' → c.rest.length = n + c'.rest.length

/-- A value that takes no bytes takes none. -/
theorem Takes.pure (a : α) : (Pure.pure a : Reading α).Takes 0 := by
  intro c c' b h
  obtain ⟨-, rfl⟩ := state_pure_eq_ok_iff.mp h
  exact (Nat.zero_add _).symm

/-- A failure takes as many bytes as one likes. -/
theorem Takes.throw_bind (e : DebugError) (f : α → Reading β) (n : Nat) :
    (MonadExcept.throw e >>= f).Takes n :=
  fun _ _ _ h => absurd h state_throw_ne_ok

/-- Two parts of fixed size take both sizes together. -/
theorem Takes.bind {reading : Reading α} {f : α → Reading β} {m n : Nat} (hx : reading.Takes m)
    (hy : ∀ a, (f a).Takes n) : (reading >>= f).Takes (m + n) := by
  intro c c'' b h
  obtain ⟨a, c', ha, h⟩ := state_bind_eq_ok_iff.mp h
  rw [hx c c' a ha, hy a c' c'' b h, Nat.add_assoc]

/-- A cursor moves by what its decoder takes. -/
theorem Takes.read {d : Decoder α} {n : Nat} (hd : d.Takes n) : (Cursor.read d).Takes n := by
  intro c c' a h
  unfold Cursor.read at h
  split at h
  · rename_i b rest hb
    cases h
    exact hd _ _ _ hb
  · cases h

/-- Two parts of one size may be branches. -/
theorem Takes.ite {c : Prop} [Decidable c] {x y : Reading α} {n : Nat} (hx : x.Takes n)
    (hy : y.Takes n) : (if c then x else y).Takes n := by
  split
  · exact hx
  · exact hy

/-- A choice that does not depend on the bytes looks at those of its branch. -/
theorem Local.ite {c : Prop} [Decidable c] {x y : Reading α} (hx : x.Local) (hy : y.Local) :
    (if c then x else y).Local := by
  split
  · exact hx
  · exact hy

end Reading

/-- The value of a reading is what it ends with, wherever it ends. -/
theorem Reading.value_eq_ok_iff {α : Type} {reading : Reading α} {c : Cursor} {a : α} :
    reading.value c = .ok a ↔ ∃ c', reading c = .ok a c' := by
  unfold value
  cases reading c <;> simp

/-- What is written is the value of what is read. -/
theorem Reading.Reads.value {α : Type} {reading : Reading α} {position : Nat} {front : Bytes} {a : α}
    (h : reading.Reads position front a) (rest : Bytes) :
    reading.value ⟨position, front ++ rest⟩ = .ok a := value_eq_ok_iff.mpr ⟨_, h rest⟩

namespace Reading

variable {α β : Type}

/-- Whether, at `position`, the computation finds the same from any bytes that start with `front`. -/
def Finds (reading : Reading α) (position : Nat) (front : Bytes) (found : Except DebugError α) :
    Prop :=
  ∀ rest, reading.value ⟨position, front ++ rest⟩ = found

/-- What is read is found. -/
theorem Reads.finds {reading : Reading α} {position : Nat} {front : Bytes} {a : α}
    (h : reading.Reads position front a) : reading.Finds position front (.ok a) := h.value

/-- A failure finds an error. -/
theorem Finds.throw (position : Nat) (front : Bytes) (e : DebugError) :
    (throw e : Reading α).Finds position front (.error e) := fun _ => rfl

/-- After a part is read, the next finds what is left to be found. -/
theorem Reads.bind_finds {reading : Reading α} {f : α → Reading β} {position : Nat} {xs ys : Bytes}
    {a : α} {found : Except DebugError β} (hx : reading.Reads position xs a)
    (hy : (f a).Finds (position + xs.length) ys found) :
    (reading >>= f).Finds position (xs ++ ys) found := by
  intro rest
  rw [← hy rest, List.append_assoc]
  unfold Reading.value
  simp only [Bind.bind, EStateM.bind, hx (ys ++ rest)]

/-- The part that finds it may take no bytes. -/
theorem Reads.bind_finds_last {reading : Reading α} {f : α → Reading β} {position : Nat} {xs : Bytes}
    {a : α} {found : Except DebugError β} (hx : reading.Reads position xs a)
    (hy : (f a).Finds (position + xs.length) [] found) : (reading >>= f).Finds position xs found := by
  simpa using hx.bind_finds hy

/-- Nothing is found behind an error. -/
theorem Finds.bind_error {reading : Reading α} {position : Nat} {front : Bytes} {e : DebugError}
    (h : reading.Finds position front (.error e)) (f : α → Reading β) :
    (reading >>= f).Finds position front (.error e) := by
  intro rest
  have hrest := h rest
  -- `value` forgets the cursor the failure leaves, so the bind has to be opened to see that `f` is
  -- not run
  unfold Reading.value at hrest ⊢
  simp only [Bind.bind, EStateM.bind]
  split at hrest
  · cases hrest
  · rename_i hreading
    cases hrest
    rw [hreading]

end Reading

/-- A cursor is bounded if there are so many bytes left. -/
theorem Cursor.bounded?_eq_some_iff {c bounded : Cursor} {length : Nat} :
    c.bounded? length = some bounded ↔
      length ≤ c.rest.length ∧ bounded = ⟨c.position, c.rest.take length⟩ := by
  unfold bounded?
  split
  · rename_i h
    simp only [h, true_and, Option.some.injEq]
    exact eq_comm
  · rename_i h
    simp only [h, false_and, reduceCtorEq]

end DwarfLines
