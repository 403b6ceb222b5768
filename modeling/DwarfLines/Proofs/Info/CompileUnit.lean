import DwarfLines.Info.CompileUnit
import DwarfLines.Proofs.Cursor
import DwarfLines.Proofs.Leb128

/-!
# What compile units are read from

Root entries are read by local computations. A root entry that refers to a line program is read up to
the reference: any other reference stored in the same place is read instead.
-/

namespace DwarfLines

open Outcome

/-! ## Headers -/

namespace CompileUnitHeader

/-- Whether the header of a unit reads, and what it reads, does not depend on the bytes after it. -/
theorem local_read : read.Local := by
  refine (Reading.Local.read Decoder.local_word32).bind fun unitLength => ?_
  refine .ite (.throw_bind _ _) ((Reading.Local.read Decoder.local_word16).bind fun version => ?_)
  refine .ite ?_ (.throw_bind _ _)
  refine (Reading.Local.read Decoder.local_word32).bind fun abbreviationOffset => ?_
  exact (Reading.Local.read Decoder.local_byte).bind fun addressSize => .pure _

/-- The header of a unit is a fixed number of bytes. -/
theorem takes_read : read.Takes size := by
  show read.Takes (4 + (2 + (4 + (1 + 0))))
  refine (Reading.Takes.read Decoder.takes_word32).bind fun unitLength => ?_
  refine .ite (.throw_bind _ _ _) ((Reading.Takes.read Decoder.takes_word16).bind fun version => ?_)
  refine .ite ?_ (.throw_bind _ _ _)
  refine (Reading.Takes.read Decoder.takes_word32).bind fun abbreviationOffset => ?_
  exact (Reading.Takes.read Decoder.takes_byte).bind fun addressSize => .pure _

end CompileUnitHeader

/-! ## Values of attributes -/

namespace Form

/-- Following `DW_FORM_indirect` reads only the forms of the chain. -/
theorem local_resolve (form : Form) : form.resolve.Local := by
  intro bytes
  -- a chain of indirect forms is as long as the data makes it, so the induction is on the reading
  fun_induction resolve form bytes with
  | case1 bytes hnone =>
    intro a rest h
    cases h
  | case2 bytes code rest' hcode ih =>
    intro a rest h
    obtain ⟨xs, rfl, hxs⟩ := Leb128.local_unsigned _ _ _ hcode
    obtain ⟨ys, rfl, hys⟩ := ih a rest h
    -- the bytes of the chain are one form code after the other
    refine ⟨xs ++ ys, (List.append_assoc _ _ _).symm, fun rest => ?_⟩
    rw [List.append_assoc]
    unfold resolve
    rw [if_pos rfl]
    split
    · rename_i hnone
      rw [hxs] at hnone
      cases hnone
    · rename_i hsome
      rw [hxs] at hsome
      cases hsome
      exact hys rest
  | case3 form bytes hform =>
    intro a rest h
    cases h
    refine ⟨[], rfl, fun rest => ?_⟩
    unfold resolve
    rw [if_neg hform]
    rfl

/-- Skipping a fixed number of bytes reads only those. -/
theorem local_skip (n : Nat) : (value.skip n).Local := (Decoder.local_take n).map _

/-- The value of an attribute is read from its own bytes. -/
theorem local_value (layout : Layout) (form : Form) : (form.value layout).Local := by
  -- every form is a fixed number of bytes, a number, or a length and as many bytes
  cases form with
  | flagPresent => exact .pure ()
  | sdata => exact Leb128.local_signed.map _
  | udata | refUdata => exact Leb128.local_unsigned.map _
  | string => exact Decoder.local_cstring.map _
  | block1 => exact Decoder.local_byte.bind fun _ => local_skip _
  | block2 => exact Decoder.local_word16.bind fun _ => local_skip _
  | block4 => exact Decoder.local_word32.bind fun _ => local_skip _
  | block | exprloc => exact Leb128.local_unsigned.bind fun _ => local_skip _
  | indirect | unknown => exact .failure
  | _ => exact local_skip _

end Form

/-- Skipping the value of an attribute reads only its own bytes. -/
theorem local_skipValue (layout : Form.Layout) (form : Form) : (skipValue layout form).Local := by
  refine (Reading.Local.read (Form.local_resolve form)).bind fun resolved => ?_
  split
  · exact .throw _
  · exact .read (Form.local_value layout _)

/-! ## Root entries -/

namespace RootEntry

/-- The bytes of a reference, if there is one. -/
def reference : RootEntry → Bytes
  | statementList _ lineOffset => bytesOfWord32 lineOffset
  | absent | withoutStatementList => []

/-- The root entry with another reference in the place of its own, if it has one. -/
def redirect (lineOffset : UInt32) : RootEntry → RootEntry
  | statementList valueOffset _ => statementList valueOffset lineOffset
  | absent => absent
  | withoutStatementList => withoutStatementList

/-- Redirecting the statement list keeps the length of the stored reference. -/
@[simp]
theorem length_reference_redirect (lineOffset : UInt32) (root : RootEntry) :
    (root.redirect lineOffset).reference.length = root.reference.length := by
  cases root <;> simp [redirect, reference]

/-- Whether a reference is stored at `position`, if there is one. -/
def StandsAt (position : Nat) : RootEntry → Prop
  | statementList valueOffset _ => valueOffset = position
  | absent | withoutStatementList => True

/-- Whether a computation that yields a root entry reads up to its reference, and would yield any
other reference that is stored there instead. -/
def Redirects (reading : Reading RootEntry) : Prop :=
  ∀ (c c' : Cursor) (root : RootEntry), reading c = .ok root c' →
    ∃ front, c.rest = front ++ (root.reference ++ c'.rest) ∧
      root.StandsAt (c.position + front.length) ∧
      ∀ other, reading.Reads c.position (front ++ (root.redirect other).reference)
        (root.redirect other)

/-- An entry that no redirection changes and that stores no reference redirects. -/
theorem Redirects.pure {root : RootEntry} (h : ∀ other, root.redirect other = root)
    (hreference : root.reference = []) (hstands : ∀ position, root.StandsAt position) :
    Redirects (Pure.pure root) := by
  intro c c' root' hroot
  obtain ⟨rfl, rfl⟩ := state_pure_eq_ok_iff.mp hroot
  refine ⟨[], by rw [hreference]; rfl, hstands _, fun other => ?_⟩
  rw [h, hreference]
  exact .pure _ _

/-- A reading that fails redirects: there is no entry to move. -/
theorem Redirects.throw (e : DebugError) : Redirects (throw e) :=
  fun _ _ _ h => absurd h state_throw_ne_ok

/-- Redirection is inherited by what follows a reading that does not depend on later bytes. -/
theorem Redirects.bind {α : Type} {reading : Reading α} {f : α → Reading RootEntry}
    (hx : reading.Local) (hy : ∀ a, Redirects (f a)) : Redirects (reading >>= f) := by
  intro c c'' root h
  obtain ⟨a, c', ha, h⟩ := state_bind_eq_ok_iff.mp h
  obtain ⟨xs, hxs, hposition, hreads⟩ := hx c c' a ha
  obtain ⟨ys, hys, hstands, hreads'⟩ := hy a c' c'' root h
  -- what is read first does not depend on the redirected bytes, which come after it
  refine ⟨xs ++ ys, ?_, ?_, fun other => ?_⟩
  · rw [hxs, hys, List.append_assoc]
  · rwa [List.length_append, ← Nat.add_assoc, ← hposition]
  · rw [List.append_assoc]
    refine hreads.bind ?_
    rw [← hposition]
    exact hreads' other

/-- A reference is read where it stands. -/
theorem redirects_reference : Redirects (do
    let valueOffset := (← get).position
    return .statementList valueOffset (← Cursor.read Decoder.word32)) := by
  intro c c' root h
  obtain ⟨_, _, hget, h⟩ := state_bind_eq_ok_iff.mp h
  obtain ⟨rfl, rfl⟩ := state_get_eq_ok_iff.mp hget
  obtain ⟨word, c₁, hword, h⟩ := state_bind_eq_ok_iff.mp h
  obtain ⟨rfl, rfl⟩ := state_pure_eq_ok_iff.mp h
  unfold Cursor.read at hword
  -- the four bytes that were read are the reference, so any other four are read as well
  split at hword
  · rename_i word' rest hrest
    cases hword
    refine ⟨[], Decoder.word32_eq_some_iff.mp hrest, (Nat.add_zero _).symm, fun other => ?_⟩
    refine .get fun c hc => ?_
    rw [hc]
    exact (Reading.Reads.read (Decoder.reads_word32 other) _).bind_last (.pure _ _)
  · cases hword

/-- Reading the attributes of the root entry redirects, at whichever of them the reference stands.
-/
theorem redirects_ofAttributes (layout : Form.Layout) (specs : List AttributeSpec) :
    Redirects (ofAttributes layout specs) := by
  -- the attributes before the statement list are skipped unchanged; those after it are not read
  induction specs with
  | nil => exact .pure (fun _ => rfl) rfl (fun _ => trivial)
  | cons spec specs ih =>
    unfold ofAttributes
    split
    · refine .bind (.read (Form.local_resolve _)) fun form => ?_
      split
      · exact redirects_reference
      · exact .throw _
    · exact .bind (local_skipValue _ _) fun _ => ih

/-- Reading the root entry redirects: only the stored reference changes with the statement list. -/
theorem redirects_read (abbreviations : Bytes) (header : CompileUnitHeader) :
    Redirects (read abbreviations header) := by
  -- an entry that ends before its attributes has no reference to redirect
  refine .bind (.read Leb128.local_unsigned) fun code => ?_
  split
  · exact .pure (fun _ => rfl) rfl (fun _ => trivial)
  · split
    · exact .throw _
    · split
      · exact .throw _
      · exact redirects_ofAttributes _ _

end RootEntry

end DwarfLines
