import DwarfLines.Proofs.Line.Thinning
import Mathlib.Data.List.Infix

/-!
# The normal form of a line table

`InNormalForm` says from the front what reduced rows look like: which rows may follow each other,
and which redundancy may stay. Reduction brings every table into this form, whatever the order of
its addresses, and the tables in this form are those that it leaves as they are. So reducing a table
once more changes nothing.
-/

namespace DwarfLines

namespace Row

theorem asStatement_eq_self_iff {row : Row} :
    row.asStatement = row ↔ (row.endSequence = false → row.isStatement = true) := by
  obtain ⟨_, _, _, _, _, isStatement, endSequence⟩ := row
  cases endSequence <;> cases isStatement <;> simp [asStatement]

theorem sameLocation_iff {a b : Row} :
    a.sameLocation b = true ↔
      a.endSequence = false ∧ b.endSequence = false ∧ a.line = b.line ∧ a.file = b.file := by
  simp [sameLocation, and_assoc]

end Row

/-- Whether a line table has no rows but those that reduction keeps. Of two rows on one line that
are next to each other, the later may stay only where the end of the sequence or of the table
follows: no row behind it asks for its place. -/
structure InNormalForm (rows : List Row) : Prop where
  statement : ∀ row ∈ rows, row.endSequence = false → row.isStatement = true
  address_ne : ∀ a b, [a, b] <:+: rows → a.endSequence = false → b.endSequence = false →
    a.address ≠ b.address
  last_of_same_location : ∀ a b next, [a, b, next] <:+: rows → a.endSequence = false →
    b.endSequence = false → a.line = b.line → a.file = b.file → next.endSequence = true

namespace InNormalForm

variable {row last : Row} {kept older : List Row}

theorem nil : InNormalForm [] where
  statement := nofun
  address_ne a b h := by simp at h
  last_of_same_location a b next h := by simp at h

/-- The rows of a table in normal form, from the latest back, follow one another. -/
theorem follows (h : InNormalForm (row :: last :: older).reverse) :
    row.Follows (last :: older) := by
  by_cases hrow : row.endSequence = true
  · exact .inl hrow
  by_cases hlast : last.endSequence = true
  · exact .inr (.inl hlast)
  rw [Bool.not_eq_true] at hrow hlast
  -- The rows that `Follows` looks at, read forwards, are next to each other in the table.
  refine .inr (.inr ⟨?_, ?_⟩)
  · apply h.address_ne last row _ hlast hrow
    exact List.reverse_infix.mpr (⟨[], older, rfl⟩ : [row, last] <:+: _)
  · rintro before hbefore
    by_contra hsame
    obtain ⟨hopen, -, hline, hfile⟩ := Row.sameLocation_iff.mp (Bool.not_eq_false _ ▸ hsame)
    obtain ⟨oldest, rfl⟩ : ∃ oldest, older = before :: oldest := List.head?_eq_some_iff.mp hbefore
    have hend := h.last_of_same_location before last row
      (List.reverse_infix.mpr (⟨[], oldest, rfl⟩ : [row, last, before] <:+: _))
      hopen hlast hline hfile
    rw [hrow] at hend
    cases hend

theorem of_cons (h : InNormalForm (row :: kept).reverse) : InNormalForm kept.reverse := by
  have hpart : kept.reverse <:+: (row :: kept).reverse :=
    List.reverse_infix.mpr (List.suffix_cons row kept).isInfix
  exact {
    statement := fun r hr => h.statement r (hpart.subset hr)
    address_ne := fun a b hab => h.address_ne a b (hab.trans hpart)
    last_of_same_location := fun a b next habn =>
      h.last_of_same_location a b next (habn.trans hpart) }

/-- A row that follows a table in normal form may be put behind it. -/
theorem cons (hrow : row.asStatement = row) (hfollows : row.Follows kept)
    (h : InNormalForm kept.reverse) : InNormalForm (row :: kept).reverse where
  statement r hr := by
    rw [List.reverse_cons, List.mem_append, List.mem_singleton] at hr
    rcases hr with hr | rfl
    · exact h.statement r hr
    · exact Row.asStatement_eq_self_iff.mp hrow
  address_ne a b hab ha hb := by
    have hab : [b, a] <:+: row :: kept := List.reverse_infix.mp hab
    -- The row is one of the two, or both were there before it.
    rcases List.infix_cons_iff.mp hab with hfront | hback
    · obtain ⟨rfl, older, rfl⟩ := List.cons_prefix_cons.mp hfront
      obtain ⟨haddress, -⟩ := (hfollows.resolve_left (by simp [hb])).resolve_left (by simp [ha])
      exact haddress
    · exact h.address_ne a b (List.reverse_infix.mpr hback) ha hb
  last_of_same_location a b next habn ha hb hline hfile := by
    have habn : [next, b, a] <:+: row :: kept := List.reverse_infix.mp habn
    rcases List.infix_cons_iff.mp habn with hfront | hback
    · obtain ⟨rfl, oldest, rfl⟩ := List.cons_prefix_cons.mp hfront
      by_contra hopen
      obtain ⟨-, hother⟩ := (hfollows.resolve_left hopen).resolve_left (by simp [hb])
      have hsame : a.sameLocation b = true := Row.sameLocation_iff.mpr ⟨ha, hb, hline, hfile⟩
      rw [hother a rfl] at hsame
      cases hsame
    · exact h.last_of_same_location a b next (List.reverse_infix.mpr hback) ha hb hline hfile

end InNormalForm

/-- Rows that reduction keeps all of are a table in normal form, read from its end. -/
theorem reduced_iff_inNormalForm {kept : List Row} : Reduced kept ↔ InNormalForm kept.reverse := by
  induction kept with
  | nil => exact ⟨fun _ => .nil, fun _ => trivial⟩
  | cons row kept ih =>
    constructor
    · rintro ⟨hrow, hfollows, hkept⟩
      exact .cons hrow hfollows (ih.mp hkept)
    · intro h
      refine ⟨?_, ?_, ih.mpr h.of_cons⟩
      · exact Row.asStatement_eq_self_iff.mpr (h.statement row (by simp))
      · cases kept with
        | nil => trivial
        | cons last older => exact h.follows

/-- What reduction leaves is in normal form, and it leaves rows that were there, in their order, as
statements, with all rows that close sequences. -/
theorem inNormalForm_reduce (rows : List Row) :
    InNormalForm (reduce rows) ∧ Thins rows (reduce rows) := by
  have h := reduced_iff_inNormalForm.mp (reduced_reduce rows)
  rw [List.reverse_reverse] at h
  exact ⟨h, thins_reduce rows⟩

/-- Three rows on one line make way for each other, and two do not if only the end follows them. -/
example :
    let row (address : UInt32) (line : Int32) : Row := { Row.initial true with address, line }
    let stop : Row := { row 28 5 with endSequence := true }
    reduce [row 16 5, row 20 5, row 24 5, stop] = [row 16 5, stop] ∧
      reduce [row 16 5, row 20 5, stop] = [row 16 5, row 20 5, stop] := by
  cbv

/-- Reducing a table twice is reducing it once, and just the tables in normal form are left as they
are. -/
theorem reduce_reduce (rows : List Row) :
    reduce (reduce rows) = reduce rows ∧ (reduce rows = rows ↔ InNormalForm rows) := by
  refine ⟨reduce_of_reduced (reduced_reduce rows), fun h => ?_, fun h => ?_⟩
  · have hreduced := reduced_iff_inNormalForm.mp (reduced_reduce rows)
    rwa [h, List.reverse_reverse] at hreduced
  · apply reduce_of_reduced
    rwa [reduced_iff_inNormalForm, List.reverse_reverse]

end DwarfLines
