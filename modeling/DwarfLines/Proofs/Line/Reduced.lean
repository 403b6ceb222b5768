import DwarfLines.Proofs.Line.Reduction

/-!
# Reduced rows

Reduction leaves rows among which it finds nothing more to drop: `Reduced` says what such rows look
like, from the latest back. Rows that are reduced stay as they are.
-/

namespace DwarfLines

/-- Making a row a statement twice is making it one once. -/
@[simp]
theorem Row.asStatement_asStatement (row : Row) : row.asStatement.asStatement = row.asStatement := by
  unfold asStatement
  split <;> simp_all

/-- Whether a row is kept behind others, of which the latest comes first, without any of them giving
way: it is at another address than the latest, and that one begins its line. Across the end of a
sequence nothing gives way. -/
def Row.Follows (row : Row) : List Row → Prop
  | [] => True
  | last :: older => row.endSequence = true ∨ last.endSequence = true ∨
      (last.address ≠ row.address ∧ ∀ before ∈ older.head?, before.sameLocation last = false)

/-- A row made a statement may follow where the row may. -/
theorem Row.Follows.asStatement {row : Row} {kept : List Row} (h : row.Follows kept) :
    row.asStatement.Follows kept := by
  cases kept with
  | nil => trivial
  | cons last older => simpa [Follows] using h

/-- A row may take the place of one at the same address. -/
theorem Row.Follows.of_address_eq {row last : Row} {kept : List Row} (h : last.Follows kept)
    (hlast : last.endSequence = false) (haddress : last.address = row.address) :
    row.Follows kept := by
  cases kept with
  | nil => trivial
  | cons before older =>
    rw [Follows, hlast, haddress] at h
    exact .inr (h.resolve_left (by decide))

/-- Whether reduction keeps all of some rows, of which the latest comes first. -/
def Reduced : List Row → Prop
  | [] => True
  | row :: kept => row.asStatement = row ∧ row.Follows kept ∧ Reduced kept

/-- A row that may follow reduced rows makes, as a statement, reduced rows of them. -/
theorem Reduced.cons {row : Row} {kept : List Row} (hrow : row.Follows kept) (h : Reduced kept) :
    Reduced (row.asStatement :: kept) := ⟨row.asStatement_asStatement, hrow.asStatement, h⟩

/-- The earlier rows of reduced rows are reduced. -/
theorem Reduced.of_append {rows kept : List Row} (h : Reduced (rows ++ kept)) : Reduced kept := by
  induction rows with
  | nil => exact h
  | cons row rows ih => exact ih h.2.2

/-- What reduction leaves is reduced, if what it kept before was. -/
theorem reduced_reduceAfter {kept rows : List Row} (h : Reduced kept) :
    Reduced (reduceAfter kept rows).reverse := by
  fun_induction reduceAfter kept rows with
  | case1 kept => rwa [List.reverse_reverse]
  | case2 row rows ih => exact ih (.cons trivial h)
  | case3 last older row rows hends ih =>
    rw [Bool.or_eq_true] at hends
    exact ih (.cons (hends.imp_right .inl) h)
  | case4 last older row rows hopen haddress ih =>
    have hlast : last.endSequence = false := by
      rw [Bool.or_eq_true, not_or, Bool.not_eq_true, Bool.not_eq_true] at hopen
      exact hopen.2
    exact ih (.cons (h.2.1.of_address_eq hlast haddress) h.2.2)
  | case5 last row rows hopen haddress ih =>
    exact ih (.cons (.inr (.inr ⟨haddress, by simp⟩)) h)
  | case6 last row rows hopen haddress before oldest hsame ih => exact ih h.2.2
  | case7 last row rows hopen haddress before oldest hother ih =>
    exact ih (.cons (.inr (.inr ⟨haddress, by simpa using hother⟩)) h)

/-- Rows that are reduced are kept behind those that are. -/
theorem reduceAfter_of_reduced {kept rows : List Row} (h : Reduced (rows.reverse ++ kept)) :
    reduceAfter kept rows = kept.reverse ++ rows := by
  induction rows generalizing kept with
  | nil => rw [reduceAfter, List.append_nil]
  | cons row rows ih =>
    rw [List.reverse_cons, List.append_assoc, List.singleton_append] at h
    obtain ⟨hrow, hfollows, -⟩ := h.of_append
    have hrest : reduceAfter (row :: kept) rows = kept.reverse ++ row :: rows := by
      rw [ih h, List.reverse_cons, List.append_assoc, List.singleton_append]
    rw [← hrest]
    -- Each reason for a row to give way is one that `Follows` excludes.
    cases kept with
    | nil => rw [reduceAfter, hrow]
    | cons last older =>
      rw [reduceAfter.eq_def]
      dsimp only
      split
      · rw [hrow]
      · rename_i hopen
        rw [Bool.or_eq_true, not_or] at hopen
        obtain ⟨haddress, hbefore⟩ := (hfollows.resolve_left hopen.1).resolve_left hopen.2
        rw [if_neg haddress]
        cases older with
        | nil => simp only [hrow]
        | cons before oldest =>
          have hother : before.sameLocation last = false := hbefore before rfl
          simp only [hother, hrow, Bool.false_eq_true, if_false]

/-- What the pass returns is reduced. -/
theorem reduced_reduce (rows : List Row) : Reduced (reduce rows).reverse :=
  reduced_reduceAfter trivial

/-- Rows that are reduced stay as they are. -/
theorem reduce_of_reduced {rows : List Row} (h : Reduced rows.reverse) : reduce rows = rows := by
  rw [← List.append_nil rows.reverse] at h
  exact reduceAfter_of_reduced h

end DwarfLines
