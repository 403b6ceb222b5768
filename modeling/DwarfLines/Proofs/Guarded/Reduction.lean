import DwarfLines.Proofs.Line.Reduction
import DwarfLines.Proofs.Guarded.Basic

/-!
# Dropping rows within bounds

Rows are dropped in one pass by index. The two latest of the rows that are kept are looked at again
and again, which needs them to be there.
-/

namespace DwarfLines

open Guarded

namespace Reducing

variable {ε : Type}

/-- The index of the first row from `position` on that is not of the location of `before`. -/
def passOver (rows : List Row) (before : Row) (position : Nat) : Guarded ε Nat :=
  loop (fun position => do
    if rows.length ≤ position then return .inr position
    let row ← nth rows position
    if before.sameLocation row then return .inl (← add 64 position 1) else return .inr position)
    (rows.length - position + 1) position

/-- Looks at the row at `position`, with the rows kept so far in their order. -/
def step (rows : List Row) : List Row × Nat → Guarded ε (List Row × Nat ⊕ List Row)
  | (kept, position) => do
    if rows.length ≤ position then return .inr kept
    let row := (← nth rows position).asStatement
    if kept.length = 0 || row.endSequence then return .inl (kept ++ [row], ← add 64 position 1)
    let last ← nth kept (← sub kept.length 1)
    if last.endSequence then return .inl (kept ++ [row], ← add 64 position 1)
    if last.address = row.address then
      return .inl (kept.dropLast ++ [row], ← add 64 position 1)
    if kept.length < 2 then return .inl (kept ++ [row], ← add 64 position 1)
    let before ← nth kept (← sub kept.length 2)
    if before.sameLocation last then
      return .inl (kept.dropLast, ← passOver rows before position)
    else return .inl (kept ++ [row], ← add 64 position 1)

/-- The rows without the redundant ones. -/
def run (rows : List Row) : Guarded ε (List Row) := loop (step rows) (2 * rows.length + 1) ([], 0)

variable {rows : List Row}

theorem passOver_eq (hrows : rows.length < 2 ^ 64) (before : Row) {position : Nat}
    (hposition : position ≤ rows.length) :
    ∃ position', (passOver rows before position : Guarded ε Nat) = pure position' ∧
      position ≤ position' ∧ position' ≤ rows.length ∧
      rows.drop position' = (rows.drop position).dropWhile before.sameLocation := by
  -- the loop is bounded by the rows left, and what it returns is always a suffix that starts at or
  -- after `position`
  refine loop_induction (P := fun position x => position ≤ rows.length → ∃ position',
      x = pure position' ∧ position ≤ position' ∧ position' ≤ rows.length ∧
      rows.drop position' = (rows.drop position).dropWhile before.sameLocation)
    (fun position => rows.length - position) (fun position next ih hposition => ?_) position
    (Nat.lt_succ_self _) hposition
  beta_reduce at ih ⊢
  by_cases hend : rows.length ≤ position
  · refine ⟨position, ?_, Nat.le_refl _, hposition, ?_⟩
    · simp only [if_pos hend, pure_bind]
    · rw [List.drop_of_length_le hend, List.dropWhile_nil]
  · have hlt : position < rows.length := Nat.lt_of_not_le hend
    have hdrop := List.drop_eq_getElem_cons hlt
    simp only [if_neg hend, nth_eq (List.getElem?_eq_getElem hlt), pure_bind]
    by_cases hsame : before.sameLocation rows[position] = true
    · obtain ⟨position', hnext, hle, hle', hrest⟩ := ih (position + 1) (by omega) hlt
      refine ⟨position', ?_, by omega, hle', ?_⟩
      · simp only [if_pos hsame, add_eq (show position + 1 < 2 ^ 64 by omega), pure_bind, hnext]
      · rw [hrest, hdrop, List.dropWhile_cons_of_pos hsame]
    · refine ⟨position, ?_, Nat.le_refl _, hposition, ?_⟩
      · simp only [if_neg hsame, pure_bind]
      · rw [hdrop, List.dropWhile_cons_of_neg hsame]

/-- Whether looking at a row leads to kept rows and a place from which the pass over the list of rows
comes to the same, with less to be done. The latest of the kept rows comes first. -/
def Continues (rows kept : List Row) (position : Nat)
    (x : Guarded ε (List Row × Nat ⊕ List Row)) : Prop :=
  ∃ kept' position', x = pure (.inl (kept'.reverse, position')) ∧ position' ≤ rows.length ∧
    2 * (rows.length - position') + kept'.length < 2 * (rows.length - position) + kept.length ∧
    reduceAfter kept (rows.drop position) = reduceAfter kept' (rows.drop position')

theorem continues_next {kept kept' : List Row} {position : Nat} (hposition : position < rows.length)
    (hlength : kept'.length ≤ kept.length + 1)
    (heq : reduceAfter kept (rows.drop position) = reduceAfter kept' (rows.drop (position + 1))) :
    Continues (ε := ε) rows kept position (pure (.inl (kept'.reverse, position + 1))) :=
  ⟨kept', position + 1, rfl, hposition, by omega, heq⟩

theorem continues_step (hrows : rows.length < 2 ^ 64) (kept : List Row) {position : Nat}
    (hposition : position < rows.length) :
    Continues (ε := ε) rows kept position (step rows (kept.reverse, position)) := by
  -- both indices of the step are below the number of rows, so neither addition nor lookup fails
  have hadd : (add 64 position 1 : Guarded ε Nat) = pure (position + 1) := add_eq (by omega)
  have hrow : (nth rows position : Guarded ε Row) = pure rows[position] :=
    nth_eq (List.getElem?_eq_getElem hposition)
  have hdrop := List.drop_eq_getElem_cons hposition
  generalize rows[position] = row at hrow hdrop
  unfold step
  simp only [if_neg (Nat.not_le_of_lt hposition), hrow, pure_bind, hadd]
  -- three branches of the step push the row, for different reasons: they share everything but the
  -- equation of the pass
  have hpush (heq : reduceAfter kept (rows.drop position) =
      reduceAfter (row.asStatement :: kept) (rows.drop (position + 1))) :
      Continues (ε := ε) rows kept position
        (pure (.inl (kept.reverse ++ [row.asStatement], position + 1))) := by
    rw [← List.reverse_cons]
    exact continues_next hposition (Nat.le_refl _) heq
  cases kept with
  | nil => exact hpush (by rw [hdrop, reduceAfter])
  | cons last older =>
    -- the source looks at the last two kept rows from the back of the vector
    have hlength : (last :: older).reverse.length = older.length + 1 := by simp
    have hlast : (nth (last :: older).reverse older.length : Guarded ε Row) = pure last :=
      nth_eq (by simp)
    have hsub : (sub (older.length + 1) 1 : Guarded ε Nat) = pure older.length :=
      sub_eq (Nat.le_add_left _ _)
    have hdropLast : (last :: older).reverse.dropLast = older.reverse := by simp
    simp only [hlength, Nat.add_one_ne_zero, decide_false, Bool.false_or, hsub, pure_bind, hlast,
      hdropLast, Row.endSequence_asStatement, Row.address_asStatement]
    rw [hdrop, reduceAfter.eq_def] at hpush
    dsimp only at hpush
    -- the branches come in the order of the tests in the source
    by_cases hrowEnd : row.endSequence = true
    · rw [if_pos hrowEnd]
      exact hpush (by rw [if_pos (by simp [hrowEnd])])
    by_cases hlastEnd : last.endSequence = true
    · rw [if_neg hrowEnd, if_pos hlastEnd]
      exact hpush (by rw [if_pos (by simp [hlastEnd])])
    rw [if_neg hrowEnd, if_neg hlastEnd]
    rw [if_neg (by simp [hrowEnd, hlastEnd])] at hpush
    by_cases haddress : last.address = row.address
    · rw [if_pos haddress, ← List.reverse_cons]
      refine continues_next hposition (by simp) ?_
      rw [hdrop, reduceAfter.eq_def]
      simp [hrowEnd, hlastEnd, haddress]
    rw [if_neg haddress]
    rw [if_neg haddress] at hpush
    cases older with
    | nil => exact hpush rfl
    | cons before oldest =>
      have hbefore : (nth (last :: before :: oldest).reverse oldest.length : Guarded ε Row) =
        pure before := nth_eq (by simp)
      have hsub' : (sub (oldest.length + 1 + 1) 2 : Guarded ε Nat) = pure oldest.length :=
        sub_eq (Nat.le_add_left _ _)
      have hlength' : ¬ oldest.length + 1 + 1 < 2 := by omega
      simp only [List.length_cons, if_neg hlength', hsub', pure_bind, hbefore]
      by_cases hsame : before.sameLocation last = true
      · obtain ⟨position', hpass, hle, hle', hrest⟩ :=
          passOver_eq (ε := ε) hrows before (Nat.le_of_lt hposition)
        rw [if_pos hsame, hpass]
        -- the last kept row is dropped and the row is looked at again, so the position only moves
        -- over rows already there
        refine ⟨before :: oldest, position', rfl, hle', ?_, ?_⟩
        · simp only [List.length_cons]
          omega
        · rw [hdrop] at hrest
          rw [hdrop, hrest, reduceAfter.eq_def]
          simp [hrowEnd, hlastEnd, haddress, hsame]
      · rw [if_neg hsame]
        exact hpush (if_neg hsame)

/-- Rows are dropped within bounds. -/
theorem run_eq (hrows : rows.length < 2 ^ 64) :
    (run rows : Guarded ε (List Row)) = pure (reduce rows) := by
  refine loop_induction (P := fun (s : List Row × Nat) x => s.2 ≤ rows.length →
      x = pure (reduceAfter s.1.reverse (rows.drop s.2)))
    -- a step that drops a kept row may leave the position where it is, so positions count twice
    (fun s => 2 * (rows.length - s.2) + s.1.length) (fun (front, position) next ih hposition => ?_)
    ([], 0) (Nat.lt_succ_self _) (Nat.zero_le _)
  obtain ⟨kept, rfl⟩ : ∃ kept, front = List.reverse kept := ⟨_, front.reverse_reverse.symm⟩
  dsimp only at ih hposition ⊢
  rw [List.length_reverse] at ih
  rw [List.reverse_reverse]
  by_cases hend : rows.length ≤ position
  · rw [step, if_pos hend, pure_bind, List.drop_of_length_le hend, reduceAfter]
  · obtain ⟨kept', position', hstep, hle, hless, heq⟩ :=
      continues_step (ε := ε) hrows kept (Nat.lt_of_not_le hend)
    have hnext := ih (kept'.reverse, position') (by simpa using hless) hle
    rw [List.reverse_reverse] at hnext
    rw [hstep, pure_bind, heq]
    exact hnext

end Reducing

end DwarfLines
