import DwarfLines.Proofs.Line.Reduced

/-!
# Reduction thins rows out

However far reduction looks back, what it leaves are rows that were there, in their order, as
statements. The rows that close sequences are never missing.
-/

namespace DwarfLines

/-- Whether some rows are left of others if rows that close no sequence may be dropped. -/
inductive Thins : List Row → List Row → Prop where
  | nil : Thins [] []
  | keep {row : Row} {rows kept : List Row} : Thins rows kept →
    Thins (row :: rows) (row.asStatement :: kept)
  | drop {row : Row} {rows kept : List Row} : row.endSequence = false → Thins rows kept →
    Thins (row :: rows) kept

namespace Thins

variable {front back kept : List Row} {row : Row}

theorem of_statements {rows : List Row} (h : ∀ r ∈ rows, r.asStatement = r) : Thins rows rows := by
  induction rows with
  | nil => exact .nil
  | cons row rows ih =>
    rw [List.forall_mem_cons] at h
    have hkeep : Thins (row :: rows) (row.asStatement :: rows) := .keep (ih h.2)
    rwa [h.1] at hkeep

/-- Rows that are dropped may stand anywhere. -/
theorem insert (hrow : row.endSequence = false) (h : Thins (front ++ back) kept) :
    Thins (front ++ row :: back) kept := by
  induction front generalizing kept with
  | nil => exact .drop hrow h
  | cons first front ih =>
    cases h with
    | keep h => exact .keep (ih h)
    | drop hfirst h => exact .drop hfirst (ih h)

theorem insert_all {rows : List Row} (hrows : IsOpen rows) (h : Thins (front ++ back) kept) :
    Thins (front ++ (rows ++ back)) kept := by
  induction rows with
  | nil => exact h
  | cons row rows ih =>
    exact insert (hrows row List.mem_cons_self)
      (ih fun r hr => hrows r (List.mem_cons_of_mem _ hr))

/-- A row may be a statement before. -/
theorem of_asStatement (h : Thins (front ++ row.asStatement :: back) kept) :
    Thins (front ++ row :: back) kept := by
  induction front generalizing kept with
  | nil =>
    cases h with
    | keep h =>
      rw [Row.asStatement_asStatement]
      exact .keep h
    | drop hrow h => exact .drop (row.endSequence_asStatement ▸ hrow) h
  | cons first front ih =>
    cases h with
    | keep h => exact .keep (ih h)
    | drop hfirst h => exact .drop hfirst (ih h)

end Thins

theorem isOpen_takeWhile_sameLocation (before : Row) (rows : List Row) :
    IsOpen (rows.takeWhile before.sameLocation) := by
  intro row hrow
  have hsame := List.mem_takeWhile_imp hrow
  by_contra hends
  rw [Row.sameLocation_eq_false_right before (Bool.not_eq_false _ ▸ hends)] at hsame
  cases hsame

theorem thins_reduceAfter {kept : List Row} (hkept : ∀ r ∈ kept, r.asStatement = r)
    (rows : List Row) : Thins (kept.reverse ++ rows) (reduceAfter kept rows) := by
  have hpush {older : List Row} (row : Row) (holder : ∀ r ∈ older, r.asStatement = r) :
      ∀ r ∈ row.asStatement :: older, r.asStatement = r :=
    List.forall_mem_cons.mpr ⟨row.asStatement_asStatement, holder⟩
  -- the cases of the pass: a row pushed, the last one replaced, the last one dropped with a run
  fun_induction reduceAfter kept rows with
  | case1 kept =>
    rw [List.append_nil]
    exact .of_statements fun r hr => hkept r (List.mem_reverse.mp hr)
  | case2 row rows ih =>
    show Thins ([] ++ row :: rows) _
    exact .of_asStatement (ih (hpush row hkept))
  | case4 last older row rows hopen haddress ih =>
    rw [Bool.or_eq_true, not_or, Bool.not_eq_true, Bool.not_eq_true] at hopen
    have h := ih (hpush row (List.forall_mem_cons.mp hkept).2)
    rw [List.reverse_cons, List.append_assoc] at h ⊢
    exact .insert hopen.2 (.of_asStatement h)
  | case6 last row rows hopen haddress before oldest hsame ih =>
    rw [Bool.or_eq_true, not_or, Bool.not_eq_true, Bool.not_eq_true] at hopen
    have h := Thins.insert_all (isOpen_takeWhile_sameLocation before (row :: rows))
      (ih (List.forall_mem_cons.mp hkept).2)
    rw [List.takeWhile_append_dropWhile] at h
    rw [List.reverse_cons, List.append_assoc]
    exact .insert hopen.2 h
  -- the three cases that push the row differ in their guards only
  | case3 last older row rows _ ih | case5 last row rows _ _ ih
  | case7 last row rows _ _ before oldest _ ih =>
    have h := ih (hpush row hkept)
    rw [List.reverse_cons, List.append_assoc] at h
    exact .of_asStatement h

/-- Reduction thins rows out. -/
theorem thins_reduce (rows : List Row) : Thins rows (reduce rows) :=
  thins_reduceAfter (List.forall_mem_nil _) rows

end DwarfLines
