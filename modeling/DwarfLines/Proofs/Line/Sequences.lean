import DwarfLines.Line.Assembly
import DwarfLines.Proofs.Line.Thinning

/-!
# Reduction works sequence by sequence

What follows the end of a sequence has no influence on what is left of the sequence, and each
sequence keeps its start: the first row that is left is where the first row was. No row moves past
another, and the rows that close sequences stay where they were.
-/

namespace DwarfLines

namespace Thins

variable {rows kept : List Row}

/-- What is left are rows that were there, in their order, as statements. -/
theorem sublist (h : Thins rows kept) : kept.Sublist (rows.map Row.asStatement) := by
  induction h with
  | nil => exact .slnil
  | keep h ih => exact ih.cons_cons _
  | drop hrow h ih => exact ih.cons _

/-- The rows that close sequences are left unchanged. -/
theorem filter_endSequence (h : Thins rows kept) :
    kept.filter Row.endSequence = rows.filter Row.endSequence := by
  induction h with
  | nil => rfl
  | @keep row rows kept h ih =>
    rw [List.filter_cons, List.filter_cons, Row.endSequence_asStatement, ih]
    split
    · rename_i hrow
      rw [Row.asStatement_of_endSequence hrow]
    · rfl
  | drop hrow h ih => rw [List.filter_cons_of_neg (by simp [hrow]), ih]

end Thins

theorem reduce_nil : reduce [] = [] := by
  rw [reduce, reduceAfter, List.reverse_nil]

/-- Rows behind the end of a sequence are reduced apart from those before it. -/
theorem reduce_append {front : List Row} (h : endsSequence front = true) (back : List Row) :
    reduce (front ++ back) = reduce front ++ reduce back := by
  cases front using List.reverseRecOn with
  | nil => rw [reduce_nil, List.nil_append, List.nil_append]
  | append_singleton body stop =>
    have hstop : stop.endSequence = true := by simpa [endsSequence] using h
    calc reduce ((body ++ [stop]) ++ back)
        = reduce (body ++ stop :: back) := by rw [List.append_assoc, List.singleton_append]
      _ = reduce body ++ stop :: reduce back := reduce_append_end body hstop back
      _ = (reduce body ++ stop :: reduce []) ++ reduce back := by rw [reduce_nil]; simp
      _ = reduce (body ++ [stop]) ++ reduce back := by rw [reduce_append_end body hstop]

/-! ## The start of a sequence -/

/-- The first of all rows is at the address of the first row that there was: the only row that takes
its place is at the same address, and it has no row before it to which it could give way. -/
theorem address_head?_reduceAfter (kept rows : List Row) :
    (reduceAfter kept rows).head?.map Row.address =
      (kept.reverse ++ rows).head?.map Row.address := by
  fun_induction reduceAfter kept rows with
  | case1 kept => rw [List.append_nil]
  | case4 last older row rows hopen haddress ih =>
    rw [ih]
    -- The row that gives way is the first of all where `older` is empty.
    cases older using List.reverseRecOn <;> simp [haddress]
  | case6 last row rows hopen haddress before oldest hsame ih =>
    rw [ih]
    cases oldest using List.reverseRecOn <;> simp
  | case2 row rows ih | case3 last older row rows hends ih | case5 last row rows hopen haddress ih
  | case7 last row rows hopen haddress before oldest hother ih =>
    rw [ih]
    simp

/-- Whether a sequence that has rows besides the one that closes it still has such rows, the first
of them where the sequence started. -/
def KeepsStart (before after : List Row) : Prop :=
  (∃ row ∈ before, row.endSequence = false) →
    ∃ first ∈ after.head?, first.endSequence = false ∧
      ∃ start ∈ before.head?, first.address = start.address

theorem keepsStart_reduce {body : List Row} (hopen : IsOpen body) {close : List Row}
    (hclose : ∀ row ∈ close, row.endSequence = true) :
    KeepsStart (body ++ close) (reduce body ++ close) := by
  rintro ⟨row, hrow, hrowOpen⟩
  have haddress := address_head?_reduceAfter [] body
  cases body with
  | nil =>
    have hends := hclose row hrow
    rw [hrowOpen] at hends
    cases hends
  | cons start body =>
    obtain ⟨first, others, hreduce⟩ : ∃ first others, reduce (start :: body) = first :: others :=
      List.exists_cons_of_ne_nil (reduceAfter_ne_nil (.inr (List.cons_ne_nil _ _)))
    have hfirst : first.endSequence = false := isOpen_reduce hopen first (by simp [hreduce])
    rw [← reduce, hreduce] at haddress
    exact ⟨first, by simp [hreduce], hfirst, start, rfl, by simpa using haddress⟩

theorem sequences_reduce_forall₂_keepsStart (rows : List Row) :
    List.Forall₂ KeepsStart (sequences rows) (sequences (reduce rows)) := by
  induction rows using sequenceInduction with
  | opened body hopen =>
    by_cases hne : body = []
    · subst hne
      simp [sequences, reduce, reduceAfter]
    · rw [sequences_of_isOpen hopen hne]
      rw [sequences_of_isOpen (isOpen_reduce hopen) (reduceAfter_ne_nil (.inr hne))]
      have hkeeps : KeepsStart (body ++ []) (reduce body ++ []) :=
        keepsStart_reduce hopen (List.forall_mem_nil _)
      rw [List.append_nil, List.append_nil] at hkeeps
      exact .cons hkeeps .nil
  | closed body stop rows hopen hstop ih =>
    rw [sequences_append_end hopen hstop, reduce_append_end body hstop]
    rw [sequences_append_end (isOpen_reduce hopen) hstop]
    exact .cons (keepsStart_reduce hopen (by simpa using hstop)) ih

/-- Reduction works sequence by sequence. The rows of a table that ends a sequence are reduced apart
from those behind them; and of every table those rows are left, in their order, that were there, as
statements, with all rows that close sequences, and each sequence keeps its start. -/
theorem reduce_sequencewise :
    (∀ front back, endsSequence front = true →
      reduce (front ++ back) = reduce front ++ reduce back) ∧
    ∀ rows, (reduce rows).Sublist (rows.map Row.asStatement) ∧
      (reduce rows).filter Row.endSequence = rows.filter Row.endSequence ∧
      List.Forall₂ KeepsStart (sequences rows) (sequences (reduce rows)) := by
  refine ⟨fun front back h => reduce_append h back, fun rows => ?_⟩
  have hthins := thins_reduce rows
  exact ⟨hthins.sublist, hthins.filter_endSequence, sequences_reduce_forall₂_keepsStart rows⟩

end DwarfLines
