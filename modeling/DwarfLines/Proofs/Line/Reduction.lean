import DwarfLines.Line.Reduction
import Mathlib.Data.List.Forall2
import Mathlib.Data.List.Induction
import Mathlib.Data.List.TakeWhile

/-!
# Reduction keeps source positions

A line table is read sequence by sequence: the rows up to and including a row that closes a sequence
belong together, and within a sequence an address has the source position of the last row that is
not past it. Where the rows of each sequence ascend, `reduce` changes none of these positions.

Reduction never looks across the end of a sequence (`reduce_append_end`), so everything is shown for
one sequence and then carried over the whole table by `sequenceInduction`.
-/

namespace DwarfLines

namespace Row

/-- Making a statement of a row does not end its sequence. -/
@[simp]
theorem endSequence_asStatement (row : Row) : row.asStatement.endSequence = row.endSequence := by
  unfold asStatement
  split <;> rfl

@[simp]
theorem address_asStatement (row : Row) : row.asStatement.address = row.address := by
  unfold asStatement
  split <;> rfl

@[simp]
theorem line_asStatement (row : Row) : row.asStatement.line = row.line := by
  unfold asStatement
  split <;> rfl

@[simp]
theorem file_asStatement (row : Row) : row.asStatement.file = row.file := by
  unfold asStatement
  split <;> rfl

@[simp]
theorem column_asStatement (row : Row) : row.asStatement.column = row.column := by
  unfold asStatement
  split <;> rfl

@[simp]
theorem discriminator_asStatement (row : Row) :
    row.asStatement.discriminator = row.discriminator := by
  unfold asStatement
  split <;> rfl

/-- A row that ends its sequence is left as it is. -/
theorem asStatement_of_endSequence {row : Row} (h : row.endSequence = true) :
    row.asStatement = row := by
  simp [asStatement, h]

/-- A row that ends its sequence has no location. -/
theorem sameLocation_eq_false_left {a : Row} (h : a.endSequence = true) (b : Row) :
    a.sameLocation b = false := by
  simp [sameLocation, h]

/-- A row that ends its sequence is at no location. -/
theorem sameLocation_eq_false_right (a : Row) {b : Row} (h : b.endSequence = true) :
    a.sameLocation b = false := by
  simp [sameLocation, h]

end Row

/-! ## Sequences -/

/-- The sequences of a line table, each with the row that closes it. Rows after the last closing row
are a sequence of their own. -/
def sequences : List Row → List (List Row)
  | [] => []
  | row :: rows =>
    if row.endSequence then [row] :: sequences rows
    else
      match sequences rows with
      | [] => [[row]]
      | first :: others => (row :: first) :: others

/-- Whether no row closes a sequence. -/
def IsOpen (rows : List Row) : Prop := ∀ row ∈ rows, row.endSequence = false

/-- Rows of which none ends a sequence are one sequence. -/
theorem sequences_of_isOpen {rows : List Row} (h : IsOpen rows) (hne : rows ≠ []) :
    sequences rows = [rows] := by
  induction rows with
  | nil => exact absurd rfl hne
  | cons row rows ih =>
    have hrow : row.endSequence = false := h row List.mem_cons_self
    rcases rows with _ | ⟨next, rows⟩
    · simp [sequences, hrow]
    · rw [sequences, ih (fun r hr => h r (List.mem_cons_of_mem _ hr)) (List.cons_ne_nil _ _)]
      simp [hrow]

/-- A row that ends a sequence cuts the rows behind it off. -/
theorem sequences_append_end {body : List Row} (h : IsOpen body) {stop : Row}
    (hstop : stop.endSequence = true) (rows : List Row) :
    sequences (body ++ stop :: rows) = (body ++ [stop]) :: sequences rows := by
  induction body with
  | nil => simp [sequences, hstop]
  | cons row body ih =>
    have hrow : row.endSequence = false := h row List.mem_cons_self
    rw [List.cons_append, sequences, ih fun r hr => h r (List.mem_cons_of_mem _ hr)]
    simp [hrow]

/-- What holds of an open sequence, and of a table when it holds of the table after its first
sequence, holds of every table. -/
@[elab_as_elim]
theorem sequenceInduction {motive : List Row → Prop}
    (opened : ∀ body, IsOpen body → motive body)
    (closed : ∀ body stop rows, IsOpen body → stop.endSequence = true → motive rows →
      motive (body ++ stop :: rows)) (rows : List Row) : motive rows := by
  -- `before` holds the rows of the first sequence that were already passed.
  suffices ∀ before, IsOpen before → motive (before ++ rows) from this [] (by simp [IsOpen])
  induction rows with
  | nil =>
    intro before hbefore
    simpa using opened before hbefore
  | cons row rows ih =>
    intro before hbefore
    by_cases hrow : row.endSequence = true
    · exact closed before row rows hbefore hrow (ih [] (by simp [IsOpen]))
    · have := ih (before ++ [row]) (by
        intro r hr
        rcases List.mem_append.mp hr with hr | hr
        · exact hbefore r hr
        · rw [List.mem_singleton.mp hr]
          exact Bool.eq_false_iff.mpr hrow)
      simpa using this

/-! ## Reduction works sequence by sequence -/

/-- Reduction stops looking back where a sequence ends: rows kept before that place are kept for
good. -/
theorem reduceAfter_append_end (kept rows : List Row) {stop : Row}
    (hstop : stop.endSequence = true) (older : List Row) :
    reduceAfter (kept ++ stop :: older) rows = (stop :: older).reverse ++ reduceAfter kept rows := by
  -- the end row stops the pass from looking further back, so the rows before it are never touched
  fun_induction reduceAfter kept rows with
  | case1 kept => simp [reduceAfter]
  | case2 row rows ih =>
    rw [List.nil_append, reduceAfter.eq_def]
    simp only [hstop, Bool.or_true, if_true]
    exact ih
  | case3 last kept row rows h ih =>
    rw [List.cons_append, reduceAfter.eq_def]
    simp only [if_pos h]
    exact ih
  | case4 last kept row rows h haddr ih =>
    rw [List.cons_append, reduceAfter.eq_def]
    simp only [if_neg h, if_pos haddr]
    exact ih
  | case5 last row rows h haddr ih =>
    rw [List.cons_append, reduceAfter.eq_def]
    simp only [List.nil_append, if_neg h, if_neg haddr, Row.sameLocation_eq_false_left hstop,
      Bool.false_eq_true, if_false]
    exact ih
  | case6 last row rows h haddr before oldest hsame ih =>
    rw [List.cons_append, List.cons_append, reduceAfter.eq_def]
    simp only [if_neg h, if_neg haddr, if_pos hsame]
    exact ih
  | case7 last row rows h haddr before oldest hsame ih =>
    rw [List.cons_append, List.cons_append, reduceAfter.eq_def]
    simp only [if_neg h, if_neg haddr, if_neg hsame]
    exact ih

/-- Reduction goes on with the rows it kept of the rows before, if what follows starts with the end
of a sequence. -/
theorem reduceAfter_append (kept rows : List Row) {stop : Row} (hstop : stop.endSequence = true)
    (after : List Row) :
    reduceAfter kept (rows ++ stop :: after) =
      reduceAfter (reduceAfter kept rows).reverse (stop :: after) := by
  fun_induction reduceAfter kept rows with
  | case1 kept => simp
  | case2 row rows ih =>
    rw [List.cons_append, reduceAfter.eq_def]
    exact ih
  | case3 last kept row rows h ih =>
    rw [List.cons_append, reduceAfter.eq_def]
    simp only [if_pos h]
    exact ih
  | case4 last kept row rows h haddr ih =>
    rw [List.cons_append, reduceAfter.eq_def]
    simp only [if_neg h, if_pos haddr]
    exact ih
  | case5 last row rows h haddr ih =>
    rw [List.cons_append, reduceAfter.eq_def]
    simp only [if_neg h, if_neg haddr]
    exact ih
  | case6 last row rows h haddr before oldest hsame ih =>
    rw [List.cons_append, reduceAfter.eq_def]
    simp only [if_neg h, if_neg haddr, if_pos hsame]
    -- Skipping rows stops at the end of the sequence at the latest.
    have hskip : (row :: (rows ++ stop :: after)).dropWhile before.sameLocation =
        (row :: rows).dropWhile before.sameLocation ++ stop :: after := by
      rw [← List.cons_append, List.dropWhile_append]
      split
      · rename_i hempty
        simp [List.isEmpty_iff.mp hempty, Row.sameLocation_eq_false_right before hstop]
      · rfl
    rw [hskip]
    exact ih
  | case7 last row rows h haddr before oldest hsame ih =>
    rw [List.cons_append, reduceAfter.eq_def]
    simp only [if_neg h, if_neg haddr, if_neg hsame]
    exact ih

/-- The row that closes a sequence is kept, and the rows on its two sides are reduced apart. -/
theorem reduce_append_end (body : List Row) {stop : Row} (hstop : stop.endSequence = true)
    (rows : List Row) : reduce (body ++ stop :: rows) = reduce body ++ stop :: reduce rows := by
  have hpush (kept : List Row) :
      reduceAfter kept (stop :: rows) = reduceAfter ([] ++ stop :: kept) rows := by
    rw [reduceAfter.eq_def]
    rcases kept with _ | ⟨last, older⟩ <;> simp [hstop, Row.asStatement_of_endSequence]
  calc reduce (body ++ stop :: rows)
      = reduceAfter (reduce body).reverse (stop :: rows) := reduceAfter_append [] body hstop rows
    _ = reduceAfter ([] ++ stop :: (reduce body).reverse) rows := hpush _
    _ = reduce body ++ stop :: reduce rows := by
      rw [reduceAfter_append_end [] rows hstop]
      simp [reduce]

/-! ## Source positions -/

/-- The line and file of an address in a sequence: those of the last row that is not past the
address. The row that closes the sequence has no position. -/
def locate (address : UInt32) (rows : List Row) : Option (Int32 × UInt32) :=
  ((rows.filter fun row => !row.endSequence && row.address ≤ address).getLast?).map fun row =>
    (row.line, row.file)

/-- Whether the addresses of the rows of a sequence never go back; the closing row does not count. -/
def Ascending (rows : List Row) : Prop :=
  (rows.filter fun row => !row.endSequence).Pairwise fun a b => a.address ≤ b.address

instance (rows : List Row) : Decidable (Ascending rows) :=
  inferInstanceAs (Decidable (List.Pairwise _ _))

/-- The last of several rows at an address decides. -/
theorem locate_append (address : UInt32) (xs ys : List Row) :
    locate address (xs ++ ys) = (locate address ys).or (locate address xs) := by
  unfold locate
  rw [List.filter_append, List.getLast?_append, Option.map_or]

/-- One row locates the addresses from its own on. -/
theorem locate_singleton (address : UInt32) (row : Row) :
    locate address [row] =
      if row.endSequence = false ∧ row.address ≤ address then some (row.line, row.file)
      else none := by
  unfold locate
  by_cases hend : row.endSequence = false
  · by_cases haddr : row.address ≤ address <;> simp [hend, haddr]
  · simp [hend]

/-- A statement locates the same addresses. -/
theorem locate_singleton_asStatement (address : UInt32) (row : Row) :
    locate address [row.asStatement] = locate address [row] := by
  simp only [locate_singleton, Row.endSequence_asStatement, Row.address_asStatement,
    Row.line_asStatement, Row.file_asStatement]

/-- The row that ends a sequence locates nothing. -/
theorem locate_append_end (address : UInt32) (body : List Row) {stop : Row}
    (hstop : stop.endSequence = true) : locate address (body ++ [stop]) = locate address body := by
  rw [locate_append, locate_singleton, if_neg (by simp [hstop]), Option.none_or]

/-- Of two rows at one address only the later gives positions. -/
theorem locate_same_address (address : UInt32) {last row : Row} (hrow : row.endSequence = false)
    (h : last.address = row.address) :
    locate address [last, row] = locate address [row] := by
  rw [show [last, row] = [last] ++ [row] from rfl, locate_append]
  simp only [locate_singleton, hrow, h, true_and]
  by_cases haddr : row.address ≤ address <;> simp [haddr]

/-- Rows on the line of a row before them, at its address or past it, give no other positions. -/
theorem locate_same_location (address : UInt32) (before : Row) (run : List Row)
    (hsame : ∀ row ∈ run, before.sameLocation row = true)
    (hpast : ∀ row ∈ run, before.address ≤ row.address) :
    locate address (before :: run) = locate address [before] := by
  -- from the back: a row at the location of the first one changes nothing where it is last
  induction run using List.reverseRecOn with
  | nil => rfl
  | append_singleton run row ih =>
    have hrun := ih (fun r hr => hsame r (List.mem_append_left _ hr))
      (fun r hr => hpast r (List.mem_append_left _ hr))
    have hrow := hsame row (by simp)
    have haddr := hpast row (by simp)
    simp only [Row.sameLocation, Bool.and_eq_true, Bool.not_eq_eq_eq_not, Bool.not_true,
      beq_iff_eq] at hrow
    obtain ⟨⟨⟨hbefore, hend⟩, hline⟩, hfile⟩ := hrow
    rw [← List.cons_append, locate_append, hrun]
    simp only [locate_singleton, hbefore, hend, hline, hfile, true_and]
    by_cases hle : row.address ≤ address
    · simp [hle, UInt32.le_trans haddr hle]
    · simp [hle]

/-! ## One sequence -/

/-- A row of the result was kept before or is a row that was still to be looked at. -/
theorem mem_reduceAfter {kept rows : List Row} {r : Row} (h : r ∈ reduceAfter kept rows) :
    r ∈ kept ∨ ∃ row ∈ rows, r = row.asStatement := by
  fun_induction reduceAfter kept rows with
  | case1 kept => exact .inl (List.mem_reverse.mp h)
  | case6 last row rows hend haddr before oldest hsame ih =>
    rcases ih h with hkept | ⟨row', hrow', heq⟩
    · exact .inl (List.mem_cons_of_mem _ hkept)
    · exact .inr ⟨row', List.dropWhile_subset _ hrow', heq⟩
  | _ => grind

/-- Reduction ends no sequence that was open. -/
theorem isOpen_reduce {rows : List Row} (h : IsOpen rows) : IsOpen (reduce rows) := by
  intro r hr
  rcases mem_reduceAfter hr with hkept | ⟨row, hrow, rfl⟩
  · exact absurd hkept List.not_mem_nil
  · rw [Row.endSequence_asStatement]
    exact h row hrow

/-- Reduction leaves something of something. -/
theorem reduceAfter_ne_nil {kept rows : List Row} (h : kept ≠ [] ∨ rows ≠ []) :
    reduceAfter kept rows ≠ [] := by
  fun_induction reduceAfter kept rows with
  | case1 kept => simpa using h
  | _ => simp_all

/-- Making a statement of a row among others locates the same. -/
theorem locate_append_asStatement (address : UInt32) (before : List Row) (row : Row)
    (after : List Row) :
    locate address (before ++ row.asStatement :: after) = locate address (before ++ row :: after) := by
  have hsplit (r : Row) : before ++ r :: after = before ++ ([r] ++ after) := rfl
  simp only [hsplit, locate_append, locate_singleton_asStatement]

/-- The rows of one sequence in the middle of its reduction: none closes the sequence, and the
addresses of those kept and of those still to be looked at never go back. -/
structure InSequence (rows : List Row) : Prop where
  isOpen : IsOpen rows
  ascending : (rows.map Row.address).Pairwise (· ≤ ·)

/-- Rows that are left of a sequence are in sequence. -/
theorem InSequence.sublist {xs ys : List Row} (h : InSequence ys) (hsub : xs.Sublist ys) :
    InSequence xs :=
  ⟨fun r hr => h.isOpen r (hsub.subset hr), h.ascending.sublist (hsub.map _)⟩

/-- A row of a sequence may be made a statement. -/
theorem InSequence.asStatement {before after : List Row} {row : Row}
    (h : InSequence (before ++ row :: after)) : InSequence (before ++ row.asStatement :: after) := by
  refine ⟨fun r hr => ?_, ?_⟩
  · simp only [List.mem_append, List.mem_cons] at hr
    rcases hr with hr | rfl | hr
    · exact h.isOpen r (by simp [hr])
    · rw [Row.endSequence_asStatement]
      exact h.isOpen row (by simp)
    · exact h.isOpen r (by simp [hr])
  · simpa using h.ascending

/-- Reducing the rest of a sequence after some rows were kept gives the positions of the kept rows
followed by that rest. -/
theorem locate_reduceAfter (address : UInt32) {kept rows : List Row}
    (h : InSequence (kept.reverse ++ rows)) :
    locate address (reduceAfter kept rows) = locate address (kept.reverse ++ rows) := by
  fun_induction reduceAfter kept rows with
  | case1 kept => simp
  | case2 row rows ih =>
    rw [ih h.asStatement]
    exact locate_append_asStatement address [] row rows
  | case3 last older row rows hend ih =>
    have hrow := h.isOpen row (by simp)
    have hlast := h.isOpen last (by simp)
    simp [hrow, hlast] at hend
  | case4 last older row rows hend haddr ih =>
    have hrow : row.endSequence = false := h.isOpen row (by simp)
    rw [List.reverse_cons, List.append_assoc, List.singleton_append] at h ih
    rw [ih (h.sublist (by simp)).asStatement, locate_append_asStatement]
    calc locate address (older.reverse ++ ([row] ++ rows))
        = locate address (older.reverse ++ ([last, row] ++ rows)) := by
          simp only [locate_append, locate_same_address address hrow haddr]
      _ = locate address ((last :: older).reverse ++ row :: rows) := by simp
  | case5 last row rows hend haddr ih =>
    rw [List.reverse_cons, List.append_assoc, List.singleton_append] at ih
    rw [ih h.asStatement, locate_append_asStatement]
  | case6 last row rows hend haddr before oldest hsame ih =>
    have hsplit := List.takeWhile_append_dropWhile (p := before.sameLocation) (l := row :: rows)
    generalize hskipped : (row :: rows).takeWhile before.sameLocation = skipped at hsplit
    generalize (row :: rows).dropWhile before.sameLocation = unread at hsplit ih
    rw [← hsplit] at h ⊢
    rw [ih (h.sublist (by simp))]
    -- The row that gives way and the rows that are skipped are on the line of `before`.
    have hrun : locate address (before :: last :: skipped) = locate address [before] := by
      refine locate_same_location address before _ ?_ ?_
      · intro r hr
        rcases List.mem_cons.mp hr with rfl | hr
        · exact hsame
        · rw [← hskipped] at hr
          exact List.mem_takeWhile_imp hr
      · have hrun : InSequence (before :: last :: skipped) := h.sublist (by simp)
        simpa using (List.pairwise_cons.mp hrun.ascending).1
    calc locate address ((before :: oldest).reverse ++ unread)
        = locate address (oldest.reverse ++ ([before] ++ unread)) := by simp
      _ = locate address (oldest.reverse ++ ((before :: last :: skipped) ++ unread)) := by
        simp only [locate_append, hrun]
      _ = locate address ((last :: before :: oldest).reverse ++ (skipped ++ unread)) := by simp
  | case7 last row rows hend haddr before oldest hsame ih =>
    rw [List.reverse_cons, List.append_assoc, List.singleton_append] at ih
    rw [ih h.asStatement, locate_append_asStatement]

/-- In a sequence of ascending addresses, every address is located as before. -/
theorem locate_reduce (address : UInt32) {rows : List Row} (hopen : IsOpen rows)
    (hascending : Ascending rows) : locate address (reduce rows) = locate address rows := by
  refine locate_reduceAfter address ⟨hopen, ?_⟩
  have hall : (rows.filter fun row => !row.endSequence) = rows := by
    rw [List.filter_eq_self]
    intro row hrow
    simp [hopen row hrow]
  rw [Ascending, hall] at hascending
  exact List.pairwise_map.mpr hascending

/-! ## The whole table -/

/-- Where the rows of each sequence ascend, the reduced table has as many sequences, and each gives
every address the source position that it had. -/
theorem sequences_reduce_forall₂_locate (rows : List Row)
    (h : ∀ body ∈ sequences rows, Ascending body) :
    List.Forall₂ (fun before after => ∀ address, locate address after = locate address before)
      (sequences rows) (sequences (reduce rows)) := by
  induction rows using sequenceInduction with
  | opened body hopen =>
    by_cases hne : body = []
    · subst hne
      simp [sequences, reduce, reduceAfter]
    · rw [sequences_of_isOpen hopen hne] at h ⊢
      rw [sequences_of_isOpen (isOpen_reduce hopen) (reduceAfter_ne_nil (.inr hne))]
      refine .cons (fun address => ?_) .nil
      exact locate_reduce address hopen (h body List.mem_cons_self)
  | closed body stop rows hopen hstop ih =>
    rw [sequences_append_end hopen hstop] at h ⊢
    rw [reduce_append_end body hstop, sequences_append_end (isOpen_reduce hopen) hstop]
    -- the end row stops both sequences at the same place
    refine .cons (fun address => ?_) (ih fun later hlater => h later (List.mem_cons_of_mem _ hlater))
    rw [locate_append_end address _ hstop, locate_append_end address _ hstop]
    refine locate_reduce address hopen ?_
    have hbody := h (body ++ [stop]) List.mem_cons_self
    simpa [Ascending, hstop] using hbody

/-- A sequence in which a row is replaced by a later one at its address, which then gives way itself
with the row after it, and an open sequence. -/
def twoSequences : List Row :=
  let row (address : UInt32) (line : Int32) : Row := { Row.initial false with address, line }
  [row 16 5, row 20 6, row 20 5, row 24 5, row 28 7, { row 4 7 with endSequence := true }, row 8 1,
    row 12 1]

/-- Two sequences, in both of which rows are dropped. -/
theorem sequences_reduce_twoSequences :
    (∀ body ∈ sequences twoSequences, Ascending body) ∧ (reduce twoSequences).length = 5 ∧
      List.Forall₂ (fun before after => ∀ address, locate address after = locate address before)
        (sequences twoSequences) (sequences (reduce twoSequences)) :=
  ⟨by decide, by cbv, sequences_reduce_forall₂_locate twoSequences (by decide)⟩

end DwarfLines
