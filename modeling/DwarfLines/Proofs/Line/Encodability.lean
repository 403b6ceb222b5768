import DwarfLines.Proofs.Line.Program
import DwarfLines.Proofs.Line.Reduction

/-!
# Which programs can be written

A decoded program can be written with other rows if its opcodes leave room for the standard ones, the
rows close their last sequence, and the unit does not get too long. Reduction keeps whether the last
sequence is closed, so dropping redundant rows neither makes a program impossible to write nor mends
one that was.
-/

namespace DwarfLines

open Outcome

/-! ## Reduction and the end of the last sequence -/

/-- Whether the rows end a sequence depends on the last of them only. -/
theorem endsSequence_append_cons (front : List Row) (row : Row) (rows : List Row) :
    endsSequence (front ++ row :: rows) = endsSequence (row :: rows) := by
  unfold endsSequence
  rw [List.getLast?_append_of_ne_nil _ (List.cons_ne_nil row rows)]

/-- A single row ends a sequence or not. -/
theorem endsSequence_singleton (row : Row) : endsSequence [row] = row.endSequence := rfl

/-- Of a row that others follow nothing is asked. -/
theorem endsSequence_cons_congr {row other : Row} (h : other.endSequence = row.endSequence)
    (rows : List Row) : endsSequence (other :: rows) = endsSequence (row :: rows) := by
  cases rows with
  | nil => exact h
  | cons next rows =>
    exact (endsSequence_append_cons [other] next rows).trans
      (endsSequence_append_cons [row] next rows).symm

/-- Kept rows before the next ones do not matter to how they end. -/
theorem endsSequence_reverse_cons (kept : List Row) (row : Row) (rows : List Row) :
    endsSequence ((row :: kept).reverse ++ rows) = endsSequence (row :: rows) := by
  rw [List.reverse_cons, List.append_assoc, List.singleton_append, endsSequence_append_cons]

/-- Rows of an open sequence end none. -/
theorem endsSequence_of_isOpen {row : Row} {rows : List Row}
    (h : ∀ r ∈ row :: rows, r.endSequence = false) : endsSequence (row :: rows) = false := by
  unfold endsSequence
  rw [List.getLast?_eq_some_getLast (List.cons_ne_nil row rows)]
  exact h _ (List.getLast_mem _)

/-- Passing over rows of one line does not pass over the end of a sequence. -/
theorem endsSequence_dropWhile {before : Row} (hbefore : before.endSequence = false) (row : Row)
    (rows : List Row) :
    endsSequence (before :: (row :: rows).dropWhile before.sameLocation) =
      endsSequence (row :: rows) := by
  cases hrest : (row :: rows).dropWhile before.sameLocation with
  | nil =>
    have hall : ∀ r ∈ row :: rows, r.endSequence = false := by
      intro r hr
      have hsame := List.dropWhile_eq_nil_iff.mp hrest r hr
      by_contra hends
      rw [Row.sameLocation_eq_false_right before (Bool.not_eq_false _ ▸ hends)] at hsame
      cases hsame
    rw [endsSequence_singleton, hbefore, endsSequence_of_isOpen hall]
  | cons next rest =>
    have hsplit := List.takeWhile_append_dropWhile (p := before.sameLocation) (l := row :: rows)
    rw [hrest] at hsplit
    rw [← hsplit, endsSequence_append_cons]
    exact endsSequence_append_cons [before] next rest

/-- Reduction keeps whether the last row closes its sequence. -/
theorem endsSequence_reduceAfter (kept rows : List Row) :
    endsSequence (reduceAfter kept rows) = endsSequence (kept.reverse ++ rows) := by
  fun_induction reduceAfter kept rows with
  | case1 kept => rw [List.append_nil]
  | case2 row rows ih =>
    rw [ih]
    exact endsSequence_cons_congr row.endSequence_asStatement rows
  | case6 last row rows hopen haddress before oldest hsame ih =>
    have hbefore : before.endSequence = false := by
      by_contra hends
      rw [Row.sameLocation_eq_false_left (Bool.not_eq_false _ ▸ hends)] at hsame
      cases hsame
    rw [ih, endsSequence_reverse_cons, endsSequence_append_cons, endsSequence_dropWhile hbefore]
  | case3 last older row rows _ ih | case4 last older row rows _ _ ih | case5 last row rows _ _ ih
  | case7 last row rows _ _ before oldest _ ih =>
    rw [ih, endsSequence_reverse_cons, endsSequence_append_cons,
      endsSequence_cons_congr row.endSequence_asStatement]

/-- Reducing the rows keeps whether they end a sequence. -/
theorem endsSequence_reduce (rows : List Row) : endsSequence (reduce rows) = endsSequence rows :=
  endsSequence_reduceAfter [] rows

/-- The rows end a sequence where the last of them does, if there is one. -/
theorem endsSequence_iff {rows : List Row} :
    endsSequence rows = true ↔ ∀ last ∈ rows.getLast?, last.endSequence = true := by
  unfold endsSequence
  cases rows.getLast? <;> simp

/-! ## Programs -/

/-- A unit is written if the parameters allow it, the last row ends a sequence and its length fits. -/
theorem exists_encodeUnit (version : UInt16) {p : Params} {tables : Bytes} {rows : List Row}
    (hfault : p.fault? = none) (hends : endsSequence rows = true)
    (hlength : 11 + (tables ++ programBytes p rows).length < 2 ^ 32) :
    ∃ unit, encodeUnit version p tables rows = .ok unit := by
  have htables : tables.length ≤ (tables ++ programBytes p rows).length := by simp
  obtain ⟨headerLength, hheader⟩ := exists_word32 (n := 5 + tables.length) (by omega)
  obtain ⟨unitLength, hunit⟩ := exists_word32 hlength
  exact ⟨_, encodeUnit_eq_ok_iff.mpr ⟨hfault, hends, headerLength, unitLength, hheader, hunit, rfl⟩⟩

namespace Program

/-- The length of the unit that a program is written into with the given rows. -/
def encodedLength (program : Program) (rows : List Row) : Nat :=
  15 + (program.tables ++ programBytes program.header.params rows).length

/-- An encoded program has the length that is computed from its rows. -/
theorem length_of_encode {program : Program} {rows : List Row} {bytes : Bytes}
    (h : program.encode rows = .ok bytes) : bytes.length = program.encodedLength rows := by
  obtain ⟨-, -, _, _, -, -, rfl⟩ := encodeUnit_eq_ok_iff.mp h
  have hparams : program.header.params.bytes.length = 5 := rfl
  simp only [List.length_append, length_bytesOfWord16, length_bytesOfWord32, hparams, encodedLength]
  omega

/-- A program can be written exactly when its parameters allow it, its rows close their last sequence
and the length of the unit fits. -/
theorem exists_encode_iff {program : Program} {rows : List Row} :
    (∃ bytes, program.encode rows = .ok bytes) ↔
      program.header.params.fault? = none ∧ endsSequence rows = true ∧
        program.encodedLength rows < 2 ^ 32 + 4 := by
  constructor
  · rintro ⟨bytes, h⟩
    obtain ⟨hfault, hends, _, unitLength, -, hunit, -⟩ := encodeUnit_eq_ok_iff.mp h
    have hlt := unitLength.toNat_lt
    refine ⟨hfault, hends, ?_⟩
    unfold encodedLength
    omega
  · rintro ⟨hfault, hends, hlength⟩
    unfold encodedLength at hlength
    exact exists_encodeUnit _ hfault hends (by omega)

/-- The parameters of a decoded program are at fault only if they leave no room for the standard
opcodes. -/
theorem fault?_of_decode {unit : Bytes} {program : Program} (h : decode unit = .ok program) :
    program.header.params.fault? = none ↔ 9 ≤ program.header.params.opcodeBase := by
  obtain ⟨header, _, _, hheader, -, -, rfl⟩ := decode_eq_ok_iff.mp h
  obtain ⟨hlength, hrange⟩ := UnitHeader.params_ne_zero_of_read hheader
  rw [fault?_eq_none_iff]
  exact ⟨fun ⟨_, _, hbase⟩ => hbase, fun hbase => ⟨hlength, hrange, hbase⟩⟩

end Program

end DwarfLines
