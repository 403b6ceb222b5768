import DwarfLines.Proofs.Guarded.Assembly
import DwarfLines.Proofs.Line.Closing
import DwarfLines.Proofs.Line.PlainForm

/-!
# Attempts to commit a row

A row is committed by attempts that go on until one of them succeeds. Nothing has to get smaller from
one to the next: an attempt that fails may leave the whole address advance as it was. What ends them
is that one has failed. The next advances the address all the way, and once the address is reached, a
row can be committed whatever its line.

So there are at most two attempts. The constant is added by the first only, and an attempt that fails
has made no other advance and committed nothing.
-/

namespace DwarfLines

namespace Instruction

/-- Whether an instruction advances the address by its operand. -/
def isAddressAdvance : Instruction → Bool
  | advanceAddress _ => true
  | _ => false

/-- From any registers, a row is committed by each of the instructions that are about that. -/
theorem length_run (p : Params) (registers : Row) (instructions : List Instruction) :
    (run p registers instructions).length = commits instructions := by
  induction instructions generalizing registers with
  | nil => rfl
  | cons i instructions ih =>
    have hfirst : (i.execute p registers).2.toList.length = commits [i] := by
      cases i with
      | extended instruction => cases instruction <;> rfl
      | _ => rfl
    rw [run, List.length_append, ih, hfirst, ← commits_cons]

/-- Whether some instructions add the constant at most so often, make at most so many other advances
of the address, and commit exactly so many rows. -/
structure Tally (instructions : List Instruction) (constants advances rows : Nat) : Prop where
  constants : instructions.count .constAddAddress ≤ constants
  advances : instructions.countP isAddressAdvance ≤ advances
  rows : commits instructions = rows

namespace Tally

variable {xs ys : List Instruction} {constants constants' advances advances' rows rows' : Nat}

/-- Counts of two lists of instructions add up. -/
theorem append (h : Tally xs constants advances rows) (h' : Tally ys constants' advances' rows') :
    Tally (xs ++ ys) (constants + constants') (advances + advances') (rows + rows') where
  constants := by
    rw [List.count_append]
    exact Nat.add_le_add h.constants h'.constants
  advances := by
    rw [List.countP_append]
    exact Nat.add_le_add h.advances h'.advances
  rows := by
    rw [commits, totalOn_append]
    exact congrArg₂ _ h.rows h'.rows

/-- The two bounds of a count may be raised. -/
theorem mono (h : Tally xs constants advances rows) (hconstants : constants ≤ constants')
    (hadvances : advances ≤ advances') : Tally xs constants' advances' rows :=
  ⟨h.constants.trans hconstants, h.advances.trans hadvances, h.rows⟩

end Tally

end Instruction

open Instruction

namespace Params

variable {p : Params} {lines : Int} {units : Nat} {retried : Bool}

/-! ## One attempt -/

/-- How an attempt may begin. One that follows another does not add the constant and leaves nothing
to be advanced. -/
inductive Leading (p : Params) (units : Nat) : Bool → List Instruction × Nat → Prop where
  | nothing {retried : Bool} : (retried = true → units = 0) → Leading p units retried ([], units)
  | all {retried : Bool} : Leading p units retried ([.advanceAddress units], 0)
  | constant : Leading p units false ([.constAddAddress], units - p.constAddUnits)

/-- What leads an attempt is one of the listed forms. -/
theorem leading_lead (p : Params) (retried : Bool) (units : Nat) :
    p.Leading units retried (p.lead retried units) := by
  unfold lead
  split
  · exact .all
  · rename_i hretried
    have hzero : retried = true → units = 0 := by simpa using hretried
    split
    · exact .nothing hzero
    · split
      · exact .all
      -- a retried attempt leaves nothing to be advanced, so this is the first one
      · have hfirst : retried = false := Bool.eq_false_iff.mpr fun h => by
          have := hzero h
          omega
        subst hfirst
        exact .constant

/-- What leads an attempt is at most one `const_add_pc` and one `advance_pc`. -/
theorem Leading.tally {led : List Instruction × Nat} (h : p.Leading units retried led) :
    Tally led.1 (if retried then 0 else 1) (if led.2 = 0 then 1 else 0) 0 := by
  cases h with
  | nothing => exact ⟨Nat.zero_le _, Nat.zero_le _, rfl⟩
  | all => exact ⟨Nat.zero_le _, Nat.le_refl _, rfl⟩
  | constant => exact ⟨Nat.le_refl _, Nat.zero_le _, rfl⟩

/-- A commit has neither. -/
theorem Commits.tally {commit : List Instruction} (h : p.Commits lines commit) :
    Tally commit 0 0 1 := by
  cases h <;> exact ⟨Nat.le_refl _, Nat.le_refl _, rfl⟩

/-- An attempt that commits the row makes one advance besides the constant at most. -/
theorem tally_attempt_of_done (h : (p.attempt retried lines units).pending = none) :
    Tally (p.attempt retried lines units).instructions (if retried then 0 else 1) 1 1 := by
  obtain ⟨commit, hcommit, hinstructions⟩ := attempt_of_done h
  rw [hinstructions]
  refine ((leading_lead p retried units).tally.append (commits_of_commit? hcommit).tally).mono
    (Nat.le_refl _) ?_
  split <;> omega

/-- An attempt that fails leaves some of the address advance. -/
theorem left_ne_zero {left : Nat} (h : (p.attempt retried lines units).pending = some left) :
    left ≠ 0 := by
  unfold attempt at h
  cases hcommit : p.commit? lines (p.lead retried units).2 with
  | none =>
    simp only [hcommit] at h
    cases h
    exact (commit?_eq_none.mp hcommit).1
  | some commit =>
    simp only [hcommit] at h
    cases h

/-- An attempt that fails is a first one. It has added the constant at most. -/
theorem tally_attempt_of_pending {left : Nat}
    (h : (p.attempt retried lines units).pending = some left) :
    retried = false ∧ Tally (p.attempt retried lines units).instructions 1 0 0 := by
  have hfirst : retried = false := Bool.eq_false_iff.mpr fun hretried => by
    rw [hretried, attempt_retried] at h
    cases h
  subst hfirst
  have hleft := left_ne_zero h
  obtain ⟨rfl, hinstructions⟩ := attempt_of_pending h
  have htally := (leading_lead p false units).tally
  rw [if_neg hleft] at htally
  rw [hinstructions]
  exact ⟨rfl, htally⟩

/-! ## All attempts -/

/-- The attempts come to an end with the second, and with the first if one has failed before. -/
theorem tally_attempts (p : Params) (retried : Bool) (lines : Int) (units : Nat) :
    (p.attempts retried lines units).length ≤ (if retried then 1 else 2) ∧
    Tally ((p.attempts retried lines units).flatMap Attempt.instructions)
      (if retried then 0 else 1) 1 1 := by
  fun_induction p.attempts retried lines units with
  | case1 retried units hdone =>
    rw [List.flatMap_singleton, List.length_singleton]
    exact ⟨by split <;> omega, tally_attempt_of_done hdone⟩
  | case2 retried units left hpending ih =>
    obtain ⟨rfl, htally⟩ := tally_attempt_of_pending hpending
    rw [List.flatMap_cons, List.length_cons]
    exact ⟨Nat.add_le_add_right ih.1 1, htally.append ih.2⟩

end Params

namespace Row

variable {p : Params}

/-- What is written for a row before the first attempt to commit it. -/
def assembleBefore (p : Params) (last row : Row) : List Instruction :=
  setRegisters last row ++
  (if (unitsTo? p last row).isSome then [] else [.extended (.setAddress row.address)]) ++
  (if p.inWindow (last.linesTo row) then [] else [.advanceLine (last.linesTo row)])

/-- The attempts to commit a row that does not end its sequence. -/
def attempts (p : Params) (last row : Row) : List Params.Attempt :=
  p.attempts false (p.linesLeft (last.linesTo row)) ((unitsTo? p last row).getD 0)

/-- What is written by the attempts to commit a row. -/
def assembleAttempts (p : Params) (last row : Row) : List Instruction :=
  (last.attempts p row).flatMap Params.Attempt.instructions

/-- A row that ends no sequence is what comes before the loop and what the loop emits. -/
theorem assemble_eq_attempts {last row : Row} (hopen : row.endSequence = false) :
    last.assemble p row = last.assembleBefore p row ++ last.assembleAttempts p row := by
  unfold assemble
  dsimp only
  rw [hopen, if_neg Bool.false_ne_true, p.advanceAndCommit_eq]
  exact (List.append_assoc _ _ _).symm

/-- The line advance left for the loop is below 62 bits. -/
theorem linesLeft_within (p : Params) (last row : Row) :
    -2 ^ 62 ≤ p.linesLeft (last.linesTo row) ∧ p.linesLeft (last.linesTo row) < 2 ^ 62 := by
  unfold Params.linesLeft
  split
  · exact linesTo_bounds last row
  · decide

/-- A row that does not end its sequence is committed by the second attempt at the latest, within the
bounds of a machine and whatever was written before. The attempts add the constant at most once, make
at most one other advance of the address, and write one instruction that commits a row. What they
write is read back as it is. -/
theorem attempts_end (hfault : p.fault? = none) (last row : Row)
    (hopen : row.endSequence = false) :
    last.assemble p row = last.assembleBefore p row ++ last.assembleAttempts p row ∧
    (last.attempts p row).length ≤ 2 ∧
    (∀ (ε : Type) (front : List Instruction),
      (Guarded.loop (Writing.attempt p (p.linesLeft (last.linesTo row))) 2
        (false, (unitsTo? p last row).getD 0, front) : Guarded ε (List Instruction)) =
          pure (front ++ last.assembleAttempts p row)) ∧
    (last.assembleAttempts p row).count .constAddAddress ≤ 1 ∧
    (last.assembleAttempts p row).countP isAddressAdvance ≤ 1 ∧
    commits (last.assembleAttempts p row) = 1 ∧
    (∀ registers, (run p registers (last.assembleAttempts p row)).length = 1) ∧
    ∀ operandCounts, scan ⟨p.opcodeBase, operandCounts⟩
      ((last.assembleAttempts p row).flatMap encode) = (last.assembleAttempts p row, true) := by
  obtain ⟨-, hrange, hbase⟩ := fault?_eq_none_iff.mp hfault
  have hlines := linesLeft_within p last row
  obtain ⟨hlength, htally⟩ :=
    p.tally_attempts false (p.linesLeft (last.linesTo row)) ((unitsTo? p last row).getD 0)
  refine ⟨assemble_eq_attempts hopen, hlength, ?_, htally.constants, htally.advances, htally.rows,
    ?_, ?_⟩
  · intro ε front
    exact Writing.attempts_eq hrange hlines _ front
  · intro registers
    rw [length_run]
    exact htally.rows
  · intro operandCounts
    have hunits := unitsTo?_getD_lt (p := p) last row
    exact scan_flatMap_encode hbase (fits_attempts false (by omega) (by omega) rfl)

/-- Parameters with so many line advances that special opcodes make no address advance, and not even
all of the line advances. -/
def wideParams : Params := ⟨1, true, -5, 255, 13⟩

/-- Without special opcodes for a line that stays, the constant and a second attempt are needed to
reach a row that is 20 bytes on. Where the constant is nothing, the address of a row is advanced at
once, and the greatest line advance is made without a special opcode. -/
theorem attempts_end_forward_wide :
    (forwardParams.fault? = none ∧
      ((Row.initial true).attempts forwardParams
        { Row.initial true with address := 20 }).length = 2 ∧
      ∀ ε front, (Guarded.loop (Writing.attempt forwardParams 0) 2 (false, 20, front) :
        Guarded ε (List Instruction)) =
          pure (front ++ [.constAddAddress, .advanceAddress 3, .copy])) ∧
    wideParams.fault? = none ∧ wideParams.constAddUnits = 0 ∧
      ((Row.initial true).attempts wideParams
        { Row.initial true with address := 1, line := 246 }).length = 1 ∧
      ∀ ε front, (Guarded.loop (Writing.attempt wideParams 245) 2 (false, 1, front) :
        Guarded ε (List Instruction)) =
          pure (front ++ [.advanceAddress 1, .advanceLine 245, .copy]) := by
  have hforward := attempts_end (p := forwardParams) (by decide) (.initial true)
    { Row.initial true with address := 20 } rfl
  have hwide := attempts_end (p := wideParams) (by decide) (.initial true)
    { Row.initial true with address := 1, line := 246 } rfl
  refine ⟨⟨by decide, by decide +kernel, ?_⟩, by decide, by decide, by decide +kernel, ?_⟩
  · have hwritten : (Row.initial true).assembleAttempts forwardParams
        { Row.initial true with address := 20 } =
          [.constAddAddress, .advanceAddress 3, .copy] := by decide +kernel
    rw [← hwritten]
    exact hforward.2.2.1
  · have hwritten : (Row.initial true).assembleAttempts wideParams
        { Row.initial true with address := 1, line := 246 } =
          [.advanceAddress 1, .advanceLine 245, .copy] := by decide +kernel
    rw [← hwritten]
    exact hwide.2.2.1

end Row

end DwarfLines
