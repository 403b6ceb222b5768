import DwarfLines.Proofs.Line.Closing

/-!
# Stretches of a program

The rows that are left of a program cut it into stretches: each leads from the registers after one row
to the next. What the writer takes for a row is compared with the stretch that leads to it. It may take
more where a special opcode of the stretch, or the constant, makes an advance without an operand, and no
special opcode makes the advance of the whole stretch.
-/

namespace DwarfLines

open Instruction

/-- Instructions of a program and the row that they lead to. -/
structure Stretch where
  instructions : List Instruction
  row : Row
  deriving DecidableEq, Repr

/-- Whether a program, from the registers on, goes through some stretches one after the other. What comes
after the last is not part of any. -/
inductive Stretches (p : Params) : Row → List Stretch → List Instruction → Prop where
  | rest (registers : Row) (instructions : List Instruction) : Stretches p registers [] instructions
  | cons {registers : Row} {stretch : Stretch} {stretches : List Stretch}
    {instructions : List Instruction} :
    LeadsTo p registers stretch.instructions stretch.row →
    Stretches p (stretch.row.registersAfter p) stretches instructions →
    Stretches p registers (stretch :: stretches) (stretch.instructions ++ instructions)

/-- The rows that are left cut a program into stretches. -/
theorem exists_stretches {p : Params} {registers : Row} (hopen : registers.endSequence = false)
    {instructions : List Instruction} {kept : List Row}
    (h : Thins (run p registers instructions) kept) :
    ∃ stretches : List Stretch, Stretches p registers stretches instructions ∧
      stretches.map (·.row.asStatement) = kept := by
  induction kept generalizing registers instructions with
  | nil => exact ⟨[], .rest registers instructions, rfl⟩
  | cons row kept ih =>
    obtain ⟨front, back, committed, rfl, hleads, rfl, hrest⟩ := exists_leadsTo hopen h
    have hopen' : (committed.registersAfter p).endSequence = false := by
      unfold Row.registersAfter
      split
      · rfl
      · exact Bool.not_eq_true _ ▸ ‹_›
    obtain ⟨stretches, hstretches, rfl⟩ := ih hopen' hrest
    exact ⟨⟨front, committed⟩ :: stretches, .cons hleads hstretches, rfl⟩

namespace Stretch

/-- How far the stretch advances the line. -/
def lines (p : Params) (stretch : Stretch) : Int :=
  (stretch.instructions.map (Instruction.lines p)).sum

/-- How far the stretch advances the address, in instruction lengths. -/
def units (p : Params) (stretch : Stretch) : Nat :=
  (stretch.instructions.map (Instruction.units p)).sum

/-- Whether the stretch has an advance of the line without an operand, and its row cannot be written
without one. -/
def LosesLine (p : Params) (stretch : Stretch) : Prop :=
  (∃ i ∈ stretch.instructions, i.impliedLines p ≠ 0) ∧
    p.NeedsLine stretch.row.endSequence (stretch.lines p)

/-- Whether the stretch has an advance of the address without an operand, and its row cannot be written
without one. -/
def LosesAddress (p : Params) (stretch : Stretch) : Prop :=
  (∃ i ∈ stretch.instructions, i.impliedUnits p ≠ 0) ∧
    p.NeedsAddress stretch.row.endSequence (stretch.lines p) (stretch.units p)

instance (p : Params) (stretch : Stretch) : Decidable (stretch.LosesLine p) :=
  inferInstanceAs (Decidable (_ ∧ _))

instance (p : Params) (stretch : Stretch) : Decidable (stretch.LosesAddress p) :=
  inferInstanceAs (Decidable (_ ∧ _))

/-- How many bytes the writer may take more than the stretch for advances that need an operand now. -/
def advanceCharge (p : Params) (stretch : Stretch) : Nat :=
  (if stretch.LosesLine p then 3 else 0) + if stretch.LosesAddress p then 2 else 0

/-- Whether the stretch begins a sequence with a row that is no statement, where statements have to be
marked. The writer, which makes a statement of the row, has to mark it. -/
def isHiddenStart (p : Params) (first : Bool) (stretch : Stretch) : Bool :=
  !p.defaultIsStatement && first && !stretch.row.endSequence && !stretch.row.isStatement

/-- How many bytes the writer may take more to change the statement flag for the row and back. -/
def flagCharge (p : Params) (first : Bool) (stretch : Stretch) : Nat :=
  if stretch.isHiddenStart p first then 2 else 0

end Stretch

/-- What the writer may take more than some stretches, where `first` says whether the first of them begins
a sequence. -/
def charges (p : Params) (first : Bool) : List Stretch → Nat
  | [] => 0
  | stretch :: stretches =>
    stretch.advanceCharge p + stretch.flagCharge p first + charges p stretch.row.endSequence stretches

namespace Row

/-- The pairs of the registers before a row and the row, as the writer comes upon them. -/
def steps (p : Params) (last : Row) : List Row → List (Row × Row)
  | [] => []
  | row :: rows => (last, row) :: steps p (row.registersAfter p) rows

end Row

end DwarfLines
