import DwarfLines.Proofs.Line.Shortest
import DwarfLines.Proofs.Line.Thinning
import Mathlib.Algebra.GroupWithZero.Nat
import Mathlib.Algebra.Ring.Int.Defs

/-!
# What a program spends its bytes on

Each instruction is about one aspect of the rows. Between two rows that are kept, a program spends
bytes on an aspect only if the rows differ in it, and how much they can differ is bounded by what was
spent. So what it takes to write the second row after the first can be compared with what the program
spent, one aspect at a time.
-/

namespace DwarfLines

/-- What an instruction is about. -/
inductive Aspect where
  | address
  | line
  | file
  | column
  | discriminator
  | statement
  /-- Committing a row. -/
  | commit
  /-- Nothing that shows in a row. -/
  | none
  deriving DecidableEq, Repr

namespace Instruction

/-- The aspect of the rows that an instruction is about. -/
def aspect : Instruction → Aspect
  | special _ | copy | extended .endSequence => .commit
  | advanceAddress _ | constAddAddress | fixedAdvanceAddress _ | extended (.setAddress _) => .address
  | advanceLine _ => .line
  | setFile _ => .file
  | setColumn _ => .column
  | extended (.setDiscriminator _) => .discriminator
  | negateStatement => .statement
  | other _ _ | extended .empty | extended (.defineFile _ _) | extended .defineNoFile
  | extended (.unknown _ _) => .none

/-- The sum of a measure over the instructions that are about one aspect. -/
def totalOn (aspect : Aspect) (measure : Instruction → Nat) (instructions : List Instruction) : Nat :=
  ((instructions.filter fun i => i.aspect = aspect).map measure).sum

/-- The bytes that it takes to write the instructions that are about one aspect. -/
def spent (aspect : Aspect) (instructions : List Instruction) : Nat :=
  totalOn aspect (fun i => i.encode.length) instructions

section

variable {measure : Instruction → Nat} {aspect : Aspect}

@[simp]
theorem totalOn_nil : totalOn aspect measure [] = 0 := rfl

@[simp]
theorem totalOn_cons (i : Instruction) (instructions : List Instruction) :
    totalOn aspect measure (i :: instructions) =
      (if i.aspect = aspect then measure i else 0) + totalOn aspect measure instructions := by
  unfold totalOn
  by_cases h : i.aspect = aspect <;> simp [h]

@[simp]
theorem totalOn_append (front back : List Instruction) :
    totalOn aspect measure (front ++ back) =
      totalOn aspect measure front + totalOn aspect measure back := by
  simp [totalOn]

@[simp]
theorem spent_nil : spent aspect [] = 0 := rfl

@[simp]
theorem spent_cons (i : Instruction) (instructions : List Instruction) :
    spent aspect (i :: instructions) =
      (if i.aspect = aspect then i.encode.length else 0) + spent aspect instructions :=
  totalOn_cons i instructions

@[simp]
theorem spent_append (front back : List Instruction) :
    spent aspect (front ++ back) = spent aspect front + spent aspect back :=
  totalOn_append front back

end

/-- A measure adds up over the aspects. -/
theorem sum_map_eq_totalOn (measure : Instruction → Nat) (instructions : List Instruction) :
    (instructions.map measure).sum =
      totalOn .address measure instructions + totalOn .line measure instructions +
      totalOn .file measure instructions + totalOn .column measure instructions +
      totalOn .discriminator measure instructions + totalOn .statement measure instructions +
      totalOn .commit measure instructions + totalOn .none measure instructions := by
  induction instructions with
  | nil => rfl
  | cons i instructions ih =>
    rw [List.map_cons, List.sum_cons, ih]
    simp only [totalOn_cons]
    cases i.aspect <;> simp <;> omega

/-! ## Rows and the instructions before them -/

/-- Whether instructions, from the registers on, lead to a row: the last of them commits it, and before
it at most rows are committed that close no sequence. -/
inductive LeadsTo (p : Params) : Row → List Instruction → Row → Prop where
  | last {registers next row : Row} {i : Instruction} :
    i.execute p registers = (next, some row) → LeadsTo p registers [i] row
  | cons {registers row : Row} {i : Instruction} {instructions : List Instruction} :
    i ≠ .extended .endSequence → LeadsTo p (i.execute p registers).1 instructions row →
    LeadsTo p registers (i :: instructions) row

/-- The sum of a measure over instructions that depends on the registers before each. -/
def along (p : Params) (measure : Row → Instruction → Nat) : Row → List Instruction → Nat
  | _, [] => 0
  | registers, i :: instructions =>
    measure registers i + along p measure (i.execute p registers).1 instructions

/-- The instruction that ends a sequence takes three bytes. -/
theorem length_encode_endSequence : (extended .endSequence).encode.length = 3 := by
  simp [encode, Extended.encode, Extended.body, Leb128.encodeUnsigned]

/-- The instruction that sets the address takes seven bytes. -/
theorem length_encode_setAddress (address : UInt32) :
    (extended (.setAddress address)).encode.length = 7 := by
  simp [encode, Extended.encode, Extended.body, Leb128.encodeUnsigned]

/-- What it takes to commit a row. -/
def commitLength (row : Row) : Nat := if row.endSequence then 3 else 1

section

variable {p : Params} {registers next row : Row} {i : Instruction}

/-- The instructions that commit a row, and what they leave. -/
theorem execute_eq_some (h : i.execute p registers = (next, some row))
    (hopen : registers.endSequence = false) :
    next = row.registersAfter p ∧ i.aspect = .commit ∧ i.encode.length = commitLength row ∧
      (row.endSequence = false → i ≠ .extended .endSequence) := by
  -- only special opcodes, `copy` and `end_sequence` commit a row
  cases i with
  | special | copy =>
    cases h
    refine ⟨?_, rfl, ?_, fun _ => by simp⟩ <;>
      simp [Row.registersAfter, commitLength, Row.advance, Row.advanceLine, hopen, encode]
  | extended instruction =>
    cases instruction with
    | endSequence =>
      cases h
      exact ⟨rfl, rfl, length_encode_endSequence, fun hrow => by cases hrow⟩
    | empty | setAddress | defineFile | defineNoFile | setDiscriminator | unknown => cases h
  | advanceAddress | advanceLine | setFile | setColumn | negateStatement | constAddAddress
  | fixedAdvanceAddress | other => cases h

/-- An open sequence is still open in the registers after any instruction. -/
theorem endSequence_execute (i : Instruction) (hopen : registers.endSequence = false) :
    (i.execute p registers).1.endSequence = false := by
  cases i with
  | extended instruction => cases instruction <;> first | exact hopen | rfl
  | _ => exact hopen

end

/-- The rows that are left are reached one after the other. -/
theorem exists_leadsTo {p : Params} {registers : Row} (hopen : registers.endSequence = false)
    {instructions : List Instruction} {row : Row} {kept : List Row}
    (h : Thins (run p registers instructions) (row :: kept)) :
    ∃ front back last, instructions = front ++ back ∧ LeadsTo p registers front last ∧
      row = last.asStatement ∧ Thins (run p (last.registersAfter p) back) kept := by
  -- along the program up to the first row that is kept; the rows dropped before it are passed over
  induction instructions generalizing registers with
  | nil => cases h
  | cons i instructions ih =>
    have hpass (hi : i ≠ .extended .endSequence)
        (hrest : Thins (run p (i.execute p registers).1 instructions) (row :: kept)) :
        ∃ front back last, i :: instructions = front ++ back ∧ LeadsTo p registers front last ∧
          row = last.asStatement ∧ Thins (run p (last.registersAfter p) back) kept := by
      obtain ⟨front, back, last, rfl, hleads, hrow, hthins⟩ := ih (endSequence_execute i hopen) hrest
      exact ⟨i :: front, back, last, rfl, .cons hi hleads, hrow, hthins⟩
    rw [run] at h
    rcases hexecute : i.execute p registers with ⟨next, _ | committed⟩
    · rw [hexecute] at h hpass
      refine hpass ?_ h
      rintro rfl
      cases hexecute
    · obtain ⟨rfl, -, -, hi⟩ := execute_eq_some hexecute hopen
      rw [hexecute] at h hpass
      cases h with
      | keep h => exact ⟨[i], instructions, committed, rfl, .last hexecute, rfl, h⟩
      | drop hcommitted h => exact hpass (hi hcommitted) h

/-! ## Registers that are set -/

/-- A file number that wraps takes no more bytes in 32 bits. -/
theorem length_setFile_le (n : Nat) :
    (setFile (UInt32.ofNat n).toNat).encode.length ≤ (setFile n).encode.length := by
  have hle : (UInt32.ofNat n).toNat ≤ n := Nat.mod_le n _
  exact Nat.succ_le_succ (Leb128.length_encodeUnsigned_mono hle)

/-- A column that wraps takes no more bytes in 32 bits. -/
theorem length_setColumn_le (n : Nat) :
    (setColumn (UInt32.ofNat n).toNat).encode.length ≤ (setColumn n).encode.length :=
  length_setFile_le n

/-- A discriminator that wraps takes no more bytes in 32 bits. -/
theorem length_setDiscriminator_le (n : Nat) :
    (extended (.setDiscriminator (UInt32.ofNat n).toNat)).encode.length ≤
      (extended (.setDiscriminator n)).encode.length := by
  have hle : (UInt32.ofNat n).toNat ≤ n := Nat.mod_le n _
  have hnumber := Leb128.length_encodeUnsigned_mono hle
  have hlength := Leb128.length_encodeUnsigned_mono (Nat.add_le_add_right hnumber 1)
  simp only [encode, Extended.encode, Extended.body, List.length_cons, List.length_append]
  omega

/-- Whether a register changes only by instructions that are about it, which are no shorter than `cost`
says of the value that they give it. -/
structure SetBy {α : Type} (p : Params) (aspect : Aspect) (get : Row → α) (cost : α → Nat) : Prop where
  sets : ∀ (i : Instruction) (before : Row), i ≠ .extended .endSequence →
    get (i.execute p before).1 = get before ∨
      (i.aspect = aspect ∧ cost (get (i.execute p before).1) ≤ i.encode.length)
  commits : ∀ (i : Instruction) (before next row : Row), i.execute p before = (next, some row) →
    get row = get before

/-- A register that is another in the row was set to what it is there. -/
theorem SetBy.le_spent {α : Type} [DecidableEq α] {p : Params} {aspect : Aspect} {get : Row → α}
    {cost : α → Nat} (hset : SetBy p aspect get cost) {registers row : Row}
    {instructions : List Instruction} (h : LeadsTo p registers instructions row) :
    (if get row = get registers then 0 else cost (get row)) ≤ spent aspect instructions := by
  induction h with
  | last hexecute =>
    rw [if_pos (hset.commits _ _ _ _ hexecute)]
    exact Nat.zero_le _
  | @cons registers row i instructions hi _ ih =>
    rw [spent_cons]
    -- Unless a later instruction sets the register again, this one has set it to what it is in the row.
    rcases hset.sets i registers hi with hsame | ⟨haspect, hcost⟩
    · rw [hsame] at ih
      omega
    · rw [if_pos haspect]
      by_cases hlast : get row = get (i.execute p registers).1
      · rw [hlast]
        split <;> omega
      · rw [if_neg hlast] at ih
        split <;> omega

section

variable (p : Params)

/-- A row is committed with the registers that it does not move. -/
theorem committed_eq {before next row : Row} {i : Instruction}
    (h : i.execute p before = (next, some row)) :
    row.file = before.file ∧ row.column = before.column ∧
      row.discriminator = before.discriminator ∧ row.isStatement = before.isStatement := by
  cases i with
  | special | copy =>
    cases h
    exact ⟨rfl, rfl, rfl, rfl⟩
  | extended instruction =>
    cases instruction <;> cases h
    exact ⟨rfl, rfl, rfl, rfl⟩
  | _ => cases h

/-- An instruction sets one register at most. -/
theorem execute_setters (before : Row) {i : Instruction} (hi : i ≠ .extended .endSequence) :
    ((i.execute p before).1.file = before.file ∨ (i.aspect = .file ∧
      (setFile (i.execute p before).1.file.toNat).encode.length ≤ i.encode.length)) ∧
    ((i.execute p before).1.column = before.column ∨ (i.aspect = .column ∧
      (setColumn (i.execute p before).1.column.toNat).encode.length ≤ i.encode.length)) ∧
    ((i.execute p before).1.discriminator = before.discriminator ∨ (i.aspect = .discriminator ∧
      (extended (.setDiscriminator (i.execute p before).1.discriminator.toNat)).encode.length ≤
        i.encode.length)) ∧
    ((i.execute p before).1.isStatement = before.isStatement ∨
      (i.aspect = .statement ∧ 1 ≤ i.encode.length)) := by
  cases i with
  | setFile n => exact ⟨.inr ⟨rfl, length_setFile_le n⟩, .inl rfl, .inl rfl, .inl rfl⟩
  | setColumn n => exact ⟨.inl rfl, .inr ⟨rfl, length_setColumn_le n⟩, .inl rfl, .inl rfl⟩
  | negateStatement => exact ⟨.inl rfl, .inl rfl, .inl rfl, .inr ⟨rfl, Nat.le_refl 1⟩⟩
  | extended instruction =>
    cases instruction with
    | setDiscriminator n =>
      exact ⟨.inl rfl, .inl rfl, .inr ⟨rfl, length_setDiscriminator_le n⟩, .inl rfl⟩
    | endSequence => exact absurd rfl hi
    | _ => exact ⟨.inl rfl, .inl rfl, .inl rfl, .inl rfl⟩
  | _ => exact ⟨.inl rfl, .inl rfl, .inl rfl, .inl rfl⟩

/-- The file is changed by setting it. -/
theorem setBy_file : SetBy p .file Row.file fun file => (setFile file.toNat).encode.length :=
  ⟨fun _ before hi => (execute_setters p before hi).1, fun _ _ _ _ h => (committed_eq p h).1⟩

/-- The column is changed by setting it. -/
theorem setBy_column :
    SetBy p .column Row.column fun column => (setColumn column.toNat).encode.length :=
  ⟨fun _ before hi => (execute_setters p before hi).2.1, fun _ _ _ _ h => (committed_eq p h).2.1⟩

/-- The discriminator is changed by setting it. -/
theorem setBy_discriminator : SetBy p .discriminator Row.discriminator fun discriminator =>
    (extended (.setDiscriminator discriminator.toNat)).encode.length :=
  ⟨fun _ before hi => (execute_setters p before hi).2.2.1,
    fun _ _ _ _ h => (committed_eq p h).2.2.1⟩

/-- The statement flag is changed by negating it. -/
theorem setBy_statement : SetBy p .statement Row.isStatement fun _ => 1 :=
  ⟨fun _ before hi => (execute_setters p before hi).2.2.2,
    fun _ _ _ _ h => (committed_eq p h).2.2.2⟩

end

end Instruction

end DwarfLines
