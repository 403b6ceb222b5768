import DwarfLines.Proofs.Line.Encodability
import DwarfLines.Proofs.Line.RowLength

/-!
# How much a unit can grow

A unit that is written without its redundant rows is not always shorter than it was. The writer does
not have all means that a program may use: it sets an address that the program advances by bytes or
past the largest address, goes back from a line that wraps, and makes statements of the rows. And where
the advances of a stretch add up to more than one special opcode makes, it writes operands for what the
program gets for nothing. A unit grows by no more than these causes account for, unless the writer
slips.
-/

namespace DwarfLines

open Instruction Outcome

/-! ## The whole unit -/

/-- A definition takes more bytes than what it stores. -/
theorem Instruction.length_definition_lt {i : Instruction} {definition : Bytes × FileEntry}
    (h : i.definition? = some definition) :
    i.aspect = .none ∧ definition.1.length < i.encode.length := by
  unfold definition? at h
  split at h
  · cases h
    exact ⟨rfl, by simp [encode, Extended.encode, Extended.body]; omega⟩
  · cases h

/-- What a program spends on definitions of files is enough to store them. -/
theorem Instruction.length_definitions_le (instructions : List Instruction) :
    ((instructions.filterMap definition?).flatMap (·.1)).length +
        (instructions.filterMap definition?).length ≤ spent .none instructions := by
  induction instructions with
  | nil => exact Nat.le_refl 0
  | cons i instructions ih =>
    cases hdefinition : i.definition? with
    | none =>
      rw [List.filterMap_cons_none hdefinition, spent_cons]
      omega
    | some definition =>
      obtain ⟨haspect, hlt⟩ := length_definition_lt hdefinition
      rw [List.filterMap_cons_some hdefinition, List.flatMap_cons, List.length_append,
        List.length_cons, spent_cons, if_pos haspect]
      omega

theorem length_extendTables_le (tables : Bytes) (definitions : List (Bytes × FileEntry)) :
    (extendTables tables (definitions.flatMap (·.1))).length ≤
      tables.length + ((definitions.flatMap (·.1)).length + definitions.length) := by
  unfold extendTables
  split
  · omega
  · rename_i hadded
    have hpos : 0 < definitions.length := by
      apply List.length_pos_of_ne_nil
      rintro rfl
      exact hadded rfl
    simp only [List.length_append, List.length_dropLast, List.length_singleton]
    omega

namespace Program

/-- What the instructions of a program may take less than the writer needs in their place. -/
def hazards (program : Program) (instructions : List Instruction) : Nat :=
  along program.header.params (hazard program.header.params)
    (.initial program.header.params.defaultIsStatement) instructions

/-- A decoded unit has room for its header, its tables and its instructions, but for what the tables
have from the instructions. -/
theorem exists_instructions_of_decode {unit : Bytes} {program : Program}
    (h : decode unit = .ok program) :
    ∃ instructions, program.header.instructions? unit = some (instructions, true) ∧
      program.rows = run program.header.params (.initial program.header.params.defaultIsStatement)
        instructions ∧
      15 + program.tables.length + (instructions.map fun i => i.encode.length).sum ≤
        unit.length + spent .none instructions := by
  obtain ⟨header, stored, instructions, hheader, hstored, hscan, rfl⟩ := decode_eq_ok_iff.mp h
  refine ⟨instructions, by simp [UnitHeader.instructions?, hstored, hscan], rfl, ?_⟩
  -- the instructions were read from these bytes, so they are no longer
  have hslice : stored.length = header.program.length := by
    unfold Span.slice? at hstored
    split at hstored
    · cases hstored
      exact Span.length_slice ‹_›
    · cases hstored
  have htables : (header.tables.slice unit).length ≤ header.tables.length := List.length_take_le _ _
  have hspans := UnitHeader.length_spans_le hheader
  have hread := length_flatMap_encode_le_of_scan hscan
  have hdefinitions := length_definitions_le instructions
  have hextended := length_extendTables_le (header.tables.slice unit)
    (instructions.filterMap definition?)
  rw [List.length_flatMap] at hread
  dsimp only
  omega

/-- A unit without files. -/
def plainUnit (p : Params) (program : Bytes) : Bytes :=
  bytesOfWord32 (UInt32.ofNat (22 + program.length)) ++ bytesOfWord16 2 ++ bytesOfWord32 16 ++
    p.bytes ++ [0, 1, 1, 1, 1, 0, 0, 0, 1] ++ [0, 0] ++ program

def plainParams : Params :=
  { minimumInstructionLength := 1, defaultIsStatement := true, lineBase := -5, lineRange := 14,
    opcodeBase := 10 }

/-- Parameters with special opcodes for one line advance only. -/
def oneLineParams (lineBase : Int8) : Params := { plainParams with lineBase, lineRange := 1 }

/-- A unit that advances the address by half of an instruction length. -/
def fixedAdvanceUnit : Bytes :=
  plainUnit { plainParams with minimumInstructionLength := 2 } [9, 1, 0, 1, 0, 1, 1]

/-- Whether a unit gets so much longer when it is written without its redundant rows, although the writer
does not slip. -/
def GrowsBy (n : Nat) (unit : Bytes) : Prop :=
  ∃ program bytes, decode unit = .ok program ∧ unit.length = 4 + program.header.unitLength.toNat ∧
    program.encode (reduce program.rows) = .ok bytes ∧ bytes.length = unit.length + n ∧
    ∀ step ∈ Row.steps program.header.params (.initial program.header.params.defaultIsStatement)
      (reduce program.rows), ¬ step.1.Slips program.header.params step.2

theorem growsBy_of_any {n : Nat} {unit : Bytes}
    (h : (decode unit).toOption.any (fun program : Program =>
      decide (unit.length = 4 + program.header.unitLength.toNat ∧
        ∀ step ∈ Row.steps program.header.params (.initial program.header.params.defaultIsStatement)
          (reduce program.rows), ¬ step.1.Slips program.header.params step.2) &&
      (program.encode (reduce program.rows)).toOption.any
        fun bytes => bytes.length = unit.length + n) = true) : GrowsBy n unit := by
  obtain ⟨program, hdecode, hprogram⟩ := exists_of_any_toOption h
  rw [Bool.and_eq_true, decide_eq_true_eq] at hprogram
  obtain ⟨bytes, hencode, hbytes⟩ := exists_of_any_toOption hprogram.2
  exact ⟨program, bytes, hdecode, hprogram.1.1, hencode, of_decide_eq_true hbytes, hprogram.1.2⟩

/-- A unit that gets to an address between two instruction lengths, and then commits two rows at one
address. -/
def costlyUnit : Bytes :=
  plainUnit { oneLineParams (-128) with minimumInstructionLength := 2 } [9, 1, 0, 10, 210, 10, 0, 1, 1]

/-- The stretches that lead to the three rows of the unit that are left. -/
def costlyStretches : List Stretch :=
  [{ instructions := [.fixedAdvanceAddress 1, .special 10]
     row := { Row.initial true with address := 1, line := -127 } },
   { instructions := [.special 210, .special 10]
     row := { Row.initial true with address := 401, line := -383 } },
   { instructions := [.extended .endSequence]
     row := { Row.initial true with address := 401, line := -383, endSequence := true } }]

theorem stretches_costlyStretches :
    Stretches { oneLineParams (-128) with minimumInstructionLength := 2 } (.initial true)
      costlyStretches (costlyStretches.flatMap (·.instructions)) := by
  refine .cons (.cons (by decide) (.last rfl)) ?_
  refine .cons (.cons (by decide) (.last rfl)) ?_
  exact .cons (.last rfl) (.rest _ _)

end Program

end DwarfLines
