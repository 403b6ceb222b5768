import DwarfLines.Line.Assembly
import DwarfLines.Proofs.Line.Instruction

/-!
# Written programs commit the rows they were written for

The instructions that `Row.assemble` gives for a row take the registers from the row before to the
row and commit it. Whatever way the address and the line are advanced, the advances add up to the
differences, which is all that the registers, being words, can tell.

`Leads` says what some instructions do to the registers and which rows they commit, with any
instructions after them, so that what parts of a program do can be put together.
-/

namespace DwarfLines

namespace Row

@[simp]
theorem advance_zero (p : Params) (row : Row) : row.advance p 0 = row := by
  simp [advance]

/-- Two address advances add up, although each wraps. -/
theorem advance_advance (p : Params) (row : Row) (a b : Nat) :
    (row.advance p a).advance p b = row.advance p (a + b) := by
  simp [advance, Nat.add_mul, UInt32.ofNat_add, UInt32.add_assoc]

@[simp]
theorem advanceLine_zero (row : Row) : row.advanceLine 0 = row := by
  simp [advanceLine]

end Row

namespace Instruction

/-- Whether instructions, from the registers `before` on, commit `rows` and leave the registers
`after`. -/
def Leads (p : Params) (before : Row) (instructions : List Instruction) (rows : List Row)
    (after : Row) : Prop :=
  ∀ rest, run p before (instructions ++ rest) = rows ++ run p after rest

namespace Leads

variable {p : Params} {before between after : Row}

/-- No instructions do nothing. -/
theorem nil : Leads p before [] [] before := fun _ => rfl

/-- One instruction does what its execution says. -/
theorem single (instruction : Instruction) :
    Leads p before [instruction] (instruction.execute p before).2.toList
      (instruction.execute p before).1 := fun _ => rfl

/-- An instruction that commits no row only changes the registers. -/
theorem of_execute {instruction : Instruction} (h : instruction.execute p before = (after, none)) :
    Leads p before [instruction] [] after := by
  have hsingle : Leads p before [instruction] _ _ := single instruction
  simpa [h] using hsingle

/-- What two runs of instructions do is done one after the other. -/
theorem append {xs ys : List Instruction} {rows rows' : List Row}
    (hxs : Leads p before xs rows between) (hys : Leads p between ys rows' after) :
    Leads p before (xs ++ ys) (rows ++ rows') after := by
  intro rest
  rw [List.append_assoc, hxs, hys, List.append_assoc]

theorem cons {instruction : Instruction} {instructions : List Instruction} {rows : List Row}
    (hfirst : Leads p before [instruction] [] between)
    (hrest : Leads p between instructions rows after) :
    Leads p before (instruction :: instructions) rows after :=
  hfirst.append hrest

/-- An instruction may be left out where it would do nothing. -/
theorem ite {c : Prop} [Decidable c] {instructions : List Instruction}
    (hskip : c → after = before) (h : ¬ c → Leads p before instructions [] after) :
    Leads p before (if c then [] else instructions) [] after := by
  split
  · rename_i hc
    rw [hskip hc]
    exact nil
  · rename_i hc
    exact h hc

end Leads

end Instruction

/-! ## Advancing line and address -/

namespace Params

/-- The window holds as many line advances as the line range says, from the line base on. -/
theorem inWindow_iff {p : Params} {lines : Int} :
    p.inWindow lines = true ↔
      p.lineBase.toInt ≤ lines ∧ lines < p.lineBase.toInt + p.lineRange.toNat := by
  simp [inWindow]

/-- A special opcode that was chosen for two advances makes just these. -/
theorem special?_eq_some {p : Params} {lines : Int} {units : Nat} {opcode : UInt8}
    (h : p.special? lines units = some opcode) :
    p.opcodeBase ≤ opcode ∧ p.specialUnits opcode = units ∧ p.specialLines opcode = lines := by
  unfold special? at h
  split at h
  · rename_i hwindow
    obtain ⟨hlow, hhigh⟩ := inWindow_iff.mp hwindow
    dsimp only at h
    split at h
    · rename_i hfits
      generalize hoffset : (lines - p.lineBase.toInt).toNat = offset at h hfits
      -- the opcode is the offset in the window plus a multiple of the range: the quotient and the
      -- remainder of both
      have hoffset_lt : offset < p.lineRange.toNat := by omega
      have hopcode : opcode.toNat = offset + p.lineRange.toNat * units + p.opcodeBase.toNat := by
        rw [← Option.some.inj h, UInt8.toNat_ofNat']
        exact Nat.mod_eq_of_lt hfits
      refine ⟨UInt8.le_iff_toNat_le.mpr (by omega), ?_, ?_⟩
      · rw [specialUnits, hopcode, Nat.add_sub_cancel, Nat.add_mul_div_left _ _ (by omega),
          Nat.div_eq_of_lt hoffset_lt, Nat.zero_add]
      · rw [specialLines, hopcode, Nat.add_sub_cancel, Nat.add_mul_mod_self_left,
          Nat.mod_eq_of_lt hoffset_lt]
        omega
    · cases h
  · cases h

/-- An attempt that leaves nothing to be done has committed the row. -/
theorem attempt_of_done {p : Params} {retried : Bool} {lines : Int} {units : Nat}
    (h : (p.attempt retried lines units).pending = none) :
    ∃ commit, p.commit? lines (p.lead retried units).2 = some commit ∧
      (p.attempt retried lines units).instructions = (p.lead retried units).1 ++ commit := by
  unfold attempt at h ⊢
  cases hcommit : p.commit? lines (p.lead retried units).2 with
  | none => simp [hcommit] at h
  | some commit => exact ⟨commit, rfl, by simp [hcommit]⟩

/-- An attempt that leaves an advance to be made has only made the advance before it. -/
theorem attempt_of_pending {p : Params} {retried : Bool} {lines : Int} {units left : Nat}
    (h : (p.attempt retried lines units).pending = some left) :
    (p.lead retried units).2 = left ∧
      (p.attempt retried lines units).instructions = (p.lead retried units).1 := by
  unfold attempt at h ⊢
  cases hcommit : p.commit? lines (p.lead retried units).2 with
  | none => simpa [hcommit] using h
  | some commit => simp [hcommit] at h

/-- An attempt that leaves nothing is the last. -/
theorem attempts_of_done {p : Params} {retried : Bool} {lines : Int} {units : Nat}
    (h : (p.attempt retried lines units).pending = none) :
    p.attempts retried lines units = [p.attempt retried lines units] := by
  rw [attempts]
  split <;> rename_i hpending
  · rfl
  · rw [h] at hpending
    cases hpending

/-- An attempt that leaves an advance is followed by another, which is not a first one. -/
theorem attempts_of_pending {p : Params} {retried : Bool} {lines : Int} {units left : Nat}
    (h : (p.attempt retried lines units).pending = some left) :
    p.attempts retried lines units =
      p.attempt retried lines units :: p.attempts true lines left := by
  rw [attempts]
  split <;> rename_i hpending
  · rw [h] at hpending
    cases hpending
  · rw [h] at hpending
    cases hpending
    rfl

/-! ### The ways to commit a row -/

/-- What is written to commit a row at given advances of line and address, and when it is written. -/
inductive Reaches (p : Params) (lines : Int) (units : Nat) : List Instruction → Prop where
  | direct {commit : List Instruction} : units ≤ p.constAddUnits →
      p.commit? lines units = some commit → Reaches p lines units commit
  | all {commit : List Instruction} : units ≠ 0 →
      units ≤ p.constAddUnits ∨ 2 * p.constAddUnits < units →
      p.commit? lines 0 = some commit → Reaches p lines units (.advanceAddress units :: commit)
  | constant {commit : List Instruction} : p.constAddUnits < units → units ≤ 2 * p.constAddUnits →
      p.commit? lines (units - p.constAddUnits) = some commit →
      Reaches p lines units (.constAddAddress :: commit)
  | both {commit : List Instruction} : p.constAddUnits < units → units ≤ 2 * p.constAddUnits →
      p.commit? lines (units - p.constAddUnits) = none → p.commit? lines 0 = some commit →
      Reaches p lines units
        (.constAddAddress :: .advanceAddress (units - p.constAddUnits) :: commit)

variable {p : Params} {lines : Int} {units : Nat}

/-- A second attempt advances all the way. -/
theorem attempts_true (p : Params) (lines : Int) (hunits : units ≠ 0) :
    ∃ commit, p.commit? lines 0 = some commit ∧
      (p.attempts true lines units).flatMap Attempt.instructions =
        .advanceAddress units :: commit := by
  have hdone := p.attempt_retried lines units
  obtain ⟨commit, hcommit, hinstructions⟩ := attempt_of_done hdone
  have hlead : p.lead true units = ([.advanceAddress units], 0) := by
    rw [lead, if_pos (by simpa using hunits)]
  rw [hlead] at hcommit hinstructions
  refine ⟨commit, hcommit, ?_⟩
  rw [attempts_of_done hdone, List.flatMap_singleton, hinstructions]
  rfl

/-- If the row can be committed once the address is advanced as in a first attempt, that is all. -/
theorem attempts_of_commit {commit : List Instruction}
    (hcommit : p.commit? lines (p.lead false units).2 = some commit) :
    (p.attempts false lines units).flatMap Attempt.instructions =
      (p.lead false units).1 ++ commit := by
  have hdone : p.attempt false lines units = ⟨(p.lead false units).1 ++ commit, none⟩ := by
    simp only [attempt, hcommit]
  rw [attempts_of_done (by rw [hdone]), List.flatMap_singleton, hdone]

/-- Otherwise a second attempt makes what is left of the address advance. -/
theorem attempts_of_uncommitted (hnone : p.commit? lines (p.lead false units).2 = none) :
    (p.attempts false lines units).flatMap Attempt.instructions =
      (p.lead false units).1 ++
        (p.attempts true lines (p.lead false units).2).flatMap Attempt.instructions := by
  have hpending : p.attempt false lines units =
      ⟨(p.lead false units).1, some (p.lead false units).2⟩ := by
    simp only [attempt, hnone]
  rw [attempts_of_pending (by rw [hpending]), List.flatMap_cons, hpending]

/-- A row is committed in one of these ways. -/
theorem reaches_attempts (p : Params) (lines : Int) (units : Nat) :
    Reaches p lines units ((p.attempts false lines units).flatMap Attempt.instructions) := by
  -- the cases of the source: no constant, everything written out, one constant
  by_cases hfew : units ≤ p.constAddUnits
  · have hlead : p.lead false units = ([], units) := by
      rw [lead, Bool.false_and, if_neg Bool.false_ne_true, if_pos hfew]
    cases hcommit : p.commit? lines units with
    | some commit =>
      rw [attempts_of_commit (by rwa [hlead]), hlead]
      exact .direct hfew hcommit
    | none =>
      have hunits : units ≠ 0 := by
        rintro rfl
        exact p.commit?_zero lines hcommit
      obtain ⟨commit, hcommit', hinstructions⟩ := p.attempts_true lines hunits
      rw [attempts_of_uncommitted (by rwa [hlead]), hlead, hinstructions]
      exact .all hunits (.inl hfew) hcommit'
  · by_cases hmany : 2 * p.constAddUnits < units
    · have hlead : p.lead false units = ([.advanceAddress units], 0) := by
        rw [lead, Bool.false_and, if_neg Bool.false_ne_true, if_neg hfew, if_pos hmany]
      obtain ⟨commit, hcommit⟩ := Option.ne_none_iff_exists'.mp (p.commit?_zero lines)
      rw [attempts_of_commit (by rwa [hlead]), hlead]
      exact .all (by omega) (.inr hmany) hcommit
    · have hlead : p.lead false units = ([.constAddAddress], units - p.constAddUnits) := by
        rw [lead, Bool.false_and, if_neg Bool.false_ne_true, if_neg hfew, if_neg hmany]
      cases hcommit : p.commit? lines (units - p.constAddUnits) with
      | some commit =>
        rw [attempts_of_commit (by rwa [hlead]), hlead]
        exact .constant (by omega) (by omega) hcommit
      -- after one constant no special opcode was found: the second attempt writes out the rest
      | none =>
        have hleft : units - p.constAddUnits ≠ 0 := by omega
        obtain ⟨commit, hcommit', hinstructions⟩ := p.attempts_true lines hleft
        rw [attempts_of_uncommitted (by rwa [hlead]), hlead, hinstructions]
        exact .both (by omega) (by omega) hcommit hcommit'

end Params

namespace Instruction

open Params

variable {p : Params} {registers target : Row}

/-- Whether advancing the address by `units` and the line by `lines` takes the registers to
`target`. -/
def Distance (p : Params) (registers target : Row) (lines : Int) (units : Nat) : Prop :=
  (registers.advance p units).advanceLine lines = target

/-- Part of the address advance may be made first. -/
theorem Distance.advance {lines : Int} {units : Nat} (a : Nat)
    (h : Distance p registers target lines (a + units)) :
    Distance p (registers.advance p a) target lines units := by
  rw [Distance, Row.advance_advance]
  exact h

/-- The line advance may be made first. -/
theorem Distance.advanceLine {lines : Int} {units : Nat}
    (h : Distance p registers target lines units) :
    Distance p (registers.advanceLine lines) target 0 units := by
  rw [Distance, Row.advanceLine_zero]
  exact h

/-- The instructions that are chosen to commit a row at a distance do so. -/
theorem leads_commit {lines : Int} {units : Nat} (h : Distance p registers target lines units)
    {instructions : List Instruction} (hcommit : p.commit? lines units = some instructions) :
    Leads p registers instructions [target] target := by
  unfold commit? at hcommit
  split at hcommit
  -- the two advances are exactly those of the search, in the order of its branches
  · rename_i hzero
    cases hcommit
    obtain ⟨rfl, rfl⟩ := hzero
    have : registers = target := by simpa [Distance] using h
    rw [← this]
    exact .single copy
  · split at hcommit
    · rename_i opcode hopcode
      cases hcommit
      obtain ⟨-, hunits, hlines⟩ := special?_eq_some hopcode
      have hrow : (registers.advance p (p.specialUnits opcode)).advanceLine
          (p.specialLines opcode) = target := by
        rw [hunits, hlines]
        exact h
      rw [← hrow]
      exact .single (special opcode)
    · split at hcommit
      · rename_i hzero
        cases hcommit
        have hrow : registers.advanceLine lines = target := by simpa [Distance, hzero] using h
        rw [← hrow]
        exact (Leads.single (.advanceLine lines)).append (.single copy)
      · cases hcommit

/-- The address advance before an attempt and the one that is left make up the whole advance. -/
theorem leads_lead (registers : Row) (retried : Bool) (units : Nat) :
    ∃ a, a + (p.lead retried units).2 = units ∧
      Leads p registers (p.lead retried units).1 [] (registers.advance p a) := by
  unfold lead
  split
  · exact ⟨units, rfl, .single (.advanceAddress units)⟩
  · split
    · refine ⟨0, Nat.zero_add units, ?_⟩
      rw [Row.advance_zero]
      exact .nil
    · split
      · exact ⟨units, rfl, .single (.advanceAddress units)⟩
      · rename_i hmany _
        exact ⟨p.constAddUnits, by dsimp only; omega, .single constAddAddress⟩

/-- Whatever attempts it takes, the row is committed once. -/
theorem leads_attempts (retried : Bool) {lines : Int} {units : Nat}
    (h : Distance p registers target lines units) :
    Leads p registers ((p.attempts retried lines units).flatMap Attempt.instructions) [target]
      target := by
  fun_induction p.attempts retried lines units generalizing registers with
  | case1 retried units hdone =>
    obtain ⟨a, ha, hlead⟩ := leads_lead (p := p) registers retried units
    obtain ⟨commit, hcommit, hinstructions⟩ := attempt_of_done hdone
    rw [← ha] at h
    rw [List.flatMap_singleton, hinstructions]
    exact hlead.append (leads_commit (h.advance a) hcommit)
  | case2 retried units left hleft ih =>
    obtain ⟨a, ha, hlead⟩ := leads_lead (p := p) registers retried units
    obtain ⟨rfl, hinstructions⟩ := attempt_of_pending hleft
    rw [← ha] at h
    rw [List.flatMap_cons, hinstructions]
    exact hlead.append (ih (h.advance a))

/-- A row at a distance is committed, whether or not its line advance is in the window. -/
theorem leads_advanceAndCommit {lines : Int} {units : Nat}
    (h : Distance p registers target lines units) :
    Leads p registers (p.advanceAndCommit lines units) [target] target := by
  unfold advanceAndCommit
  split
  · exact leads_attempts false h
  · exact (Leads.single (.advanceLine lines)).cons (leads_attempts false h.advanceLine)

/-! ## Rows -/

/-- The statement flag is changed if it differs. -/
theorem leads_setStatement (isStatement : Bool) :
    Leads p registers (if isStatement = registers.isStatement then [] else [negateStatement]) []
      { registers with isStatement } := by
  refine .ite (fun h => by rw [h]) fun h => ?_
  rw [Bool.eq_not.mpr h]
  exact .single negateStatement

/-- The discriminator is set if it differs. -/
theorem leads_setDiscriminator (discriminator : UInt32) :
    Leads p registers (if discriminator = registers.discriminator then []
      else [extended (.setDiscriminator discriminator.toNat)]) []
      { registers with discriminator } :=
  .ite (fun h => by rw [h]) fun _ => .of_execute (by simp [execute])

/-- The file is set if it differs. -/
theorem leads_setFile (file : UInt32) :
    Leads p registers (if file = registers.file then [] else [setFile file.toNat]) []
      { registers with file } :=
  .ite (fun h => by rw [h]) fun _ => .of_execute (by simp [execute])

/-- The column is set if it differs. -/
theorem leads_setColumn (column : UInt32) :
    Leads p registers (if column = registers.column then [] else [setColumn column.toNat]) []
      { registers with column } :=
  .ite (fun h => by rw [h]) fun _ => .of_execute (by simp [execute])

/-- Setting registers leaves address and line, and makes the others those of the row. -/
theorem leads_setRegisters (last row : Row) :
    Leads p last (last.setRegisters row) []
      { row with
        address := last.address, line := last.line, endSequence := last.endSequence } :=
  (((leads_setStatement row.isStatement).append (leads_setDiscriminator row.discriminator)).append
    (leads_setFile row.file)).append (leads_setColumn row.column)

/-- A line advance takes the line, a word that wraps, to the line of the row. -/
theorem add_ofInt_linesTo (last row : Row) :
    last.line + Int32.ofInt (last.linesTo row) = row.line := by
  rw [Row.linesTo, Int32.ofInt_sub, Int32.ofInt_toInt, Int32.ofInt_toInt, Int32.add_comm,
    Int32.sub_add_cancel]

/-- Where the advance is a whole number of instruction lengths, making it gives the row's address. -/
theorem address_of_unitsTo? {last row : Row} {units : Nat}
    (h : Row.unitsTo? p last row = some units) :
    last.address + UInt32.ofNat (units * p.minimumInstructionLength.toNat) = row.address := by
  unfold Row.unitsTo? at h
  dsimp only at h
  split at h
  · cases h
  · rename_i hok
    -- the division is exact, so multiplying back gives the distance, which fits 32 bits
    obtain ⟨hforward, hwhole⟩ := not_or.mp hok
    have hle : last.address.toNat ≤ row.address.toNat :=
      UInt32.le_iff_toNat_le.mp (UInt32.not_lt.mp hforward)
    have hmul : units * p.minimumInstructionLength.toNat =
        row.address.toNat - last.address.toNat := by
      rw [← Option.some.inj h]
      exact Nat.div_mul_cancel (Nat.dvd_of_mod_eq_zero (not_not.mp hwhole))
    rw [hmul]
    apply UInt32.toNat_inj.mp
    rw [UInt32.toNat_add, UInt32.toNat_ofNat']
    have := row.address.toNat_lt
    omega

/-- After the address is set where it cannot be advanced, the advances that are left lead to the
row. -/
theorem leads_setAddress (last row : Row) (hlast : last.endSequence = false) :
    ∃ registers, Leads p
        { row with
          address := last.address, line := last.line, endSequence := last.endSequence }
        (if (Row.unitsTo? p last row).isSome then [] else [extended (.setAddress row.address)]) []
        registers ∧
      Distance p registers { row with endSequence := false } (last.linesTo row)
        ((Row.unitsTo? p last row).getD 0) := by
  rw [hlast]
  cases h : Row.unitsTo? p last row with
  | none =>
    refine ⟨_, .single (.extended (.setAddress row.address)), ?_⟩
    simp [Distance, Row.advanceLine, Row.advance, execute, add_ofInt_linesTo]
  | some units =>
    refine ⟨_, .nil, ?_⟩
    simp only [Distance, Row.advanceLine, Row.advance, Option.getD_some, add_ofInt_linesTo,
      address_of_unitsTo? h]

/-- The instructions of a row commit the row and nothing else. -/
theorem leads_assemble (last row : Row) (hlast : last.endSequence = false) :
    Leads p last (last.assemble p row) [row] (row.registersAfter p) := by
  obtain ⟨registers, haddress, hdistance⟩ := leads_setAddress (p := p) last row hlast
  refine ((leads_setRegisters last row).append haddress).append ?_
  -- The row that ends a sequence is committed by doing so, and not by a copy.
  by_cases hend : row.endSequence = true
  · rw [if_pos hend, Row.registersAfter, if_pos hend]
    generalize (Row.unitsTo? p last row).getD 0 = units at hdistance ⊢
    generalize last.linesTo row = lines at hdistance ⊢
    have hlines : Leads p registers (if lines = 0 then [] else [.advanceLine lines]) []
        (registers.advanceLine lines) := by
      refine .ite (fun h => ?_) fun _ => .single (.advanceLine lines)
      rw [h, Row.advanceLine_zero]
    have hunits : Leads p (registers.advanceLine lines)
        (if units = 0 then [] else [.advanceAddress units]) []
        { row with endSequence := false } := by
      rw [← hdistance]
      refine .ite (fun h => ?_) fun _ => .single (.advanceAddress units)
      rw [h, Row.advance_zero]
    have hstop : Leads p { row with endSequence := false } [.extended .endSequence]
        [{ row with endSequence := true }] (.initial p.defaultIsStatement) :=
      .single (.extended .endSequence)
    have hrow : { row with endSequence := true } = row := by rw [← hend]
    rw [hrow] at hstop
    exact (hlines.append hunits).append hstop
  · have hrow : { row with endSequence := false } = row := by
      rw [← Bool.eq_false_iff.mpr hend]
    rw [if_neg hend, Row.registersAfter, if_neg hend]
    rw [hrow] at hdistance
    exact leads_advanceAndCommit hdistance

/-- After any row the registers go on with a sequence that is open. -/
theorem endSequence_registersAfter (row : Row) :
    (row.registersAfter p).endSequence = false := by
  unfold Row.registersAfter
  split
  · rfl
  · rename_i h
    exact Bool.eq_false_iff.mpr h

/-- Running the program that was written for some rows commits these rows. -/
theorem run_assembleAll (last : Row) (rows : List Row) (hlast : last.endSequence = false) :
    run p last (Row.assembleAll p last rows) = rows := by
  induction rows generalizing last with
  | nil => rfl
  | cons row rows ih =>
    rw [Row.assembleAll, leads_assemble last row hlast, ih _ (endSequence_registersAfter row)]
    rfl

/-! ## Operands -/

/-- An address advance fits a word of 32 bits. -/
theorem unitsTo?_getD_lt (last row : Row) : (Row.unitsTo? p last row).getD 0 < 2 ^ 32 := by
  unfold Row.unitsTo?
  dsimp only
  split
  · decide
  · have := row.address.toNat_lt
    have := Nat.div_le_self (row.address.toNat - last.address.toNat)
      p.minimumInstructionLength.toNat
    simp only [Option.getD_some]
    omega

/-- The advance between two lines leaves room in a word of 64 bits for adding to it. -/
theorem linesTo_bounds (last row : Row) :
    -2 ^ 62 ≤ last.linesTo row ∧ last.linesTo row < 2 ^ 62 := by
  have := row.line.toInt_lt
  have := row.line.le_toInt
  have := last.line.toInt_lt
  have := last.line.le_toInt
  unfold Row.linesTo
  omega

variable {set : InstructionSet}

/-- What commits a row can be written if the line advance can. -/
theorem fits_commit {lines : Int} (hlines : -2 ^ 63 ≤ lines ∧ lines < 2 ^ 63) {units : Nat}
    (hbase : set.opcodeBase = p.opcodeBase) {instructions : List Instruction}
    (hcommit : p.commit? lines units = some instructions) : ∀ i ∈ instructions, i.Fits set := by
  unfold commit? at hcommit
  split at hcommit
  · cases hcommit
    simp [Fits]
  · split at hcommit
    · rename_i opcode hopcode
      cases hcommit
      simpa [Fits, hbase] using (special?_eq_some hopcode).1
    · split at hcommit
      · cases hcommit
        simpa [Fits] using hlines
      · cases hcommit

/-- What is written before an attempt can be written if the address advance can, and leaves no more.
-/
theorem fits_lead (p : Params) (set : InstructionSet) (retried : Bool) {units : Nat}
    (hunits : units < 2 ^ 64) :
    (p.lead retried units).2 < 2 ^ 64 ∧ ∀ i ∈ (p.lead retried units).1, i.Fits set := by
  unfold lead
  split
  · simpa [Fits] using hunits
  · split
    · simpa using hunits
    · split
      · simpa [Fits] using hunits
      · refine ⟨?_, by simp [Fits]⟩
        dsimp only
        omega

/-- All attempts can be written if the advances can. -/
theorem fits_attempts (retried : Bool) {lines : Int} (hlines : -2 ^ 63 ≤ lines ∧ lines < 2 ^ 63)
    {units : Nat} (hunits : units < 2 ^ 64) (hbase : set.opcodeBase = p.opcodeBase) :
    ∀ i ∈ (p.attempts retried lines units).flatMap Attempt.instructions, i.Fits set := by
  fun_induction p.attempts retried lines units with
  | case1 retried units hdone =>
    obtain ⟨-, hlead⟩ := fits_lead p set retried hunits
    obtain ⟨commit, hcommit, hinstructions⟩ := attempt_of_done hdone
    rw [List.flatMap_singleton, hinstructions, List.forall_mem_append]
    exact ⟨hlead, fits_commit hlines hbase hcommit⟩
  | case2 retried units left hleft ih =>
    obtain ⟨hleft_lt, hlead⟩ := fits_lead p set retried hunits
    obtain ⟨rfl, hinstructions⟩ := attempt_of_pending hleft
    rw [List.flatMap_cons, hinstructions, List.forall_mem_append]
    exact ⟨hlead, ih hleft_lt⟩

/-- Line and address can be advanced in writing by what fits 64 bits. -/
theorem fits_advanceAndCommit {lines : Int} (hlines : -2 ^ 63 ≤ lines ∧ lines < 2 ^ 63)
    {units : Nat} (hunits : units < 2 ^ 64) (hbase : set.opcodeBase = p.opcodeBase) :
    ∀ i ∈ p.advanceAndCommit lines units, i.Fits set := by
  unfold advanceAndCommit
  split
  · exact fits_attempts false hlines hunits hbase
  · rw [List.forall_mem_cons]
    exact ⟨hlines, fits_attempts false (by decide) hunits hbase⟩

theorem fits_ite {c : Prop} [Decidable c] {instruction : Instruction} (h : instruction.Fits set) :
    ∀ i ∈ (if c then [] else [instruction]), i.Fits set := by
  split
  · exact List.forall_mem_nil _
  · exact List.forall_mem_singleton.mpr h

/-- Registers of 32 bits can be set in writing. -/
theorem fits_setRegisters (last row : Row) : ∀ i ∈ last.setRegisters row, i.Fits set := by
  have hword (w : UInt32) : w.toNat < 2 ^ 64 := Nat.lt_trans w.toNat_lt (by decide)
  simp only [Row.setRegisters, List.forall_mem_append]
  exact ⟨⟨⟨fits_ite trivial, fits_ite (hword _)⟩, fits_ite (hword _)⟩, fits_ite (hword _)⟩

/-- The instructions of a row have operands that fit. -/
theorem fits_assemble (last row : Row) (hbase : set.opcodeBase = p.opcodeBase) :
    ∀ i ∈ last.assemble p row, i.Fits set := by
  have hlines : -2 ^ 63 ≤ last.linesTo row ∧ last.linesTo row < 2 ^ 63 := by
    have := linesTo_bounds last row
    omega
  have hunits : (Row.unitsTo? p last row).getD 0 < 2 ^ 64 :=
    Nat.lt_trans (unitsTo?_getD_lt last row) (by decide)
  simp only [Row.assemble, List.forall_mem_append]
  refine ⟨⟨fits_setRegisters last row, fits_ite trivial⟩, ?_⟩
  split
  · simp only [List.forall_mem_append]
    exact ⟨⟨fits_ite hlines, fits_ite hunits⟩, by simp [Fits]⟩
  · exact fits_advanceAndCommit hlines hunits hbase

/-- Whatever the rows, their instructions can be written and read again. -/
theorem fits_assembleAll (last : Row) (rows : List Row) (hbase : set.opcodeBase = p.opcodeBase) :
    ∀ i ∈ Row.assembleAll p last rows, i.Fits set := by
  induction rows generalizing last with
  | nil => simp [Row.assembleAll]
  | cons row rows ih =>
    rw [Row.assembleAll, List.forall_mem_append]
    exact ⟨fits_assemble last row hbase, ih _⟩

end Instruction

end DwarfLines
