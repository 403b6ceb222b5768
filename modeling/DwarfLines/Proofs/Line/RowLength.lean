import DwarfLines.Proofs.Line.Stretches

/-!
# What a row takes against its stretch

Each stretch of a program pays for what is written for its row, one aspect at a time, and a row that is
dropped leaves the byte that committed it. What is not paid for is due to a hazard on the way, to an
advance that was implied and needs an operand now, or to a row that was no statement. Between two rows
only one thing is left open: whether the statement flag, which is set in the new program and not in the
old one, has still to be changed back.
-/

namespace DwarfLines

open Instruction

namespace Instruction

/-- How many bytes an instruction that is read may take less than the writer needs in its place. -/
def hazard (p : Params) (registers : Row) (i : Instruction) : Nat :=
  i.addressHazard p registers + i.lineHazard p registers

/-- The hazards of a run are those of its addresses and those of its lines. -/
theorem along_hazard (p : Params) (registers : Row) (instructions : List Instruction) :
    along p (hazard p) registers instructions =
      along p (addressHazard p) registers instructions +
        along p (lineHazard p) registers instructions := by
  induction instructions generalizing registers with
  | nil => rfl
  | cons i instructions ih =>
    simp only [along, ih, hazard]
    omega

/-- After the instructions that lead to a row, a sum goes on from the registers after the row. -/
theorem LeadsTo.along_append {p : Params} {registers row : Row} {front : List Instruction}
    (h : LeadsTo p registers front row) (hopen : registers.endSequence = false)
    (measure : Row → Instruction → Nat) (back : List Instruction) :
    along p measure registers (front ++ back) =
      along p measure registers front + along p measure (row.registersAfter p) back := by
  induction h with
  | last hexecute =>
    obtain ⟨rfl, -⟩ := execute_eq_some hexecute hopen
    rw [List.singleton_append, along, hexecute, along, along, Nat.add_zero]
  | @cons registers row i instructions _ _ ih =>
    rw [List.cons_append, along, ih (endSequence_execute i hopen), along, Nat.add_assoc]

end Instruction

namespace Row

/-! ## The registers of both programs -/

/-- How the registers of the writer, which makes statements of the rows, follow those of the program
that is read. The flag is the same at the start of a sequence, and set after its first row. -/
structure Tracks (p : Params) (first : Bool) (registers last : Row) : Prop where
  others : last = { registers with isStatement := last.isStatement }
  always : p.defaultIsStatement = true → last.isStatement = true
  start : first = true → last.isStatement = registers.isStatement
  later : first = false → last.isStatement = true
  isOpen : registers.endSequence = false

/-- Whether the flag is set in the new program only, so that the old one has paid for a change of it that
the new one may have to make yet. -/
def statementDebt (registers last : Row) : Nat :=
  if last.isStatement && !registers.isStatement then 1 else 0

/-- At the start of a program the two machines hold the same registers. -/
theorem tracks_initial (p : Params) :
    Tracks p true (.initial p.defaultIsStatement) (.initial p.defaultIsStatement) :=
  ⟨rfl, id, fun _ => rfl, nofun, rfl⟩

/-- After a row and its kept form the two machines hold the same registers but for the statement
flag. -/
theorem tracks_registersAfter (p : Params) (row : Row) :
    Tracks p row.endSequence (row.registersAfter p) (row.asStatement.registersAfter p) := by
  cases hrow : row.endSequence with
  | true => simpa [asStatement, registersAfter, hrow] using tracks_initial p
  | false =>
    have hafter : row.registersAfter p = row := by
      rw [registersAfter, hrow, if_neg Bool.false_ne_true]
    have hafter' : row.asStatement.registersAfter p = { row with isStatement := true } := by
      simp [registersAfter, asStatement, hrow]
    rw [hafter, hafter']
    exact ⟨rfl, fun _ => rfl, fun h => absurd h Bool.false_ne_true, fun _ => rfl, hrow⟩

/-- The kept form of a row is a statement unless it ends a sequence. -/
theorem isStatement_asStatement (row : Row) :
    row.asStatement.isStatement = (row.isStatement || !row.endSequence) := by
  cases hrow : row.endSequence <;> simp [asStatement, hrow]

/-- At the start of a program no negation of the statement flag is owed. -/
theorem statementDebt_initial (p : Params) :
    statementDebt (.initial p.defaultIsStatement) (.initial p.defaultIsStatement) = 0 := by
  simp [statementDebt]

/-- The debt is settled at the end of a sequence. -/
theorem statementDebt_registersAfter (p : Params) (row : Row) :
    statementDebt (row.registersAfter p) (row.asStatement.registersAfter p) =
      if !row.endSequence && !row.isStatement then 1 else 0 := by
  cases hrow : row.endSequence with
  | true => simp [registersAfter, hrow, statementDebt_initial]
  | false => simp [registersAfter, asStatement, hrow, statementDebt]

/-- What is written to set the flag for a row and what it leaves to be paid, against what is read to set
it and what was left. -/
theorem statement_account {default first before last : Bool} (halways : default = true → last = true)
    (hstart : first = true → last = before) (hlater : first = false → last = true)
    (now ends : Bool) :
    (if (now || !ends) = last then 0 else 1) + (if !ends && !now then 1 else 0) ≤
      (if now = before then 0 else 1) + (if last && !before then 1 else 0) +
        if !default && first && !ends && !now then 2 else 0 := by
  revert default first before last now ends
  decide

variable {p : Params} {registers last row : Row} {first : Bool} {stretch : Stretch}

namespace Tracks

variable (h : Tracks p first registers last)
include h

/-- The machine of the kept rows holds the address of the input's. -/
theorem address : last.address = registers.address := by rw [h.others]

/-- The machine of the kept rows holds the line of the input's. -/
theorem line : last.line = registers.line := by rw [h.others]

/-- The machine of the kept rows holds the file of the input's. -/
theorem file : last.file = registers.file := by rw [h.others]

/-- The machine of the kept rows holds the column of the input's. -/
theorem column : last.column = registers.column := by rw [h.others]

/-- The machine of the kept rows holds the discriminator of the input's. -/
theorem discriminator : last.discriminator = registers.discriminator := by rw [h.others]

end Tracks

/-! ## One row -/

/-- An address that is reached in instruction lengths is advanced to. -/
theorem unitsTo?_of_address (hlength : p.minimumInstructionLength ≠ 0) {n : Nat}
    (h : row.address.toNat = last.address.toNat + n * p.minimumInstructionLength.toNat) :
    unitsTo? p last row = some n := by
  have hpos : 0 < p.minimumInstructionLength.toNat :=
    Nat.pos_of_ne_zero fun hzero => hlength (UInt8.toNat_inj.mp hzero)
  have hforward : ¬ row.address < last.address := by
    rw [UInt32.lt_iff_toNat_lt]
    omega
  rw [unitsTo?, h, Nat.add_sub_cancel_left, Nat.mul_mod_left, Nat.mul_div_cancel _ hpos]
  simp [hforward]

/-- A line advance between two rows takes at most five bytes. -/
theorem length_encodeSigned_linesTo_le (last row : Row) :
    (Leb128.encodeSigned (last.linesTo row)).length ≤ 5 := by
  have hrow := row.line.toInt_lt
  have hrow' := row.line.le_toInt
  have hlast := last.line.toInt_lt
  have hlast' := last.line.le_toInt
  unfold linesTo
  exact Leb128.length_encodeSigned_le (k := 4) (by omega) (by omega)

section

variable (hrange : p.lineRange ≠ 0) (hslips : ¬ last.Slips p stretch.row.asStatement)
include hrange hslips

/-- A row spends at most six bytes on its line: one `advance_line`. -/
theorem spent_line_assemble_le_six :
    spent .line (last.assemble p stretch.row.asStatement) ≤ 6 := by
  have hlength := length_encodeSigned_linesTo_le last stretch.row.asStatement
  rcases spent_line_assemble hrange hslips with hzero | ⟨-, hspent⟩ <;> omega

/-- The line of a row takes no more bytes than the stretch spends on it, but for the half of the rows
that may be dropped, and for an implied advance. -/
theorem spent_line_assemble_le
    (hlines : last.linesTo stretch.row.asStatement = stretch.lines p) :
    spent .line (last.assemble p stretch.row.asStatement) ≤
      spent .line stretch.instructions + (commits stretch.instructions - 1) / 2 +
        if stretch.LosesLine p then 3 else 0 := by
  rcases spent_line_assemble hrange hslips with hzero | ⟨hneeds, hspent⟩
  · omega
  · rw [hlines, endSequence_asStatement] at hneeds
    rw [hspent, hlines]
    by_cases himplied : ∃ i ∈ stretch.instructions, i.impliedLines p ≠ 0
    · have hle := length_encodeSigned_lines_le (p := p) stretch.instructions
      rw [if_pos ⟨himplied, hneeds⟩, Stretch.lines]
      split at hle <;> omega
    · push Not at himplied
      have hlt := (length_encodeSigned_lines_lt himplied).resolve_left hneeds.1
      rw [Stretch.lines]
      omega

variable (hbase : 9 ≤ p.opcodeBase)
  (hunits : unitsTo? p last stretch.row.asStatement = some (stretch.units p))
include hbase hunits

/-- The address of a row takes no more bytes than the stretch spends on it, but for the half of the rows
that may be dropped, and for an implied advance: if the stretch spends any, or drops a row. -/
theorem spent_address_assemble_le
    (hlines : last.linesTo stretch.row.asStatement = stretch.lines p)
    (hspends : 1 ≤ spent .address stretch.instructions ∨ 2 ≤ commits stretch.instructions) :
    spent .address (last.assemble p stretch.row.asStatement) ≤
      spent .address stretch.instructions + commits stretch.instructions / 2 +
        if stretch.LosesAddress p then 2 else 0 := by
  obtain ⟨hle, hspecial⟩ := spent_address_assemble hrange hslips hunits
  rw [hlines, endSequence_asStatement] at hspecial
  by_cases hneeds : p.NeedsAddress stretch.row.endSequence (stretch.lines p) (stretch.units p)
  -- bytes are lost only where an opcode that moved the address for free is replaced by an operand
  · by_cases himplied : ∃ i ∈ stretch.instructions, i.impliedUnits p ≠ 0
    · have hlength := length_encodeUnsigned_units_le hbase hspends
      rw [if_pos ⟨himplied, hneeds⟩]
      rw [Stretch.units] at hle
      split at hle <;> omega
    · push Not at himplied
      have hlt := length_encodeUnsigned_units_lt himplied
      rw [Stretch.units] at hle
      split at hle <;> omega
  · have heq := hspecial hneeds
    split at heq <;> omega

/-- Whatever the line, the address takes at most three bytes more than that. -/
theorem spent_address_assemble_le_add_three :
    spent .address (last.assemble p stretch.row.asStatement) ≤
      spent .address stretch.instructions + commits stretch.instructions / 2 + 3 := by
  have hle := (spent_address_assemble hrange hslips hunits).1
  by_cases hspends : 1 ≤ spent .address stretch.instructions ∨ 2 ≤ commits stretch.instructions
  · have hlength := length_encodeUnsigned_units_le hbase hspends
    rw [Stretch.units] at hle
    split at hle <;> omega
  · have hmany := sum_units_le_of_spent_eq_zero (p := p)
      (show spent .address stretch.instructions = 0 by omega)
    have hlimit := constAddUnits_le hbase
    have hone := Nat.mul_le_mul hlimit (show commits stretch.instructions ≤ 1 by omega)
    have hlength : (Leb128.encodeUnsigned (stretch.units p)).length ≤ 2 :=
      Leb128.length_encodeUnsigned_le (show stretch.units p < 128 ^ 2 by unfold Stretch.units; omega)
    split at hle <;> omega

/-- Where the one special opcode that is there makes the whole address advance, what the line and the
address take is paid for by what the stretch spends on the line. -/
theorem spent_line_add_address_of_special
    (hlines : last.linesTo stretch.row.asStatement = stretch.lines p)
    (hleads : LeadsTo p registers stretch.instructions stretch.row)
    (hopen : registers.endSequence = false) (hspent : spent .address stretch.instructions = 0)
    (hcommits : commits stretch.instructions = 1) :
    spent .line (last.assemble p stretch.row.asStatement) +
        spent .address (last.assemble p stretch.row.asStatement) ≤
      spent .line stretch.instructions + stretch.advanceCharge p := by
  have hline := spent_line_assemble_le hrange hslips hlines
  obtain ⟨hle, hspecial⟩ := spent_address_assemble hrange hslips hunits
  rw [hlines, endSequence_asStatement] at hspecial
  rw [hcommits] at hline
  unfold Stretch.advanceCharge
  -- without a move of the address only the line is to be paid
  by_cases hzero : stretch.units p = 0
  · rw [if_pos hzero] at hle
    omega
  obtain ⟨opcode, hmem, hopcode⟩ := exists_special_of_spent_eq_zero hspent hzero
  obtain ⟨hall, hallLines⟩ := sums_of_special (p := p) hmem hcommits
  -- the special opcode that stands in the input covers the address advance on its own
  have hmakes : p.HasSpecial (p.specialLines opcode) (stretch.units p) := by
    refine ⟨opcode, ?_, rfl, (hall hspent).symm⟩
    rw [UInt8.le_iff_toNat_le]
    by_contra hlow
    apply hopcode
    rw [Params.specialUnits, Nat.sub_eq_zero_of_le (by omega), Nat.zero_div]
  have hfew := hmakes.le_constAddUnits
  -- if the kept row needs an operand for the address, the lines differ from those of that opcode
  by_cases hneeds : p.NeedsAddress stretch.row.endSequence (stretch.lines p) (stretch.units p)
  · have hloses : stretch.LosesAddress p := ⟨⟨_, hmem, hopcode⟩, hneeds⟩
    have hopenRow := hleads.endSequence_eq_false hopen hmem hcommits
    rw [hopenRow] at hneeds
    obtain ⟨hother, hmoves⟩ := hmakes.not_both hrange hzero hneeds
    have hpaid : spent .line stretch.instructions ≠ 0 := fun h => hother (hallLines h)
    have hlimit := constAddUnits_le hbase
    have hthree : spent .address (last.assemble p stretch.row.asStatement) ≤ 3 := by
      have hlength : (Leb128.encodeUnsigned (stretch.units p)).length ≤ 2 :=
        Leb128.length_encodeUnsigned_le (show stretch.units p < 128 ^ 2 by omega)
      rw [if_neg hzero] at hle
      omega
    rw [if_pos hloses]
    -- the line is written out as well only where it was free in the input too
    rcases spent_line_assemble hrange hslips with hnoline | ⟨hneedsLine, hlength⟩
    · omega
    · rw [hlines, endSequence_asStatement] at hneedsLine
      have hlosesLine : stretch.LosesLine p :=
        ⟨⟨_, hmem, hmoves (hopenRow ▸ hneedsLine)⟩, hneedsLine⟩
      have hsum := length_encodeSigned_lines_le (p := p) stretch.instructions
      rw [if_neg hpaid, hcommits] at hsum
      rw [if_pos hlosesLine, hlength, hlines, Stretch.lines]
      omega
  · rw [hspecial hneeds, if_pos hfew]
    omega

end

section

variable (htracks : Tracks p first registers last) (hrange : p.lineRange ≠ 0)
  (hslips : ¬ last.Slips p stretch.row.asStatement)
  (h : LeadsTo p registers stretch.instructions stretch.row)
include htracks hrange hslips h

/-- Line and address take no more bytes than the stretch spends on them and on the rows that are dropped,
but for its hazards and its charge. -/
theorem spent_advances_assemble_le (hbase : 9 ≤ p.opcodeBase)
    (hlength : p.minimumInstructionLength ≠ 0) :
    spent .line (last.assemble p stretch.row.asStatement) +
        spent .address (last.assemble p stretch.row.asStatement) + 1 ≤
      spent .line stretch.instructions + spent .address stretch.instructions +
        commits stretch.instructions + along p (hazard p) registers stretch.instructions +
        stretch.advanceCharge p := by
  have hcommits := (h.commit htracks.isOpen).1
  have hlinesTo (hline : stretch.row.line.toInt = registers.line.toInt + stretch.lines p) :
      last.linesTo stretch.row.asStatement = stretch.lines p := by
    rw [linesTo, stretch.row.line_asStatement, htracks.line, hline]
    omega
  have hunitsTo (haddress : stretch.row.address.toNat = registers.address.toNat +
      stretch.units p * p.minimumInstructionLength.toNat) :
      unitsTo? p last stretch.row.asStatement = some (stretch.units p) := by
    rw [← stretch.row.address_asStatement, ← htracks.address] at haddress
    exact unitsTo?_of_address hlength haddress
  rw [along_hazard]
  unfold Stretch.advanceCharge
  rcases h.address with hset | haddress
  -- The program has set the address, or has done what only setting it can do.
  · have hseven := spent_address_assemble_le_seven hrange hslips
    rcases h.line with hwraps | hline
    · have hsix := spent_line_assemble_le_six hrange hslips
      omega
    · have hle := spent_line_assemble_le hrange hslips (hlinesTo hline)
      omega
  · have hunits := hunitsTo haddress
    rcases h.line with hwraps | hline
    · have hsix := spent_line_assemble_le_six hrange hslips
      have hle := spent_address_assemble_le_add_three hrange hslips hbase hunits
      omega
    · have hlines := hlinesTo hline
      by_cases hspends : 1 ≤ spent .address stretch.instructions ∨ 2 ≤ commits stretch.instructions
      -- Of the rows that are dropped, half pay for the address and half for the line.
      · have hfirst := spent_line_assemble_le hrange hslips hlines
        have hsecond := spent_address_assemble_le hrange hslips hbase hunits hlines hspends
        omega
      · have hboth := spent_line_add_address_of_special hrange hslips hbase hunits hlines h
          htracks.isOpen (by omega) (by omega)
        unfold Stretch.advanceCharge at hboth
        omega

/-- The registers that are set without reference to what they were take no more bytes. -/
theorem spent_setters_assemble_le :
    spent .file (last.assemble p stretch.row.asStatement) ≤ spent .file stretch.instructions ∧
    spent .column (last.assemble p stretch.row.asStatement) ≤ spent .column stretch.instructions ∧
    spent .discriminator (last.assemble p stretch.row.asStatement) ≤
      spent .discriminator stretch.instructions := by
  rw [spent_assemble hrange hslips (by decide) (by decide) (by decide),
    spent_assemble hrange hslips (by decide) (by decide) (by decide),
    spent_assemble hrange hslips (by decide) (by decide) (by decide)]
  simp only [spent_setRegisters, htracks.file, htracks.column, htracks.discriminator,
    file_asStatement, column_asStatement, discriminator_asStatement]
  exact ⟨(setBy_file p).le_spent h, (setBy_column p).le_spent h, (setBy_discriminator p).le_spent h⟩

/-- A change of the statement flag is paid for by the stretch, or has been before, unless a sequence
begins with a row that is no statement: then it has to be changed at this row, and may have to be
changed back at the end. -/
theorem spent_statement_assemble_le :
    spent .statement (last.assemble p stretch.row.asStatement) +
        statementDebt (stretch.row.registersAfter p) (stretch.row.asStatement.registersAfter p) ≤
      spent .statement stretch.instructions + statementDebt registers last +
        stretch.flagCharge p first := by
  have hset := (setBy_statement p).le_spent h
  have haccount := statement_account htracks.always htracks.start htracks.later
    stretch.row.isStatement stretch.row.endSequence
  rw [spent_assemble hrange hslips (by decide) (by decide) (by decide), spent_setRegisters,
    isStatement_asStatement, statementDebt_registersAfter, statementDebt, Stretch.flagCharge,
    Stretch.isHiddenStart]
  dsimp only
  omega

/-- A row takes no more bytes than the stretch that leads to it, but for the hazards on the way, and what
the stretch is charged for its implied advances and for a row that is no statement. -/
theorem sum_length_assemble_le (hbase : 9 ≤ p.opcodeBase)
    (hlength : p.minimumInstructionLength ≠ 0) :
    ((last.assemble p stretch.row.asStatement).map fun i => i.encode.length).sum +
        statementDebt (stretch.row.registersAfter p) (stretch.row.asStatement.registersAfter p) +
        spent .none stretch.instructions ≤
      (stretch.instructions.map fun i => i.encode.length).sum + statementDebt registers last +
        along p (hazard p) registers stretch.instructions + stretch.advanceCharge p +
        stretch.flagCharge p first := by
  have hadvances := spent_advances_assemble_le htracks hrange hslips h hbase hlength
  obtain ⟨hfile, hcolumn, hdiscriminator⟩ := spent_setters_assemble_le htracks hrange hslips h
  have hstatement := spent_statement_assemble_le htracks hrange hslips h
  obtain ⟨-, hcommit⟩ := h.commit htracks.isOpen
  have hcommit' := spent_commit_assemble hrange hslips
  have hsame : commitLength stretch.row.asStatement = commitLength stretch.row := by
    rw [commitLength, commitLength, endSequence_asStatement]
  have hnone : spent .none (last.assemble p stretch.row.asStatement) = 0 := by
    rw [spent_assemble hrange hslips (by decide) (by decide) (by decide), spent_setRegisters]
  simp only [sum_map_eq_totalOn]
  simp only [spent] at *
  omega

end

/-- The rows that are left take no more bytes than the program, but for its hazards and what its
stretches are charged. What the program spent without effect on a row is left over. -/
theorem sum_length_assembleAll_le (hrange : p.lineRange ≠ 0) (hbase : 9 ≤ p.opcodeBase)
    (hlength : p.minimumInstructionLength ≠ 0) {stretches : List Stretch}
    {instructions : List Instruction} (htracks : Tracks p first registers last)
    (h : Stretches p registers stretches instructions)
    (hslips : ∀ step ∈ steps p last (stretches.map (·.row.asStatement)),
      ¬ step.1.Slips p step.2) :
    ((assembleAll p last (stretches.map (·.row.asStatement))).map fun i => i.encode.length).sum +
        spent .none instructions ≤
      (instructions.map fun i => i.encode.length).sum + statementDebt registers last +
        along p (hazard p) registers instructions + charges p first stretches := by
  -- the induction is on the stretches, with the debt of the statement flag carried from row to row
  induction h generalizing last first with
  | rest registers instructions =>
    rw [sum_map_eq_totalOn _ instructions]
    simp only [List.map_nil, assembleAll, List.sum_nil, spent]
    omega
  | @cons registers stretch stretches instructions hleads _ ih =>
    rw [List.map_cons, steps, List.forall_mem_cons] at hslips
    have hfirst := sum_length_assemble_le htracks hrange hslips.1 hleads hbase hlength
    have hothers := ih (tracks_registersAfter p stretch.row) hslips.2
    rw [hleads.along_append htracks.isOpen]
    simp only [List.map_cons, List.map_append, assembleAll, List.sum_append, spent_append,
      charges]
    omega

end Row

end DwarfLines
