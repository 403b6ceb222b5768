import DwarfLines.Proofs.Guarded.Machine
import DwarfLines.Proofs.Line.Program

/-!
# Writing programs within bounds

A unit is written with its length left open, which is filled in when the program behind it is
complete. The parameters divide here once more, and the address advance of a row takes two attempts
at most.
-/

namespace DwarfLines

open Guarded

namespace Writing

variable {ε : Type}

/-! ## Numbers -/

/-- Writes a number in groups of seven bits. -/
def unsigned (n : Nat) : Guarded ε Bytes :=
  loop (fun (front, n) =>
    if n < 128 then return .inr (front ++ [UInt8.ofNat n])
    else return .inl (front ++ [UInt8.ofNat (n % 128 + 128)], n / 128)) Leb128.maxLength ([], n)

/-- Counts the groups of a number. -/
def unsignedLength (n : Nat) : Guarded ε Nat :=
  loop (fun (length, n) => do
    if n < 128 then return .inr length
    else return .inl (← add 64 length 1, n / 128)) Leb128.maxLength (1, n)

/-- Writes a signed number in groups of seven bits. -/
def signed (n : Int) : Guarded ε Bytes :=
  loop (fun (front, n) =>
    if -64 ≤ n ∧ n < 64 then return .inr (front ++ [UInt8.ofNat (n % 128).toNat])
    else return .inl (front ++ [UInt8.ofNat ((n % 128).toNat + 128)], n / 128))
    Leb128.maxLength ([], n)

/-- The body length of an extended instruction. That of a number is found without writing it. -/
def bodyLength : Extended → Guarded ε Nat
  | .setDiscriminator discriminator => do add 64 1 (← unsignedLength discriminator)
  | instruction => return instruction.body.length

/-- Writes the body of an extended instruction. -/
def body : Extended → Guarded ε Bytes
  | .setDiscriminator discriminator => do return 4 :: (← unsigned discriminator)
  | instruction => return instruction.body

/-- Writes an instruction. -/
def instruction : Instruction → Guarded ε Bytes
  | .advanceAddress units => do return 2 :: (← unsigned units)
  | .advanceLine delta => do return 3 :: (← signed delta)
  | .setFile file => do return 4 :: (← unsigned file)
  | .setColumn column => do return 5 :: (← unsigned column)
  | .extended extended => do
    let length ← unsigned (← bodyLength extended)
    return 0 :: (length ++ (← body extended))
  | instruction => return instruction.encode

/-! ## Rows -/

/-- The address advance from `last` to `row`, if it is a whole number of instruction lengths. -/
def unitsTo? (p : Params) (last row : Row) : Guarded ε (Option Nat) := do
  if row.address < last.address then return none
  let bytes := (row.address - last.address).toNat
  if (← mod bytes p.minimumInstructionLength.toNat) ≠ 0 then return none
  return some (← div bytes p.minimumInstructionLength.toNat)

/-- Whether a line advance lies in the window of the special opcodes. -/
def inWindow (p : Params) (lines : Int) : Guarded ε Bool := do
  let limit ← fitSigned 64 (p.lineBase.toInt + p.lineRange.toNat)
  return p.lineBase.toInt ≤ lines && lines < limit

/-- The special opcode that advances line and address by the given amounts. -/
def special? (p : Params) (lines : Int) (units : Nat) : Guarded ε (Option UInt8) := do
  if ← inWindow p lines then
    let _above ← fitSigned 64 (lines - p.lineBase.toInt)
    return p.special? lines units
  else return none

/-- Advances the address before an attempt. -/
def lead (p : Params) (retried : Bool) (units : Nat) : Guarded ε (List Instruction × Nat) := do
  if retried && units ≠ 0 then return ([.advanceAddress units], 0)
  let constAdd ← constAddUnits p
  if units ≤ constAdd then return ([], units)
  if (← mul 64 2 constAdd) < units then return ([.advanceAddress units], 0)
  return ([.constAddAddress], ← sub units constAdd)

/-- Tries to commit a row. -/
def attempt (p : Params) (lines : Int) :
    Bool × Nat × List Instruction →
      Guarded ε (Bool × Nat × List Instruction ⊕ List Instruction)
  | (retried, units, front) => do
    let (before, units) ← lead p retried units
    if lines = 0 ∧ units = 0 then return .inr (front ++ before ++ [.copy])
    match ← special? p lines units with
    | some opcode => return .inr (front ++ before ++ [.special opcode])
    | none =>
      if units = 0 then return .inr (front ++ before ++ [.advanceLine lines, .copy])
      return .inl (true, units, front ++ before)

/-- Advances line and address and commits a row. -/
def advanceAndCommit (p : Params) (lines : Int) (units : Nat) : Guarded ε (List Instruction) := do
  if ← inWindow p lines then loop (attempt p lines) 2 (false, units, [])
  else loop (attempt p 0) 2 (false, units, [.advanceLine lines])

/-- The instructions that take the registers from `last` to `row` and commit the row. -/
def row (p : Params) (last row : Row) : Guarded ε (List Instruction) := do
  let lines ← fitSigned 64 (row.line.toInt - last.line.toInt)
  let units? ← unitsTo? p last row
  let units := units?.getD 0
  let before := last.setRegisters row ++
    if units?.isSome then [] else [.extended (.setAddress row.address)]
  if row.endSequence then
    return before ++ ((if lines = 0 then [] else [.advanceLine lines]) ++
      (if units = 0 then [] else [.advanceAddress units]) ++ [.extended .endSequence])
  return before ++ (← advanceAndCommit p lines units)

/-- The instructions that commit rows one after the other. -/
def rows (p : Params) (last : Row) : List Row → Guarded ε (List Instruction)
  | [] => return []
  | next :: following => do
    let instructions ← row p last next
    return instructions ++ (← rows p (next.registersAfter p) following)

/-- Writes a unit. -/
def unit (version : UInt16) (p : Params) (tables : Bytes) (rows : List Row) :
    Guarded DebugError Bytes := do
  if let some fault := p.fault? then throw (.invalidHeader fault)
  unless endsSequence rows do throw .malformedSequence
  let some headerLength := word32? (p.bytes.length + tables.length)
    | throw (.invalidHeader .tablesTooLarge)
  let _capacity ← add 63 (← add 63 16 tables.length) (← mul 63 rows.length 2)
  let instructions ← Writing.rows p (.initial p.defaultIsStatement) rows
  let program ← instructions.mapM instruction
  let out := [0, 0, 0, 0] ++ (bytesOfWord16 (min version 3) ++ bytesOfWord32 headerLength ++
    p.bytes ++ tables ++ program.flatten)
  let some unitLength := word32? (← sub out.length 4) | throw (.invalidHeader .unitTooLarge)
  overwrite out 0 4 (bytesOfWord32 unitLength)

/-! ## Numbers are written as without bounds -/

/-- Writing an unsigned number of 64 bits never leaves the bounds. -/
theorem unsigned_eq {n : Nat} (h : n < 2 ^ 64) :
    (unsigned n : Guarded ε Bytes) = pure (Leb128.encodeUnsigned n) := by
  -- the loop is given more rounds than there are bytes to write, and writes them behind `front`
  suffices ∀ rounds (front : Bytes) n, (Leb128.encodeUnsigned n).length ≤ rounds →
      (loop (fun (front, n) =>
        if n < 128 then return .inr (front ++ [UInt8.ofNat n])
        else return .inl (front ++ [UInt8.ofNat (n % 128 + 128)], n / 128)) rounds (front, n) :
          Guarded ε Bytes) = pure (front ++ Leb128.encodeUnsigned n) from
    this _ [] n (Leb128.length_encodeUnsigned_le (Nat.lt_trans h (by decide)))
  intro rounds
  induction rounds with
  | zero =>
    intro front n hlength
    rw [Leb128.length_encodeUnsigned, Leb128.unsignedLength] at hlength
    split at hlength <;> omega
  | succ rounds ih =>
    intro front n hlength
    rw [loop_succ]
    rw [Leb128.encodeUnsigned] at hlength ⊢
    by_cases hn : n < 128
    · simp only [if_pos hn, pure_bind]
    · rw [if_neg hn, List.length_cons] at hlength
      simp only [if_neg hn, pure_bind]
      rw [ih _ _ (by omega), List.append_assoc, List.singleton_append]

/-- Neither does measuring one. -/
theorem unsignedLength_eq {n : Nat} (h : n < 2 ^ 64) :
    (unsignedLength n : Guarded ε Nat) = pure (Leb128.unsignedLength n) := by
  -- as above, with the count of bytes in the place of the bytes
  suffices ∀ rounds length n, Leb128.unsignedLength n ≤ rounds → length + rounds + 1 < 2 ^ 64 →
      (loop (fun (length, n) => do
        if n < 128 then return .inr length
        else return .inl (← add 64 length 1, n / 128)) rounds (length + 1, n) : Guarded ε Nat) =
          pure (length + Leb128.unsignedLength n) by
    have hlength := Leb128.length_encodeUnsigned_le (k := 9) (Nat.lt_trans h (by decide))
    rw [Leb128.length_encodeUnsigned] at hlength
    exact (this Leb128.maxLength 0 n hlength (by decide)).trans (by rw [Nat.zero_add])
  intro rounds
  induction rounds with
  | zero =>
    intro length n hlength
    rw [Leb128.unsignedLength] at hlength
    split at hlength <;> omega
  | succ rounds ih =>
    intro length n hlength hbound
    rw [loop_succ]
    rw [Leb128.unsignedLength] at hlength ⊢
    by_cases hn : n < 128
    · simp only [if_pos hn, pure_bind]
    · rw [if_neg hn] at hlength ⊢
      simp only [if_neg hn, add_eq (show length + 1 + 1 < 2 ^ 64 by omega), pure_bind]
      rw [ih _ _ (by omega) (by omega)]
      congr 1
      omega

/-- Writing a signed number of 64 bits never leaves the bounds. -/
theorem signed_eq {n : Int} (h : -2 ^ 63 ≤ n ∧ n < 2 ^ 63) :
    (signed n : Guarded ε Bytes) = pure (Leb128.encodeSigned n) := by
  -- as for unsigned numbers; a byte ends the number where its bit 6 is the sign
  suffices ∀ rounds (front : Bytes) n, (Leb128.encodeSigned n).length ≤ rounds →
      (loop (fun (front, n) =>
        if -64 ≤ n ∧ n < 64 then return .inr (front ++ [UInt8.ofNat (n % 128).toNat])
        else return .inl (front ++ [UInt8.ofNat ((n % 128).toNat + 128)], n / 128))
          rounds (front, n) : Guarded ε Bytes) = pure (front ++ Leb128.encodeSigned n) by
    have hpow : (2 ^ 63 : Int) ≤ (64 * 128 ^ 9 : Nat) := by decide
    exact this _ [] n (Leb128.length_encodeSigned_le (k := 9) (by omega) (by omega))
  intro rounds
  induction rounds with
  | zero =>
    intro front n hlength
    rw [Leb128.encodeSigned] at hlength
    split at hlength <;> cases hlength
  | succ rounds ih =>
    intro front n hlength
    rw [loop_succ]
    rw [Leb128.encodeSigned] at hlength ⊢
    by_cases hn : -64 ≤ n ∧ n < 64
    · simp only [if_pos hn, pure_bind]
    · rw [if_neg hn, List.length_cons] at hlength
      simp only [if_neg hn, pure_bind]
      rw [ih _ _ (by omega), List.append_assoc, List.singleton_append]

/-! ## Instructions and rows are written as without bounds -/

/-- Instructions that programs are written with are written within bounds. -/
theorem instruction_eq {set : InstructionSet} {i : Instruction} (h : i.Fits set) :
    (instruction i : Guarded ε Bytes) = pure i.encode := by
  -- instructions the encoder never emits are excluded by `h`
  cases i with
  | special | copy | negateStatement | constAddAddress => rfl
  | fixedAdvanceAddress | other => cases h
  | advanceAddress | setFile | setColumn =>
    rw [instruction, unsigned_eq h, pure_bind, Instruction.encode]
  | advanceLine => rw [instruction, signed_eq h, pure_bind, Instruction.encode]
  | extended extended =>
    cases extended with
    | empty | defineFile | defineNoFile | unknown => cases h
    | endSequence | setAddress =>
      simp only [instruction, bodyLength, pure_bind]
      rw [unsigned_eq (by simp [Extended.body]), pure_bind]
      rfl
    -- the only body whose length is not fixed: its number is measured before it is written
    | setDiscriminator n =>
      have hlength := Leb128.length_encodeUnsigned_le (k := 9) (Nat.lt_trans h (by decide))
      rw [Leb128.length_encodeUnsigned] at hlength
      have hbody : (Extended.setDiscriminator n).body.length = 1 + Leb128.unsignedLength n := by
        rw [Extended.body, List.length_cons, Leb128.length_encodeUnsigned, Nat.add_comm]
      rw [instruction, bodyLength, unsignedLength_eq h, pure_bind, add_eq (by omega), pure_bind,
        unsigned_eq (by omega), pure_bind, body, unsigned_eq h, pure_bind, pure_bind, ← hbody]
      rfl

variable {p : Params}

/-- The units of an address advance are found without a division by zero, the instruction length
being positive. -/
theorem unitsTo?_eq (hlength : p.minimumInstructionLength ≠ 0) (last row : Row) :
    (unitsTo? p last row : Guarded ε (Option Nat)) = pure (Row.unitsTo? p last row) := by
  unfold unitsTo? Row.unitsTo?
  by_cases hback : row.address < last.address
  · simp only [hback, if_true, true_or]
  · have hbytes : (row.address - last.address).toNat = row.address.toNat - last.address.toNat :=
      UInt32.toNat_sub_of_le _ _ (UInt32.not_lt.mp hback)
    simp only [hback, if_false, false_or, hbytes, mod_eq (toNat_ne_zero hlength),
      div_eq (toNat_ne_zero hlength), pure_bind]
    split <;> rfl

/-- The test for the window never overflows. -/
theorem inWindow_eq (lines : Int) :
    (inWindow p lines : Guarded ε Bool) = pure (p.inWindow lines) := by
  have hlow := p.lineBase.le_toInt
  have hhigh := p.lineBase.toInt_lt
  have hrange := p.lineRange.toNat_lt
  rw [inWindow, fitSigned_eq (by omega), pure_bind]
  rfl

/-- The special opcode of a pair of advances is found without overflow, for any line advance below
62 bits. -/
theorem special?_eq {lines : Int} (hlines : -2 ^ 62 ≤ lines ∧ lines < 2 ^ 62) (units : Nat) :
    (special? p lines units : Guarded ε (Option UInt8)) = pure (p.special? lines units) := by
  have hlow := p.lineBase.le_toInt
  have hhigh := p.lineBase.toInt_lt
  rw [special?, inWindow_eq, pure_bind]
  by_cases hwindow : p.inWindow lines = true
  · rw [if_pos hwindow, fitSigned_eq (by omega), pure_bind]
  · rw [if_neg hwindow, Params.special?, if_neg hwindow]

/-- The opcode that leads a retried attempt is chosen without a division by zero. -/
theorem lead_eq (hrange : p.lineRange ≠ 0) (retried : Bool) (units : Nat) :
    (lead p retried units : Guarded ε (List Instruction × Nat)) = pure (p.lead retried units) := by
  have hunits : p.constAddUnits ≤ 255 :=
    Nat.le_trans (Nat.div_le_self _ _) (Nat.sub_le _ _)
  unfold lead Params.lead
  by_cases hretried : (retried && decide (units ≠ 0)) = true
  · rw [if_pos hretried, if_pos hretried]
  rw [if_neg hretried, if_neg hretried, constAddUnits_eq hrange]
  simp only [pure_bind]
  by_cases hle : units ≤ p.constAddUnits
  · rw [if_pos hle, if_pos hle]
  rw [if_neg hle, if_neg hle, mul_eq (by omega), pure_bind]
  by_cases hlt : 2 * p.constAddUnits < units
  · rw [if_pos hlt, if_pos hlt]
  · rw [if_neg hlt, if_neg hlt, sub_eq (Nat.le_of_not_le hle), pure_bind]

/-- One attempt of the guarded loop is one attempt of the program. -/
theorem attempt_eq (hrange : p.lineRange ≠ 0) {lines : Int}
    (hlines : -2 ^ 62 ≤ lines ∧ lines < 2 ^ 62) (retried : Bool) (units : Nat)
    (front : List Instruction) :
    (attempt p lines (retried, units, front) :
        Guarded ε (Bool × Nat × List Instruction ⊕ List Instruction)) =
      pure (match (p.attempt retried lines units).pending with
        | none => .inr (front ++ (p.attempt retried lines units).instructions)
        | some left =>
          .inl (true, left, front ++ (p.attempt retried lines units).instructions)) := by
  unfold attempt Params.attempt
  dsimp only
  rw [lead_eq hrange, pure_bind]
  obtain ⟨before, units⟩ := p.lead retried units
  dsimp only
  -- the branches come in the order of the search for a committing opcode
  unfold Params.commit?
  by_cases hzero : lines = 0 ∧ units = 0
  · simp only [if_pos hzero, List.append_assoc]
  rw [if_neg hzero, if_neg hzero, special?_eq hlines, pure_bind]
  cases p.special? lines units with
  | some opcode => simp only [List.append_assoc]
  | none =>
    dsimp only
    by_cases hunits : units = 0
    · simp only [if_pos hunits, List.append_assoc]
    · simp only [if_neg hunits]

/-- Two attempts are enough. -/
theorem attempts_eq (hrange : p.lineRange ≠ 0) {lines : Int}
    (hlines : -2 ^ 62 ≤ lines ∧ lines < 2 ^ 62) (units : Nat) (front : List Instruction) :
    (loop (attempt p lines) 2 (false, units, front) : Guarded ε (List Instruction)) =
      pure (front ++ (p.attempts false lines units).flatMap Params.Attempt.instructions) := by
  have hretried (left : Nat) (front : List Instruction) :
      (loop (attempt p lines) 1 (true, left, front) : Guarded ε (List Instruction)) =
        pure (front ++ (p.attempts true lines left).flatMap Params.Attempt.instructions) := by
    have hdone := p.attempt_retried lines left
    rw [loop_succ, attempt_eq hrange hlines, Params.attempts_of_done hdone, hdone, pure_bind,
      List.flatMap_singleton]
  rw [loop_succ, attempt_eq hrange hlines, pure_bind]
  cases hpending : (p.attempt false lines units).pending with
  | none =>
    rw [Params.attempts_of_done hpending, List.flatMap_singleton]
  | some left =>
    rw [Params.attempts_of_pending hpending, List.flatMap_cons, ← List.append_assoc]
    exact hretried left _

/-- The guarded loop emits what the program's loop emits, and stays in bounds. -/
theorem advanceAndCommit_eq (hrange : p.lineRange ≠ 0) {lines : Int}
    (hlines : -2 ^ 62 ≤ lines ∧ lines < 2 ^ 62) (units : Nat) :
    (advanceAndCommit p lines units : Guarded ε (List Instruction)) =
      pure (p.advanceAndCommit lines units) := by
  rw [advanceAndCommit, inWindow_eq, pure_bind, Params.advanceAndCommit]
  split
  · exact attempts_eq hrange hlines units []
  · exact attempts_eq hrange (by decide) units _

/-- A row is written within bounds whatever the last one was. -/
theorem row_eq (hlength : p.minimumInstructionLength ≠ 0) (hrange : p.lineRange ≠ 0)
    (last row : Row) :
    (Writing.row p last row : Guarded ε (List Instruction)) = pure (last.assemble p row) := by
  have hlines := Instruction.linesTo_bounds last row
  unfold Writing.row Row.assemble
  rw [← Row.linesTo, fitSigned_eq (by omega), pure_bind, unitsTo?_eq hlength, pure_bind]
  dsimp only
  split
  · rfl
  · rw [advanceAndCommit_eq hrange hlines, pure_bind]

/-- So are all rows of a program. -/
theorem rows_eq (hlength : p.minimumInstructionLength ≠ 0) (hrange : p.lineRange ≠ 0) (last : Row)
    (rows : List Row) :
    (Writing.rows p last rows : Guarded ε (List Instruction)) =
      pure (Row.assembleAll p last rows) := by
  induction rows generalizing last with
  | nil => rfl
  | cons row rows ih =>
    rw [Writing.rows, row_eq hlength hrange, pure_bind, ih, pure_bind, Row.assembleAll]

/-- A unit is written within bounds, if its tables and rows are not too many to be counted. -/
theorem agrees_unit {version : UInt16} {tables : Bytes} {rows : List Row}
    (hsize : 16 + tables.length + rows.length * 2 < 2 ^ 63) :
    Agrees Eq (unit version p tables rows) (encodeUnit version p tables rows) := by
  unfold unit encodeUnit
  cases hfault : p.fault? with
  | some fault => exact .throw _
  | none =>
    -- the checks come first on both sides, and so does the header length
    obtain ⟨hlength, hrange, -⟩ := fault?_eq_none_iff.mp hfault
    refine .check_not fun _ => ?_
    cases word32? (p.bytes.length + tables.length) with
    | none => exact .throw _
    | some headerLength =>
      dsimp -zeta only
      rw [add_eq (by omega), pure_bind, mul_eq (by omega), pure_bind, add_eq (by omega), pure_bind,
        rows_eq hlength hrange, pure_bind]
      have hfits : ∀ i ∈ Row.assembleAll p (.initial p.defaultIsStatement) rows,
          -- the bytes of the program are only counted from here on
          i.Fits ⟨p.opcodeBase, []⟩ := Instruction.fits_assembleAll _ rows rfl
      rw [mapM_eq_pure fun i hi => instruction_eq (hfits i hi), pure_bind, ← List.flatMap_def]
      dsimp only
      generalize (Row.assembleAll p (.initial p.defaultIsStatement) rows).flatMap
        Instruction.encode = program
      generalize bytesOfWord16 (min version 3) ++ bytesOfWord32 headerLength ++ p.bytes ++ tables ++
        program = body
      have hout : ([0, 0, 0, 0] ++ body).length = 4 + body.length := List.length_append
      rw [hout, sub_eq (Nat.le_add_right _ _), pure_bind, Nat.add_sub_cancel_left]
      cases word32? body.length with
      | none => exact .throw _
      | some unitLength =>
        dsimp only
        rw [overwrite_eq (by simp) (by omega)]
        exact .pure rfl

end Writing

end DwarfLines
