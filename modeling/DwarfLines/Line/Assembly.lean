import DwarfLines.Line.Program

/-!
# Writing programs

A row is written as the instructions that take the registers from the row before it to its own
values. Registers that differ are set first. The line and the address are then advanced together, by
a special opcode if one stands for just these advances; where none does, the address is first
advanced so far that one may, and if still none does, advanced all the way.
-/

namespace DwarfLines

namespace Params

/-- Whether a line advance lies in the window of the special opcodes. -/
def inWindow (p : Params) (lines : Int) : Bool :=
  p.lineBase.toInt ≤ lines && lines < p.lineBase.toInt + p.lineRange.toNat

/-- The special opcode that advances line and address by the given amounts. -/
def special? (p : Params) (lines : Int) (units : Nat) : Option UInt8 :=
  if p.inWindow lines then
    let opcode := (lines - p.lineBase.toInt).toNat + p.lineRange.toNat * units + p.opcodeBase.toNat
    if opcode < 256 then some (UInt8.ofNat opcode) else none
  else none

/-- The instructions that commit a row, or how far the address still has to advance if none can. -/
structure Attempt where
  instructions : List Instruction
  /-- The address advance that is left to be made before the next attempt. -/
  pending : Option Nat

/-- Advances the address before an attempt, and returns the advance that is left for the
row-committing opcode. A second attempt leaves nothing. -/
def lead (p : Params) (retried : Bool) (units : Nat) : List Instruction × Nat :=
  if retried && units ≠ 0 then ([.advanceAddress units], 0)
  else if units ≤ p.constAddUnits then ([], units)
  else if 2 * p.constAddUnits < units then ([.advanceAddress units], 0)
  else ([.constAddAddress], units - p.constAddUnits)

/-- Commits a row at the given line and address advances, if one opcode can do it or no address
advance is left. -/
def commit? (p : Params) (lines : Int) (units : Nat) : Option (List Instruction) :=
  if lines = 0 ∧ units = 0 then some [.copy]
  else
    match p.special? lines units with
    | some opcode => some [.special opcode]
    | none => if units = 0 then some [.advanceLine lines, .copy] else none

/-- Tries to commit a row. -/
def attempt (p : Params) (retried : Bool) (lines : Int) (units : Nat) : Attempt :=
  let (before, units) := p.lead retried units
  match p.commit? lines units with
  | some commit => ⟨before ++ commit, none⟩
  | none => ⟨before, some units⟩

theorem lead_retried (p : Params) (units : Nat) : (p.lead true units).2 = 0 := by
  unfold lead
  split
  · rfl
  · rename_i h
    have : units = 0 := by simpa using h
    simp [this]

theorem commit?_zero (p : Params) (lines : Int) : p.commit? lines 0 ≠ none := by
  unfold commit?
  split
  · simp
  · split <;> simp

/-- A second attempt succeeds. -/
theorem attempt_retried (p : Params) (lines : Int) (units : Nat) :
    (p.attempt true lines units).pending = none := by
  simp only [attempt, lead_retried]
  split
  · rfl
  · exact absurd ‹_› (p.commit?_zero lines)

/-- The attempts it takes to commit a row. -/
def attempts (p : Params) (retried : Bool) (lines : Int) (units : Nat) : List Attempt :=
  match _h : (p.attempt retried lines units).pending with
  | none => [p.attempt retried lines units]
  | some left => p.attempt retried lines units :: attempts p true lines left
termination_by if retried then 0 else 1
decreasing_by
  cases retried with
  | false => simp
  | true => simp [attempt_retried] at _h

/-- Advances line and address and commits a row. A line advance outside the window of the special
opcodes is made first. -/
def advanceAndCommit (p : Params) (lines : Int) (units : Nat) : List Instruction :=
  if p.inWindow lines then (p.attempts false lines units).flatMap Attempt.instructions
  else .advanceLine lines :: (p.attempts false 0 units).flatMap Attempt.instructions

end Params

namespace Row

/-- Sets the registers other than line and address from `last` to `row`. -/
def setRegisters (last row : Row) : List Instruction :=
  (if row.isStatement = last.isStatement then [] else [.negateStatement]) ++
  (if row.discriminator = last.discriminator then []
    else [.extended (.setDiscriminator row.discriminator.toNat)]) ++
  (if row.file = last.file then [] else [.setFile row.file.toNat]) ++
  (if row.column = last.column then [] else [.setColumn row.column.toNat])

/-- The address advance from `last` to `row` in instruction lengths, if it is a whole number of
them and not backwards. -/
def unitsTo? (p : Params) (last row : Row) : Option Nat :=
  let bytes := row.address.toNat - last.address.toNat
  if row.address < last.address ∨ bytes % p.minimumInstructionLength.toNat ≠ 0 then none
  else some (bytes / p.minimumInstructionLength.toNat)

/-- The line advance from `last` to `row`. -/
def linesTo (last row : Row) : Int := row.line.toInt - last.line.toInt

/-- The instructions that take the registers from `last` to `row` and commit the row. -/
def assemble (p : Params) (last row : Row) : List Instruction :=
  let lines := last.linesTo row
  let units? := unitsTo? p last row
  let units := units?.getD 0
  setRegisters last row ++
  (if units?.isSome then [] else [.extended (.setAddress row.address)]) ++
  if row.endSequence then
    (if lines = 0 then [] else [.advanceLine lines]) ++
    (if units = 0 then [] else [.advanceAddress units]) ++
    [.extended .endSequence]
  else p.advanceAndCommit lines units

/-- The registers after a row was committed. -/
def registersAfter (p : Params) (row : Row) : Row :=
  if row.endSequence then .initial p.defaultIsStatement else row

/-- The instructions that commit `rows` one after the other. -/
def assembleAll (p : Params) (last : Row) : List Row → List Instruction
  | [] => []
  | row :: rows => last.assemble p row ++ assembleAll p (row.registersAfter p) rows

end Row

/-- Why no program can be written with the given parameters. -/
def Params.fault? (p : Params) : Option HeaderFault :=
  if p.minimumInstructionLength = 0 ∨ p.lineRange = 0 then some .zeroParameter
  else if p.opcodeBase ≤ 8 then some .opcodeBaseTooSmall
  else none

/-- Whether the last of some rows closes its sequence. -/
def endsSequence (rows : List Row) : Bool := rows.getLast?.all Row.endSequence

/-- Writes a unit. The tables go between the parameters and the program as they are. The version is
at most 3, since the header has no field that only version 4 has. -/
def encodeUnit (version : UInt16) (p : Params) (tables : Bytes) (rows : List Row) :
    Except DebugError Bytes := do
  if let some fault := p.fault? then throw (.invalidHeader fault)
  unless endsSequence rows do throw .malformedSequence
  let some headerLength := word32? (p.bytes.length + tables.length)
    | throw (.invalidHeader .tablesTooLarge)
  let instructions := Row.assembleAll p (.initial p.defaultIsStatement) rows
  let body := bytesOfWord16 (min version 3) ++ bytesOfWord32 headerLength ++ p.bytes ++ tables ++
    instructions.flatMap Instruction.encode
  let some unitLength := word32? body.length | throw (.invalidHeader .unitTooLarge)
  return bytesOfWord32 unitLength ++ body

/-- Writes a unit with the parameters and tables of a decoded one. -/
def Program.encode (program : Program) (rows : List Row) : Except DebugError Bytes :=
  encodeUnit program.header.outputVersion program.header.params program.tables rows

end DwarfLines
