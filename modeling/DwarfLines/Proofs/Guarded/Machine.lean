import DwarfLines.Line.Program
import DwarfLines.Proofs.Guarded.UnitHeader

/-!
# Running programs within bounds

A machine reads the instructions of a program one after the other. It stops at each row that an
instruction commits, to go on from there when the next row is wanted. The opcode base and the line
range come from the header, so that the arithmetic of special opcodes rests on what was checked
there.
-/

namespace DwarfLines

open Guarded

/-! ## Reading instructions -/

namespace Scan

/-- Reads `count` values. -/
def times {α : Type} (item : Scan α) : Nat → Scan (List α)
  | 0 => return []
  | count + 1 => do
    let value ← item
    let values ← times item count
    return value :: values

/-- Reads the operands of a standard opcode. -/
def standard (operandCounts : Bytes) (opcode : UInt8) : Scan Instruction :=
  match opcode.toNat with
  | 1 => return .copy
  | 2 => .advanceAddress <$> unsigned
  | 3 => .advanceLine <$> signed
  | 4 => .setFile <$> unsigned
  | 5 => .setColumn <$> unsigned
  | 6 => return .negateStatement
  | 8 => return .constAddAddress
  | 9 => .fixedAdvanceAddress <$> word16
  | number => do
    let index ← lift (sub number 1)
    let count := operandCounts[index]?.getD 0
    .other opcode <$> times unsigned count.toNat

/-- Reads the body of an extended instruction. The stored form of a file is what was read of it. -/
def extendedBody (directories : List String) (body : Reader) : Guarded DebugError Extended := do
  let (opcode, body) ← byte body
  match opcode.toNat with
  | 1 => return .endSequence
  | 2 => do
    let (address, _) ← word32 body
    return .setAddress address
  | 3 => do
    let (entry, after) ← fileEntry directories body
    match entry with
    | none => return .defineNoFile
    | some entry => do
      let consumed ← sub after.position body.position
      let (stored, _) ← bytes consumed body
      return .defineFile stored entry
  | 4 => do
    let (discriminator, _) ← unsigned body
    return .setDiscriminator discriminator
  | _ => return .unknown opcode body.rest

/-- Reads the length and the body of an extended instruction. -/
def extended (directories : List String) : Scan Extended := fun r => do
  let (length, r) ← unsigned r
  if length = 0 then return (.empty, r)
  let body ← r.bounded length
  let (_, r) ← bytes length r
  return (← extendedBody directories body, r)

/-- Reads an instruction. -/
def instruction (set : InstructionSet) (directories : List String) : Scan Instruction := do
  let opcode ← byte
  if set.opcodeBase ≤ opcode then return .special opcode
  else if opcode = 0 then return .extended (← extended directories)
  else standard set.operandCounts opcode

variable {α : Type}

/-- Values are scanned as they are decoded, as often as asked for. -/
theorem Decodes.times {item : Scan α} {d : Decoder α} (h : item.Decodes d) (count : Nat) :
    (times item count).Decodes (d.times count) := by
  induction count with
  | zero => exact .pure []
  | succ count ih => exact h.bind fun _ => ih.bind fun _ => .pure _

/-- A standard opcode is scanned as it is decoded. -/
theorem decodes_standard (operandCounts : Bytes) {opcode : UInt8} (hopcode : opcode ≠ 0) :
    (standard operandCounts opcode).Decodes (Instruction.decodeStandard operandCounts opcode) := by
  have hne : opcode.toNat ≠ 0 := fun h => hopcode (UInt8.toNat_inj.mp h)
  unfold standard Instruction.decodeStandard
  -- an opcode the machine does not know passes over as many operands as the header counts for it
  have hother (index : Nat) (f : List Nat → Instruction) :
      (do
        let index ← lift (sub (index + 1) 1)
        let count := operandCounts[index]?.getD 0
        f <$> times unsigned count.toNat : Scan Instruction).Decodes
          (f <$> Leb128.unsigned.times ((numbered? operandCounts (index + 1)).getD 0).toNat) := by
    refine .lift (sub_eq (Nat.le_add_left 1 index)) ?_
    exact (decodes_unsigned.times _).map _
  generalize opcode.toNat = number at hne
  -- opcode by opcode, in the order of the source
  match number with
  | 0 => exact absurd rfl hne
  | 1 | 6 | 8 => exact .pure _
  | 2 | 4 | 5 => exact decodes_unsigned.map _
  | 3 => exact decodes_signed.map _
  | 9 => exact decodes_word16.map _
  | 7 => exact hother 6 _
  | number + 10 => exact hother (number + 9) _

/-- The bytes between two places of a section are read again. -/
theorem exists_reread {r after : Reader} (hr : r.Valid) (hafter : after.Valid)
    (hstop : after.stop = r.stop) (hle : after.rest.length ≤ r.rest.length) :
    ∃ r', (do bytes (← sub after.position r.position) r) =
      (pure (r.rest.take (r.rest.length - after.rest.length), r') :
        Guarded DebugError (Bytes × Reader)) := by
  have hposition := hr.position_le
  have hposition' := hafter.position_le
  have hconsumed : r.rest.length - after.rest.length = after.position - r.position := by
    rw [hr.length_rest, hafter.length_rest, Reader.remaining, Reader.remaining]
    omega
  rw [hr.length_rest, hafter.length_rest, Reader.remaining, Reader.remaining] at hle
  have htake := decodes_bytes (after.position - r.position) r hr
  rw [Decoder.take_eq, if_pos (by rw [hr.length_rest, Reader.remaining]; omega)] at htake
  obtain ⟨⟨_, r'⟩, hbytes, rfl, -⟩ := htake
  rw [sub_eq (by omega), pure_bind, hbytes, hconsumed]
  exact ⟨r', rfl⟩

/-- The body of an extended instruction is all that it is read from. -/
theorem agrees_extendedBody (directories : List String) {body : Reader} (hbody : body.Valid) :
    Agrees Eq (extendedBody directories body) (orTruncated (Extended.decodeBody body.rest)) := by
  unfold extendedBody
  -- without a body not even the opcode is there to be read
  cases hrest : body.rest with
  | nil =>
    have := decodes_byte body hbody
    rw [hrest] at this
    have hbyte : byte body = throw .truncated := this
    rw [hbyte]
    rfl
  | cons opcode operands =>
    have := decodes_byte body hbody
    rw [hrest] at this
    obtain ⟨p, hbyte, hopcode, hleads⟩ := this
    rw [hbyte, pure_bind]
    obtain ⟨first, r⟩ := p
    dsimp only at hopcode hleads
    subst hopcode
    obtain ⟨hr, hdata, hstop, rfl⟩ := hleads
    unfold Extended.decodeBody
    dsimp only
    generalize first.toNat = number
    -- the five known opcodes; any other is passed over
    match number with
    | 1 => exact .pure rfl
    | 2 =>
      show Agrees Eq (word32 r >>= _) (orTruncated ((Decoder.word32 r.rest).map _))
      rw [orTruncated_map]
      exact decodes_word32.agrees_bind hr fun _ _ _ _ _ _ => .pure rfl
    | 3 =>
      show Agrees Eq (fileEntry directories r >>= _)
        (orTruncated ((FileEntry.decodeItem r.rest).map _))
      rw [orTruncated_map]
      refine (decodes_fileEntry directories).agrees_bind hr
        fun entry after hafter _ hstop' hentry => ?_
      cases entry with
      | none => exact .pure rfl
      | some entry =>
        have hshorter := FileEntry.decodeItem_shortens _ _ _ hentry
        -- the bytes of the definition are read once more, to be stored with the header
        obtain ⟨_, hreread⟩ := exists_reread hr hafter hstop' (Nat.le_of_lt hshorter)
        dsimp only
        rw [← bind_assoc, hreread, pure_bind]
        exact .pure rfl
    | 4 =>
      show Agrees Eq (unsigned r >>= _) (orTruncated ((Leb128.unsigned r.rest).map _))
      rw [orTruncated_map]
      exact decodes_unsigned.agrees_bind hr fun _ _ _ _ _ _ => .pure rfl
    | 0 | number + 5 => exact .pure rfl

/-- An extended instruction is scanned as it is decoded. -/
theorem decodes_extended (directories : List String) :
    (extended directories).Decodes Extended.decode := by
  intro r hr
  -- the length comes first, and a length of zero has no body
  have hdecode : Extended.decode r.rest = (Leb128.unsigned r.rest).bind fun q =>
      if q.1 = 0 then some (.empty, q.2)
      else (Decoder.take q.1 q.2).bind fun q =>
        (Extended.decodeBody q.1).bind fun instruction => some (instruction, q.2) := by
    show (Leb128.unsigned r.rest).bind _ = _
    congr 1
    funext q
    dsimp only
    split <;> rfl
  unfold extended
  rw [hdecode, orTruncated_bind]
  refine decodes_unsigned.agrees_bind hr fun length r₁ hr₁ hdata₁ hstop₁ _ => ?_
  dsimp -zeta only
  by_cases hlength : length = 0
  · rw [if_pos hlength, if_pos hlength]
    exact .pure ⟨rfl, hr₁, hdata₁, hstop₁, rfl⟩
  · rw [if_neg hlength, if_neg hlength, orTruncated_bind]
    refine (hr₁.agrees_bounded length).bind ?_
    rintro body ⟨found, rest⟩ htake ⟨hbody, -, rfl⟩
    have hbytes := decodes_bytes length r₁ hr₁
    rw [htake] at hbytes
    obtain ⟨⟨_, r₂⟩, hbytes, -, hleads⟩ := hbytes
    rw [hbytes, pure_bind, orTruncated_bind]
    refine (agrees_extendedBody directories hbody).bind ?_
    rintro instruction _ - rfl
    have hlength : r.Leads r₁ r₁.rest := ⟨hr₁, hdata₁, hstop₁, rfl⟩
    exact .pure ⟨rfl, hlength.trans hleads⟩

/-- Special instructions have opcodes from the opcode base on. -/
theorem decodes_instruction (set : InstructionSet) (directories : List String) :
    (instruction set directories).Decodes (Instruction.decode set) := by
  refine decodes_byte.bind fun opcode => .ite (fun _ => .pure _) fun _ => ?_
  refine .ite (fun _ => ?_) fun hopcode => decodes_standard _ hopcode
  exact (decodes_extended directories).bind fun _ => .pure _

end Scan

/-! ## The arithmetic of opcodes -/

namespace Guarded

variable {ε : Type}

/-- The address advance of the opcode that adds a constant, in instruction lengths. -/
def constAddUnits (p : Params) : Guarded ε Nat := do
  let opcodes ← sub 255 p.opcodeBase.toNat
  div opcodes p.lineRange.toNat

/-- The same advance in bytes. -/
def constAddDelta (p : Params) : Guarded ε Nat := do
  let units ← constAddUnits p
  mul 32 units p.minimumInstructionLength.toNat

/-- The registers after a special instruction. -/
def special (p : Params) (registers : Row) (opcode : UInt8) : Guarded ε Row := do
  let adjusted ← sub opcode.toNat p.opcodeBase.toNat
  let units ← div adjusted p.lineRange.toNat
  let lines ← fitSigned 32 ((← mod adjusted p.lineRange.toNat) + p.lineBase.toInt)
  return (registers.advance p units).advanceLine lines

variable {p : Params}

theorem toNat_ne_zero {b : UInt8} (h : b ≠ 0) : b.toNat ≠ 0 := fun hb => h (UInt8.toNat_inj.mp hb)

/-- The constant is computed within bounds. -/
theorem constAddUnits_eq (hrange : p.lineRange ≠ 0) :
    (constAddUnits p : Guarded ε Nat) = pure p.constAddUnits := by
  have hbase := p.opcodeBase.toNat_lt
  rw [constAddUnits, sub_eq (by omega), pure_bind, div_eq (toNat_ne_zero hrange)]
  rfl

/-- The constant in bytes is computed within bounds. -/
theorem constAddDelta_eq (hrange : p.lineRange ≠ 0) :
    (constAddDelta p : Guarded ε Nat) = pure p.constAddDelta := by
  have hunits : p.constAddUnits ≤ 255 :=
    Nat.le_trans (Nat.div_le_self _ _) (Nat.sub_le _ _)
  have hlength := p.minimumInstructionLength.toNat_lt
  have hdelta : p.constAddUnits * p.minimumInstructionLength.toNat ≤ 255 * 255 :=
    Nat.mul_le_mul hunits (by omega)
  rw [constAddDelta, constAddUnits_eq hrange, pure_bind, mul_eq (by omega)]
  rfl

/-- A special instruction is executed within bounds. -/
theorem special_eq (hrange : p.lineRange ≠ 0) (registers : Row) {opcode : UInt8}
    (hopcode : p.opcodeBase ≤ opcode) : (special p registers opcode : Guarded ε Row) =
      pure ((registers.advance p (p.specialUnits opcode)).advanceLine (p.specialLines opcode)) := by
  have hle : p.opcodeBase.toNat ≤ opcode.toNat := UInt8.le_iff_toNat_le.mp hopcode
  have hmod := Nat.mod_lt (opcode.toNat - p.opcodeBase.toNat)
    (Nat.pos_of_ne_zero (toNat_ne_zero hrange))
  have hbound := p.lineRange.toNat_lt
  have hlow := p.lineBase.le_toInt
  have hhigh := p.lineBase.toInt_lt
  rw [special, sub_eq hle, pure_bind, div_eq (toNat_ne_zero hrange), pure_bind,
    mod_eq (toNat_ne_zero hrange), pure_bind, fitSigned_eq (by omega), pure_bind]
  rfl

end Guarded

/-! ## Machines -/

/-- A program that is being run. -/
structure Machine where
  reader : Reader
  registers : Row
  /-- The files that the program has defined so far. -/
  files : List FileEntry
  /-- The bytes that these files are stored in. -/
  stored : Bytes

namespace Machine

/-- A machine before the first instruction of a program. -/
def start (header : UnitHeader) (unit : Bytes) : Guarded DebugError Machine := do
  let r ← Reader.openAt unit header.program.start
  let reader ← r.bounded header.program.length
  return { reader, registers := .initial header.params.defaultIsStatement, files := [],
           stored := [] }

/-- Executes an instruction, which may commit a row. -/
def execute (p : Params) (m : Machine) : Instruction → Guarded DebugError (Option Row × Machine)
  | .special opcode => do
    let row ← special p m.registers opcode
    return (some row, { m with registers := row })
  | .constAddAddress => do
    let delta ← constAddDelta p
    let address := m.registers.address + UInt32.ofNat delta
    return (none, { m with registers := { m.registers with address } })
  | .extended (.defineFile stored entry) =>
    return (none, { m with files := m.files ++ [entry], stored := m.stored ++ stored })
  | instruction =>
    let (registers, committed) := instruction.execute p m.registers
    return (committed, { m with registers })

variable (header : UnitHeader)

/-- Executes an instruction, if there is one left. A row ends the rounds, and so does the end. -/
def round (m : Machine) : Guarded DebugError (Machine ⊕ Option Row × Machine) := do
  if m.reader.remaining = 0 then return .inr (none, m)
  let (instruction, reader) ← Scan.instruction header.instructionSet header.directories m.reader
  match ← execute header.params { m with reader } instruction with
  | (none, m) => return .inl m
  | (some row, m) => return .inr (some row, m)

/-- Executes instructions until one of them commits a row, or there are none left. -/
def step (m : Machine) : Guarded DebugError (Option Row × Machine) :=
  loop (round header) (m.reader.remaining + 1) m

/-- Collects the rows until there are none left. -/
def rows (m : Machine) : Guarded DebugError (List Row × Machine) :=
  loop (fun (rows, m) => do
    match ← step header m with
    | (none, m) => return .inr (rows, m)
    | (some row, m) => return .inl (rows ++ [row], m)) (m.reader.remaining + 1) ([], m)

end Machine

/-- Decodes a unit. -/
def Program.scan (unit : Bytes) : Guarded DebugError Program := do
  let header ← UnitHeader.scan unit
  let machine ← Machine.start header unit
  let (rows, machine) ← machine.rows header
  let tables ← slice unit header.tables.start header.tables.stop
  return {
    header, rows
    files := header.files ++ machine.files
    tables := extendTables tables machine.stored }

/-- Special instructions have opcodes from the opcode base on. -/
theorem Instruction.opcodeBase_le_of_decode {set : InstructionSet} {bytes rest : Bytes}
    {opcode : UInt8} (h : decode set bytes = some (special opcode, rest)) :
    set.opcodeBase ≤ opcode := by
  -- only an opcode at or above the base is decoded as a special one
  obtain ⟨opcode', rest₁, -, h⟩ := Decoder.bind_eq_some_iff.mp h
  unfold decodeAfter at h
  split at h
  · rename_i hopcode
    cases (Decoder.pure_eq_some_iff.mp h).1
    exact hopcode
  · split at h
    · obtain ⟨_, _, -, h⟩ := Decoder.bind_eq_some_iff.mp h
      cases (Decoder.pure_eq_some_iff.mp h).1
    · unfold decodeStandard at h
      split at h
      case h_1 | h_6 | h_7 => cases h
      all_goals
        obtain ⟨_, -, h⟩ := Decoder.map_eq_some_iff.mp h
        cases h

namespace Machine

variable {header : UnitHeader} {m m' : Machine}

/-- What a machine comes to: the rows that are still to be committed, and all files and their stored
form in the end. -/
def outcome (header : UnitHeader) (m : Machine) :
    Except DebugError (List Row × List FileEntry × Bytes) :=
  let (instructions, complete) := Instruction.scan header.instructionSet m.reader.rest
  if complete then
    let definitions := instructions.filterMap Instruction.definition?
    .ok (Instruction.run header.params m.registers instructions,
      m.files ++ definitions.map (·.2), m.stored ++ definitions.flatMap (·.1))
  else .error .truncated

/-- What a machine comes to from a row on. -/
def andThen (committed : Option Row)
    (outcome : Except DebugError (List Row × List FileEntry × Bytes)) :
    Except DebugError (List Row × List FileEntry × Bytes) :=
  outcome.map fun (rows, rest) => (committed.toList ++ rows, rest)

/-- A machine at the end yields nothing more. -/
theorem outcome_of_isEmpty (h : m.reader.rest = []) :
    outcome header m = .ok ([], m.files, m.stored) := by
  simp [outcome, h, Instruction.scan_nil, Instruction.run]

/-- A machine that cannot read on fails. -/
theorem outcome_of_decode_eq_none (hne : m.reader.rest ≠ [])
    (h : Instruction.decode header.instructionSet m.reader.rest = none) :
    outcome header m = .error .truncated := by
  have hscan : Instruction.scan header.instructionSet m.reader.rest = ([], false) := by
    rw [Instruction.scan, if_neg (by simpa using hne)]
    split
    · rfl
    · rename_i hsome
      rw [h] at hsome
      cases hsome
  simp [outcome, hscan]

/-- An instruction is executed as without bounds, and what it defines is kept. -/
theorem execute_eq (hrange : header.params.lineRange ≠ 0) (m : Machine)
    {instruction : Instruction}
    (hspecial : ∀ opcode, instruction = .special opcode → header.params.opcodeBase ≤ opcode) :
    ∃ committed m', execute header.params m instruction = pure (committed, m') ∧
      m'.reader = m.reader ∧
      instruction.execute header.params m.registers = (m'.registers, committed) ∧
      m'.files = m.files ++ (instruction.definition?.toList.map (·.2)) ∧
      m'.stored = m.stored ++ (instruction.definition?.toList.flatMap (·.1)) := by
  have hsame {α : Type} (xs : List α) : xs = xs ++ [] := (List.append_nil xs).symm
  -- no instruction but `define_file` changes more than the registers
  let after : Machine :=
    { m with registers := (instruction.execute header.params m.registers).1 }
  cases instruction with
  | special opcode =>
    refine ⟨_, after, ?_, rfl, rfl, hsame _, hsame _⟩
    show special header.params m.registers opcode >>= _ = _
    rw [special_eq hrange _ (hspecial opcode rfl), pure_bind]
    rfl
  | constAddAddress =>
    refine ⟨_, after, ?_, rfl, rfl, hsame _, hsame _⟩
    show constAddDelta header.params >>= _ = _
    rw [constAddDelta_eq hrange, pure_bind]
    rfl
  | extended extended =>
    cases extended with
    | defineFile stored entry => exact ⟨_, _, rfl, rfl, rfl, rfl, by simp [Instruction.definition?]⟩
    | _ => exact ⟨_, after, rfl, rfl, rfl, hsame _, hsame _⟩
  | _ => exact ⟨_, after, rfl, rfl, rfl, hsame _, hsame _⟩

/-- A machine that executes an instruction comes to what it came to before. -/
theorem outcome_of_execute {instruction : Instruction} {committed : Option Row}
    (hne : m.reader.rest ≠ [])
    (hdecode : Instruction.decode header.instructionSet m.reader.rest =
      some (instruction, m'.reader.rest))
    (hexecute : instruction.execute header.params m.registers = (m'.registers, committed))
    (hfiles : m'.files = m.files ++ (instruction.definition?.toList.map (·.2)))
    (hstored : m'.stored = m.stored ++ (instruction.definition?.toList.flatMap (·.1))) :
    outcome header m = andThen committed (outcome header m') := by
  -- the instruction is the head of the scan, since it was decoded here
  have hscan : Instruction.scan header.instructionSet m.reader.rest =
      (instruction :: (Instruction.scan header.instructionSet m'.reader.rest).1,
        (Instruction.scan header.instructionSet m'.reader.rest).2) := by
    rw [Instruction.scan, if_neg (by simpa using hne)]
    split
    · rename_i hnone
      rw [hdecode] at hnone
      cases hnone
    · rename_i hsome
      rw [hdecode] at hsome
      cases hsome
      rfl
  unfold outcome
  rw [hscan]
  dsimp only
  cases (Instruction.scan header.instructionSet m'.reader.rest).2 with
  | false => rfl
  | true =>
    simp only [if_true, andThen, Except.map, Instruction.run, hexecute, hfiles, hstored,
      List.filterMap_cons]
    cases instruction.definition? <;> simp

/-- A reader has nothing left at its end. -/
theorem remaining_eq_zero_iff (hm : m.reader.Valid) :
    m.reader.remaining = 0 ↔ m.reader.rest = [] := by
  rw [← hm.length_rest, List.length_eq_zero_iff]

/-- Whether a computation brings a machine to a row, with less left to be read, to the end of the
program, or to an instruction that runs past the end. -/
def Advances (header : UnitHeader) (m : Machine) (x : Guarded DebugError (Option Row × Machine)) :
    Prop :=
  (∃ row m', x = pure (some row, m') ∧ m'.reader.Valid ∧
    m'.reader.remaining < m.reader.remaining ∧
    outcome header m = andThen (some row) (outcome header m')) ∨
  (∃ m', x = pure (none, m') ∧ outcome header m = .ok ([], m'.files, m'.stored)) ∨
  x = throw .truncated ∧ outcome header m = .error .truncated

/-- A machine may go on from one that has the same outcome. -/
theorem Advances.of_outcome_eq {x : Guarded DebugError (Option Row × Machine)}
    (h : Advances header m' x) (houtcome : outcome header m = outcome header m')
    (hle : m'.reader.remaining ≤ m.reader.remaining) : Advances header m x := by
  rw [Advances, houtcome]
  obtain ⟨row, m'', hx, hvalid, hshorter, hrest⟩ | h := h
  · exact .inl ⟨row, m'', hx, hvalid, Nat.lt_of_lt_of_le hshorter hle, hrest⟩
  · exact .inr h

/-- No row before is no row. -/
theorem andThen_none (outcome : Except DebugError (List Row × List FileEntry × Bytes)) :
    andThen none outcome = outcome := by
  cases outcome <;> rfl

/-- A round executes the instruction that stands in front, unless it runs past the end. -/
theorem round_eq (hrange : header.params.lineRange ≠ 0) (hm : m.reader.Valid)
    (hne : m.reader.rest ≠ []) :
    (round header m = throw .truncated ∧ outcome header m = .error .truncated) ∨
    ∃ committed m', round header m =
        pure (committed.elim (.inl m') fun row => .inr (some row, m')) ∧
      m'.reader.Valid ∧ m'.reader.remaining < m.reader.remaining ∧
      outcome header m = andThen committed (outcome header m') := by
  rw [round, if_neg (mt (remaining_eq_zero_iff hm).mp hne)]
  have hscan := Scan.decodes_instruction header.instructionSet header.directories m.reader hm
  -- an instruction that cannot be read ends the program on both sides
  cases hdecode : Instruction.decode header.instructionSet m.reader.rest with
  | none =>
    rw [hdecode] at hscan
    have hthrow : Scan.instruction header.instructionSet header.directories m.reader =
      throw .truncated := hscan
    rw [hthrow]
    exact .inl ⟨rfl, outcome_of_decode_eq_none hne hdecode⟩
  | some q =>
    rw [hdecode] at hscan
    obtain ⟨⟨instruction, reader⟩, hinstruction, hvalue, hreader, -, -, hrest⟩ := hscan
    replace hdecode : Instruction.decode header.instructionSet m.reader.rest =
        some (instruction, reader.rest) :=
      hdecode.trans (congrArg some (Prod.ext hvalue hrest).symm)
    -- the loop makes progress: an instruction takes at least one byte
    have hshorter : reader.remaining < m.reader.remaining := by
      rw [← hm.length_rest, ← hreader.length_rest]
      exact Instruction.decode_shortens _ _ _ _ hdecode
    obtain ⟨committed, m', hexecute, hsame, hregisters, hfiles, hstored⟩ :=
      execute_eq hrange { m with reader } fun opcode (hopcode : instruction = _) =>
        Instruction.opcodeBase_le_of_decode (hopcode ▸ hdecode)
    rw [hinstruction, pure_bind]
    dsimp only at hsame hregisters hfiles hstored ⊢
    rw [hexecute, pure_bind]
    rw [← hsame] at hdecode hreader hshorter
    refine .inr ⟨committed, m', ?_, hreader, hshorter,
      outcome_of_execute hne hdecode hregisters hfiles hstored⟩
    cases committed <;> rfl

/-- A step stays within bounds, and yields the next row or leads to the same outcome. -/
theorem advances_step (hrange : header.params.lineRange ≠ 0) (hm : m.reader.Valid) :
    Advances header m (step header m) := by
  -- the induction is on the bytes left to the machine's reader
  refine loop_induction (P := fun m x => m.reader.Valid → Advances header m x)
    (fun m => m.reader.remaining) (fun m next ih hm => ?_) m (Nat.lt_succ_self _) hm
  by_cases hempty : m.reader.remaining = 0
  · rw [round, if_pos hempty, pure_bind]
    rw [remaining_eq_zero_iff hm] at hempty
    exact .inr (.inl ⟨m, rfl, outcome_of_isEmpty hempty⟩)
  rw [remaining_eq_zero_iff hm] at hempty
  obtain ⟨hround, houtcome⟩ | ⟨committed, m', hround, hm', hshorter, houtcome⟩ :=
    round_eq hrange hm hempty
  · rw [hround]
    exact .inr (.inr ⟨rfl, houtcome⟩)
  · rw [hround, pure_bind]
    -- a round that commits no row is followed by the next one, which has less to read
    cases committed with
    | some row => exact .inl ⟨row, m', rfl, hm', hshorter, houtcome⟩
    | none =>
      rw [andThen_none] at houtcome
      exact (ih m' hshorter hm').of_outcome_eq houtcome (Nat.le_of_lt hshorter)

/-- The rows of a machine are those that it comes to. -/
theorem agrees_rows (hrange : header.params.lineRange ≠ 0) (hm : m.reader.Valid) :
    Agrees (fun p q => (p.1, p.2.files, p.2.stored) = q) (rows header m) (outcome header m) := by
  refine loop_induction (P := fun (s : List Row × Machine) x => s.2.reader.Valid →
      Agrees (fun (p : List Row × Machine) q => (p.1, p.2.files, p.2.stored) = (s.1 ++ q.1, q.2)) x
        (outcome header s.2))
    (fun s => s.2.reader.remaining) (fun (front, m) next ih hm => ?_) ([], m) (Nat.lt_succ_self _) hm
  dsimp only at ih hm ⊢
  obtain ⟨row, m', hstep, hm', hshorter, houtcome⟩ | ⟨m', hstep, houtcome⟩ | ⟨hstep, houtcome⟩ :=
    advances_step hrange hm
  -- each step puts one row behind the rows already there, so the accumulator is their front
  · have htail := ih (front ++ [row], m') hshorter hm'
    rw [hstep, houtcome, pure_bind]
    dsimp only
    rw [pure_bind]
    exact htail.map_right fun p q _ hvalue => by simpa using hvalue
  · rw [hstep, houtcome, pure_bind]
    exact .pure (by simp)
  · rw [hstep, houtcome]
    exact .throw _

/-- The machine of a header that is read has the header's program before it. -/
theorem agrees_start {unit : Bytes} (hunit : unit.length < 2 ^ 64) (husable : header.Usable unit) :
    ∃ m, start header unit = pure m ∧ m.reader.Valid ∧
      outcome header m = (orTruncated (header.instructions? unit)) >>=
        fun (instructions, complete) => if complete then
          let definitions := instructions.filterMap Instruction.definition?
          let registers := .initial header.params.defaultIsStatement
          .ok (Instruction.run header.params registers instructions,
            definitions.map (·.2), definitions.flatMap (·.1))
        else .error .truncated := by
  have hstart := husable.program_le
  have hstop := husable.program_stop_le
  -- the reader of the program is cut out of the unit, and stands on the slice that is decoded
  obtain ⟨r, hopen, hr, hdata, hcursor⟩ : ∃ r, Reader.openAt unit header.program.start = pure r ∧
      r.Valid ∧ r.data = unit ∧
        r.cursor = ⟨header.program.start, unit.drop header.program.start⟩ := by
    have hat := Reader.agrees_openAt hunit header.program.start
    rw [Cursor.at?, if_pos (Nat.le_trans hstart hstop)] at hat
    exact hat
  have hrest : r.rest = unit.drop header.program.start := congrArg Cursor.rest hcursor
  have hlength : header.program.length ≤ r.rest.length := by
    rw [hrest, List.length_drop, Span.length]
    omega
  obtain ⟨hvalid, htake⟩ := hr.narrow hlength
  have hslice : header.program.slice? unit = some (r.rest.take header.program.length) := by
    rw [Span.slice?, if_pos hstop, Span.slice, hrest]
  rw [start, hopen, pure_bind, hr.bounded_eq, if_pos hlength, pure_bind]
  refine ⟨_, rfl, hvalid, ?_⟩
  rw [outcome, htake, UnitHeader.instructions?, hslice]
  rfl

end Machine

/-- A unit is decoded within bounds. -/
theorem Program.agrees_scan {unit : Bytes} (hunit : unit.length < 2 ^ 64) :
    Agrees Eq (scan unit) (decode unit) := by
  unfold scan decode
  refine (UnitHeader.agrees_scan hunit).bind ?_
  rintro header _ - ⟨rfl, husable⟩
  obtain ⟨machine, hstart, hm, houtcome⟩ := Machine.agrees_start hunit husable
  have hrows := Machine.agrees_rows husable.lineRange_ne hm
  rw [hstart, pure_bind, slice_eq husable.tables_le husable.tables_stop_le]
  rw [houtcome] at hrows
  -- the machine ran the program on the fly; the instructions are scanned before they run
  cases hinstructions : header.instructions? unit with
  | none =>
    rw [hinstructions] at hrows
    have hthrow : machine.rows header = throw .truncated := hrows
    rw [hthrow]
    exact .throw _
  | some q =>
    obtain ⟨instructions, complete⟩ := q
    rw [hinstructions] at hrows
    cases complete with
    | false =>
      have hthrow : machine.rows header = throw .truncated := hrows
      rw [hthrow]
      exact .throw _
    | true =>
      obtain ⟨⟨rows, m'⟩, hrows, hvalue⟩ := hrows
      simp only [Prod.mk.injEq] at hvalue
      obtain ⟨rfl, hfiles, hstored⟩ := hvalue
      rw [hrows]
      exact .pure (by rw [hfiles, hstored])

end DwarfLines
