import DwarfLines.Proofs.Line.Encodability
import DwarfLines.Proofs.Line.HeaderGrammar

/-!
# The end of a sequence leaves nothing behind

The instruction that ends a sequence puts the registers back to what they are at the start of a
program, and so does the writer after the row for it. So a program may be cut there: what comes behind
does, and is written, as if it stood alone.
-/

namespace DwarfLines

namespace Instruction

/-! ## Reading -/

/-- A program that is read whole is the bytes of its instructions. -/
theorem exists_reads_of_scan {set : InstructionSet} {bytes : Bytes}
    {instructions : List Instruction} (h : scan set bytes = (instructions, true)) :
    ∃ fronts, bytes = List.flatten fronts ∧
      List.Forall₂ (decode set).Reads fronts instructions := by
  fun_induction scan set bytes generalizing instructions with
  | case1 bytes hempty =>
    cases h
    exact ⟨[], List.isEmpty_iff.mp hempty, .nil⟩
  | case2 => cases h
  | case3 bytes hne instruction rest hdecode others complete hrest ih =>
    cases h
    obtain ⟨front, rfl, hfront⟩ := local_decode set _ _ _ hdecode
    obtain ⟨fronts, rfl, hfronts⟩ := ih hrest
    exact ⟨front :: fronts, rfl, .cons hfront hfronts⟩

/-- Behind a program that is read whole another is read as it is alone. -/
theorem scan_append {set : InstructionSet} {bytes : Bytes} {instructions : List Instruction}
    (h : scan set bytes = (instructions, true)) (back : Bytes) :
    scan set (bytes ++ back) = (instructions ++ (scan set back).1, (scan set back).2) := by
  obtain ⟨fronts, rfl, hfronts⟩ := exists_reads_of_scan h
  exact scan_append_of_reads hfronts back

/-! ## Running -/

variable {p : Params} {before after : Row}

/-- What some instructions commit is what they commit alone. -/
theorem Leads.run_eq {instructions : List Instruction} {rows : List Row}
    (h : Leads p before instructions rows after) : run p before instructions = rows := by
  have hrun := h []
  rwa [List.append_nil, run, List.append_nil] at hrun

/-- Any instructions lead somewhere. -/
theorem exists_leads (p : Params) (before : Row) (instructions : List Instruction) :
    ∃ rows after, Leads p before instructions rows after := by
  induction instructions generalizing before with
  | nil => exact ⟨[], before, .nil⟩
  | cons instruction instructions ih =>
    obtain ⟨rows, after, h⟩ := ih (instruction.execute p before).1
    exact ⟨_, after, (Leads.single instruction).append h⟩

/-- The end of a sequence is also the start of one. -/
theorem leads_of_endSequence {instructions : List Instruction}
    (h : instructions.getLast? = some (.extended .endSequence)) (before : Row) :
    Leads p before instructions (run p before instructions) (.initial p.defaultIsStatement) := by
  obtain ⟨body, rfl⟩ := List.getLast?_eq_some_iff.mp h
  obtain ⟨rows, registers, hbody⟩ := exists_leads p before body
  have hstop : Leads p before (body ++ [.extended .endSequence]) _
      (.initial p.defaultIsStatement) := hbody.append (.single _)
  rwa [hstop.run_eq]

end Instruction

/-! ## Units with one header and several programs -/

namespace UnitParts

variable {parts : UnitParts}

/-- The program of a unit is in the unit. -/
theorem IsUnit.slice?_program (h : parts.IsUnit) :
    parts.header.program.slice? parts.bytes = some parts.program := by
  have hwhole := h.whole
  have hstart := h.start
  -- everything before the program is one front, of the length the header says
  generalize hfront : bytesOfWord32 parts.unitLength ++ (bytesOfWord16 parts.version ++
    (bytesOfWord32 parts.headerLength ++ (parts.fields ++
      (parts.storedTables ++ parts.padding)))) = front
  have hbytes : parts.bytes = front ++ (parts.program ++ []) := by
    rw [← hfront]
    simp [bytes, body, rest]
  have hfrontLength : front.length = 10 + parts.headerLength.toNat := by
    rw [← hfront]
    simp only [List.length_append, length_bytesOfWord16, length_bytesOfWord32]
    omega
  have hbytesLength : parts.bytes.length = 4 + parts.unitLength.toNat := by
    rw [bytes, List.length_append, length_bytesOfWord32, hwhole]
  have hprogramLength := congrArg List.length hbytes
  rw [List.length_append, List.append_nil, hbytesLength] at hprogramLength
  rw [Span.slice?, header, if_pos (Nat.le_of_eq hbytesLength.symm), hbytes]
  refine congrArg some (Span.slice_append [] hfrontLength.symm ?_)
  dsimp only
  omega

/-- The tables of a unit are in the unit. -/
theorem slice_tables (parts : UnitParts) :
    parts.header.tables.slice parts.bytes = parts.storedTables := by
  generalize hfront : bytesOfWord32 parts.unitLength ++ (bytesOfWord16 parts.version ++
    (bytesOfWord32 parts.headerLength ++ parts.fields)) = front
  have hbytes : parts.bytes = front ++ (parts.storedTables ++ (parts.padding ++ parts.program)) := by
    rw [← hfront]
    simp [bytes, body, rest]
  have hfrontLength : front.length = 10 + parts.fields.length := by
    rw [← hfront]
    simp only [List.length_append, length_bytesOfWord16, length_bytesOfWord32]
    omega
  rw [hbytes]
  refine Span.slice_append _ hfrontLength.symm ?_
  rw [header, hfrontLength]

/-- What a unit decodes to if its program is made of some instructions. -/
def decoded (parts : UnitParts) (instructions : List Instruction) : Program where
  header := parts.header
  rows := Instruction.run parts.params (.initial parts.params.defaultIsStatement) instructions
  files := parts.tables.files ++ (instructions.filterMap Instruction.definition?).map (·.2)
  tables := extendTables parts.storedTables
    ((instructions.filterMap Instruction.definition?).flatMap (·.1))

variable {instructions : List Instruction} {complete : Bool}

/-- The instructions of a unit are those of its program. -/
theorem IsUnit.instructions?_eq (h : parts.IsUnit) :
    parts.header.instructions? parts.bytes =
      some (Instruction.scan parts.header.instructionSet parts.program) := by
  rw [UnitHeader.instructions?, h.slice?_program, Option.map_some]

/-- The rows of a unit are those that its program commits. -/
theorem IsUnit.rows?_eq (h : parts.IsUnit)
    (hscan : Instruction.scan parts.header.instructionSet parts.program =
      (instructions, complete)) :
    parts.header.rows? parts.bytes = some (Instruction.run parts.params
      (.initial parts.params.defaultIsStatement) instructions, complete) := by
  rw [UnitHeader.rows?, h.instructions?_eq, hscan]
  rfl

/-- A unit is decoded to its parts, unless its program is cut off. -/
theorem IsUnit.decode_eq (h : parts.IsUnit)
    (hscan : Instruction.scan parts.header.instructionSet parts.program =
      (instructions, complete)) :
    Program.decode parts.bytes =
      if complete then .ok (parts.decoded instructions) else .error .truncated := by
  have hheader := h.read_eq []
  rw [List.append_nil] at hheader
  unfold Program.decode
  rw [hheader]
  show (orTruncated (parts.header.instructions? parts.bytes) >>= _) = _
  rw [h.instructions?_eq, hscan, slice_tables]
  cases complete <;> rfl

/-- The unit with another program, and with the length that it then has. -/
def withProgram (parts : UnitParts) (program : Bytes) : UnitParts :=
  { parts with
    program
    unitLength := UInt32.ofNat (parts.body.length - parts.program.length + program.length) }

/-- A unit with another program is longer by as much as the program. -/
theorem length_body_withProgram (parts : UnitParts) (program : Bytes) :
    (parts.withProgram program).body.length =
      parts.body.length - parts.program.length + program.length := by
  simp only [withProgram, body, rest, fields, List.length_append]
  omega

/-- With a shorter program a unit is still one. -/
theorem IsUnit.withProgram_of_le {short long : Bytes} (h : (parts.withProgram long).IsUnit)
    (hle : short.length ≤ long.length) : (parts.withProgram short).IsUnit := by
  have hwhole := h.whole
  rw [length_body_withProgram] at hwhole
  have hlt := (parts.withProgram long).unitLength.toNat_lt
  have hshort : (parts.withProgram short).unitLength.toNat =
      parts.body.length - parts.program.length + short.length := by
    rw [withProgram, UInt32.toNat_ofNat', Nat.mod_eq_of_lt (by omega)]
  refine { h with narrow := ?_, whole := ?_ }
  · exact UInt32.lt_iff_toNat_lt.mpr (by have := UInt32.lt_iff_toNat_lt.mp h.narrow; omega)
  · rw [hshort, length_body_withProgram]

end UnitParts

namespace Program

/-- The files that the program itself defines. -/
def definedFiles (program : Program) : List FileEntry :=
  program.files.drop program.header.files.length

/-- The bytes in which the tables of the program hold the files that it defines. -/
def storedDefinitions (program : Program) : Bytes :=
  (program.tables.drop (program.header.tables.length - 1)).dropLast

end Program

/-- A file table ends with the byte 0. -/
theorem Tables.Spells.exists_eq_concat {opcodeBase : UInt8} {bytes : Bytes} {tables : Tables}
    (h : tables.Spells opcodeBase bytes) : ∃ front, bytes = front ++ [0] := by
  obtain ⟨-, -, -⟩ := h
  simp only [← List.append_assoc]
  exact ⟨_, rfl⟩

namespace UnitParts

/-- The files that a program defines are those of its definitions. -/
theorem definedFiles_decoded (parts : UnitParts) (instructions : List Instruction) :
    (parts.decoded instructions).definedFiles =
      (instructions.filterMap Instruction.definition?).map (·.2) :=
  List.drop_left

/-- They are stored as they stand in the program. -/
theorem storedDefinitions_decoded {parts : UnitParts} (h : parts.IsUnit)
    (instructions : List Instruction) :
    (parts.decoded instructions).storedDefinitions =
      (instructions.filterMap Instruction.definition?).flatMap (·.1) := by
  obtain ⟨front, hfront⟩ := h.tables.exists_eq_concat
  have hlength : (parts.decoded instructions).header.tables.length - 1 = front.length := by
    simp [decoded, header, Span.length, hfront]
  rw [Program.storedDefinitions, hlength]
  simp only [decoded, hfront, extendTables_concat, List.append_assoc, List.drop_left,
    List.dropLast_concat]

end UnitParts

/-- Whether a program makes the rows and the definitions of one program and then those of another. -/
structure Program.Joins (first second whole : Program) : Prop where
  rows : whole.rows = first.rows ++ second.rows
  definedFiles : whole.definedFiles = first.definedFiles ++ second.definedFiles
  storedDefinitions :
    whole.storedDefinitions = first.storedDefinitions ++ second.storedDefinitions

namespace UnitParts

variable {parts : UnitParts} {p q : Bytes} {instructions : List Instruction}

/-- Whether a unit does what a program does and then what another unit does: it commits the rows of
both, up to where the other one fails, and it decodes where that does, with the definitions of both, and
otherwise gives the same error. -/
def Continues (first : Program) (back whole : UnitParts) : Prop :=
  whole.header.rows? whole.bytes =
      (back.header.rows? back.bytes).map
        (fun (rows, complete) => (first.rows ++ rows, complete)) ∧
    match Program.decode back.bytes with
    | .error e => Program.decode whole.bytes = .error e
    | .ok second => ∃ program, Program.decode whole.bytes = .ok program ∧
        Program.Joins first second program

/-- The program of a unit may be cut where a sequence ends. -/
theorem IsUnit.continues_withProgram_append (h : (parts.withProgram (p ++ q)).IsUnit)
    (hscan : Instruction.scan parts.header.instructionSet p = (instructions, true))
    (hends : instructions.getLast? = some (.extended .endSequence)) :
    ∃ first, Program.decode (parts.withProgram p).bytes = .ok first ∧
      Continues first (parts.withProgram q) (parts.withProgram (p ++ q)) := by
  have hp : (parts.withProgram p).IsUnit := h.withProgram_of_le (by simp)
  have hq : (parts.withProgram q).IsUnit := h.withProgram_of_le (by simp)
  -- whatever follows the end of the sequence starts from the initial registers
  obtain ⟨others, complete, hscanQ⟩ :
      ∃ others complete, Instruction.scan parts.header.instructionSet q = (others, complete) :=
    ⟨_, _, rfl⟩
  have hscanAll : Instruction.scan parts.header.instructionSet (p ++ q) =
      (instructions ++ others, complete) := by
    rw [Instruction.scan_append hscan, hscanQ]
  have hrun := Instruction.leads_of_endSequence (p := parts.params) hends
    (.initial parts.params.defaultIsStatement) others
  refine ⟨_, hp.decode_eq hscan, ?_, ?_⟩
  · rw [h.rows?_eq hscanAll, hq.rows?_eq hscanQ]
    exact congrArg (fun rows => some (rows, complete)) hrun
  · rw [h.decode_eq hscanAll, hq.decode_eq hscanQ]
    cases complete with
    | false => rfl
    | true =>
      refine ⟨_, rfl, hrun, ?_, ?_⟩
      · simp only [definedFiles_decoded, List.filterMap_append, List.map_append]
      · simp only [storedDefinitions_decoded h, storedDefinitions_decoded hp,
          storedDefinitions_decoded hq, List.filterMap_append, List.flatMap_append]

end UnitParts

/-! ## Writing -/

namespace Row

/-- Rows are written from the registers that the rows before them leave. -/
theorem assembleAll_append (p : Params) (last : Row) (front back : List Row) :
    assembleAll p last (front ++ back) =
      assembleAll p last front ++
        assembleAll p (front.foldl (fun _ row => row.registersAfter p) last) back := by
  induction front generalizing last with
  | nil => rfl
  | cons row front ih =>
    rw [List.cons_append, assembleAll, assembleAll, ih, List.append_assoc, List.foldl_cons]

end Row

/-- Sequences are written one behind the other. -/
theorem programBytes_append {front : List Row} (h : endsSequence front = true) (p : Params)
    (back : List Row) :
    programBytes p (front ++ back) = programBytes p front ++ programBytes p back := by
  have hregisters : front.foldl (fun _ row => row.registersAfter p) (.initial p.defaultIsStatement) =
      .initial p.defaultIsStatement := by
    cases front using List.reverseRecOn with
    | nil => rfl
    | append_singleton body stop =>
      have hstop : stop.endSequence = true := by simpa [endsSequence] using h
      rw [List.foldl_concat, Row.registersAfter, if_pos hstop]
  rw [programBytes, Row.assembleAll_append, hregisters, List.flatMap_append]
  rfl

/-- The instructions of a written unit. -/
def writtenProgram (tables unit : Bytes) : Bytes := unit.drop (15 + tables.length)

section

variable {version : UInt16} {p : Params} {tables : Bytes} {rows : List Row}

/-- The program of a written unit is that of its rows. -/
theorem writtenProgram_of_encodeUnit {unit : Bytes}
    (h : encodeUnit version p tables rows = .ok unit) :
    writtenProgram tables unit = programBytes p rows := by
  obtain ⟨-, -, headerLength, unitLength, -, -, rfl⟩ := encodeUnit_eq_ok_iff.mp h
  have hparams : p.bytes.length = 5 := rfl
  simp only [← List.append_assoc]
  refine List.drop_left' ?_
  simp only [List.length_append, length_bytesOfWord16, length_bytesOfWord32, hparams]

/-- A unit whose length does not fit its field is not written, and the error says so where the length
of the header is not at fault. -/
theorem encodeUnit_of_unitTooLarge (hfault : p.fault? = none) (hends : endsSequence rows = true)
    (htables : 5 + tables.length < 2 ^ 32)
    (hlength : 2 ^ 32 ≤ 11 + (tables ++ programBytes p rows).length) :
    encodeUnit version p tables rows = .error (.invalidHeader .unitTooLarge) := by
  -- the checks before the length pass, so no other error can come first
  cases hresult : encodeUnit version p tables rows with
  | ok unit =>
    obtain ⟨-, -, _, unitLength, -, hunit, -⟩ := encodeUnit_eq_ok_iff.mp hresult
    have := unitLength.toNat_lt
    omega
  | error e =>
    obtain ⟨headerLength, hheader⟩ := exists_word32 htables
    have hparams : p.bytes.length = 5 := rfl
    rw [← hparams, ← word32?_eq_some_iff] at hheader
    unfold encodeUnit at hresult
    simp only [hfault, hends, hheader, if_true] at hresult
    split at hresult
    · cases hresult
    · cases hresult
      rfl

/-- Behind the end of a sequence rows are written as they are alone. -/
theorem encodeUnit_append {front back : List Row} {unit : Bytes} (hends : endsSequence front = true)
    (h : encodeUnit version p tables back = .ok unit) :
    if 11 + tables.length + (programBytes p front).length + (programBytes p back).length < 2 ^ 32 then
      ∃ first whole, encodeUnit version p tables front = .ok first ∧
        encodeUnit version p tables (front ++ back) = .ok whole ∧
        writtenProgram tables whole = writtenProgram tables first ++ writtenProgram tables unit
    else encodeUnit version p tables (front ++ back) = .error (.invalidHeader .unitTooLarge) := by
  obtain ⟨hfault, hendsBack, headerLength, _, hheader, -, -⟩ := encodeUnit_eq_ok_iff.mp h
  have hbytes := programBytes_append hends p back
  have hendsAll : endsSequence (front ++ back) = true := by
    cases back with
    | nil => rwa [List.append_nil]
    | cons row rows => rwa [endsSequence_append_cons]
  have htables := headerLength.toNat_lt
  -- both encodings fit exactly where the whole does, since the front is no longer than it
  split
  · have hlength : 11 + (tables ++ programBytes p front).length < 2 ^ 32 := by
      rw [List.length_append]
      omega
    have hlengthAll : 11 + (tables ++ programBytes p (front ++ back)).length < 2 ^ 32 := by
      simp only [hbytes, List.length_append]
      omega
    obtain ⟨first, hfirst⟩ := exists_encodeUnit version hfault hends hlength
    obtain ⟨whole, hwhole⟩ := exists_encodeUnit version hfault hendsAll hlengthAll
    refine ⟨first, whole, hfirst, hwhole, ?_⟩
    rw [writtenProgram_of_encodeUnit hwhole, writtenProgram_of_encodeUnit hfirst,
      writtenProgram_of_encodeUnit h, hbytes]
  · refine encodeUnit_of_unitTooLarge hfault hendsAll (by omega) ?_
    simp only [hbytes, List.length_append]
    omega

end

/-- What comes behind the end of a sequence is read, run and written as if it stood alone. A unit whose
program is `p`, which ends a sequence, and then `q` commits the rows of `p` and then those that the
unit with the program `q` commits, up to where that fails; it decodes where that does, with the
definitions of both, and otherwise gives the same error. And the bytes that are written for rows that
end a sequence and then others are those for the former and then those for the latter, unless the unit
gets too long. -/
theorem endSequence_separates :
    (∀ (parts : UnitParts) (p q : Bytes) (instructions : List Instruction),
      (parts.withProgram (p ++ q)).IsUnit →
      Instruction.scan parts.header.instructionSet p = (instructions, true) →
      instructions.getLast? = some (.extended .endSequence) →
      ∃ first, Program.decode (parts.withProgram p).bytes = .ok first ∧
        UnitParts.Continues first (parts.withProgram q) (parts.withProgram (p ++ q))) ∧
    ∀ (version : UInt16) (p : Params) (tables : Bytes) (front back : List Row) (unit : Bytes),
      endsSequence front = true → encodeUnit version p tables back = .ok unit →
      if 11 + tables.length + (programBytes p front).length + (programBytes p back).length < 2 ^ 32
      then ∃ first whole, encodeUnit version p tables front = .ok first ∧
        encodeUnit version p tables (front ++ back) = .ok whole ∧
        writtenProgram tables whole = writtenProgram tables first ++ writtenProgram tables unit
      else encodeUnit version p tables (front ++ back) = .error (.invalidHeader .unitTooLarge) :=
  ⟨fun _ _ _ _ h hscan hends => h.continues_withProgram_append hscan hends,
    fun _ _ _ _ _ _ hends h => encodeUnit_append hends h⟩

/-- A unit with padding before its program. -/
def bareUnit : UnitParts where
  unitLength := 26
  version := 2
  headerLength := 20
  params := { minimumInstructionLength := 4, defaultIsStatement := false, lineBase := -3,
              lineRange := 12, opcodeBase := 13 }
  statement := 0
  tables := { operandCounts := [0, 1, 1, 1, 1, 0, 0, 0, 1, 0, 0, 1], directories := [], files := [] }
  storedTables := [0, 1, 1, 1, 1, 0, 0, 0, 1, 0, 0, 1] ++ [0, 0]
  padding := [9]
  program := []

/-- A program that changes the flag, the file and the discriminator and defines a file before it ends
its sequence, by an instruction with a byte behind its operands. -/
def changingProgram : Bytes :=
  [6] ++ [4, 2] ++ [0, 3, 4, 0x85, 0] ++ [0, 7, 3, 97, 0, 0, 0, 0, 5] ++ [200] ++ [0, 2, 1, 7]

/-- A program that lacks an operand behind its first row. -/
def cutProgram : Bytes := [1, 2]

/-- A program that changes all registers and ends its sequence, before one that is cut off. -/
theorem endSequence_separates_changingProgram :
    (bareUnit.withProgram (changingProgram ++ cutProgram)).IsUnit ∧
      (Instruction.scan bareUnit.header.instructionSet changingProgram).1.getLast? =
        some (.extended .endSequence) ∧
      (∃ first, Program.decode (bareUnit.withProgram changingProgram).bytes = .ok first ∧
        (bareUnit.withProgram (changingProgram ++ cutProgram)).header.rows?
            (bareUnit.withProgram (changingProgram ++ cutProgram)).bytes =
          some (first.rows ++ [.initial false], false)) ∧
      Program.decode (bareUnit.withProgram (changingProgram ++ cutProgram)).bytes =
        .error .truncated ∧
      ∃ first whole second, encodeUnit 3 steepParams smallTables jumpingRows = .ok first ∧
        encodeUnit 3 steepParams smallTables (jumpingRows ++ jumpingRows) = .ok whole ∧
        encodeUnit 3 steepParams smallTables jumpingRows = .ok second ∧
        writtenProgram smallTables whole =
          writtenProgram smallTables first ++ writtenProgram smallTables second := by
  have hunit : (bareUnit.withProgram (changingProgram ++ cutProgram)).IsUnit :=
    ⟨by decide, by decide, by decide, by decide, by decide, by decide, by decide,
      @Tables.Spells.mk _ bareUnit.tables [] [] rfl .nil .nil⟩
  have hcomplete : (Instruction.scan bareUnit.header.instructionSet changingProgram).2 = true := by
    decide +kernel
  have hends : (Instruction.scan bareUnit.header.instructionSet changingProgram).1.getLast? =
      some (.extended .endSequence) := by
    decide +kernel
  obtain ⟨first, hfirst, hrows, hdecode⟩ := endSequence_separates.1 bareUnit changingProgram
    cutProgram _ hunit (Prod.ext rfl hcomplete) hends
  have hcutRows : (bareUnit.withProgram cutProgram).header.rows?
      (bareUnit.withProgram cutProgram).bytes = some ([.initial false], false) := by
    decide +kernel
  have hcut : Program.decode (bareUnit.withProgram cutProgram).bytes = .error .truncated := by
    decide +kernel
  rw [hcutRows] at hrows
  rw [hcut] at hdecode
  obtain ⟨second, hsecond⟩ : ∃ second, encodeUnit 3 steepParams smallTables jumpingRows = .ok second :=
    Outcome.exists_of_isSome_toOption (by decide +kernel)
  have hwritten := endSequence_separates.2 3 steepParams smallTables jumpingRows jumpingRows second
    (by decide) hsecond
  rw [if_pos (by decide +kernel)] at hwritten
  obtain ⟨front, whole, hfront, hwhole, hprogram⟩ := hwritten
  exact ⟨hunit, hends, ⟨first, hfirst, hrows⟩, hdecode, front, whole, second, hfront, hwhole, hsecond,
    hprogram⟩

end DwarfLines
