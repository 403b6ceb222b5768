import DwarfLines.Proofs.Guarded.Assembly
import DwarfLines.Proofs.Guarded.Reduction
import DwarfLines.Proofs.Line.Section
import DwarfLines.Shrink

/-!
# Writing the programs of a section within bounds

A program has no more rows, and no more bytes in its tables, than its unit has room for. So what is
written of a program of a section can be counted, however its instructions were chosen.
-/

namespace DwarfLines

open Guarded

/-! ## Failures -/

namespace Guarded

variable {ε α β : Type} {R : α → β → Prop}

/-- A computation whose errors are causes of failures. -/
def withCause (cause : ε → Cause) (x : Guarded ε α) : Guarded Failure α :=
  ExceptT.adapt (fun e => .ofCause (cause e)) x

/-- A computation as a part of an activity. -/
def during (activity : Activity) (x : Guarded Failure α) : Guarded Failure α :=
  ExceptT.adapt (Failure.during activity) x

/-- Agreement survives wrapping an error of the DWARF parser. -/
theorem Agrees.ofDebug {x : Guarded DebugError α} {y : Except DebugError β} (h : Agrees R x y) :
    Agrees R (withCause .debug x) (Traced.ofDebug y).result := by
  have hresult : (Traced.ofDebug y).result = y.mapError fun e => .ofCause (.debug e) := by
    cases y <;> rfl
  rw [hresult]
  exact h.adapt _

/-- Agreement survives wrapping an error of the container. -/
theorem Agrees.ofElf {x : Guarded Elf.Error α} {y : Except Elf.Error β} (h : Agrees R x y) :
    Agrees R (withCause .elf x) (Traced.ofElf y).result := by
  have hresult : (Traced.ofElf y).result = y.mapError fun e => .ofCause (.elf e) := by
    cases y <;> rfl
  rw [hresult]
  exact h.adapt _

/-- Agreement survives naming the activity that failed. -/
theorem Agrees.during {activity : Activity} {x : Guarded Failure α} {y : Traced β}
    (h : Agrees R x y.result) : Agrees R (during activity x) (y.during activity).result :=
  h.adapt _

end Guarded

/-! ## Units -/

/-- The unit that starts at `offset`, with its length field. -/
def lineUnit (data : Bytes) (offset : UInt32) : Guarded DebugError Bytes := do
  if data.length < offset.toNat then throw (.lineOffsetOutOfBounds offset)
  let rest ← slice data offset.toNat data.length
  if rest.length < 4 then throw (.lineOffsetOutOfBounds offset)
  let unitLength := UInt32.ofNat (← digits rest 4)
  if wideFormatLength ≤ unitLength then throw .wideFormat
  let length ← add 64 4 unitLength.toNat
  if rest.length < length then throw .truncated
  slice rest 0 length

/-- The unit at an offset is cut out within bounds. -/
theorem agrees_lineUnit (data : Bytes) (offset : UInt32) :
    Agrees Eq (lineUnit data offset) (unitAt data offset) := by
  have hword (bytes : Bytes) : Decoder.word32 bytes = if 4 ≤ bytes.length then
      some (UInt32.ofNat (decodeLittleEndian (bytes.take 4)), bytes.drop 4) else none := by
    show (Decoder.take 4 bytes).bind _ = _
    rw [Decoder.take_eq]
    split <;> rfl
  unfold lineUnit unitAt takeUnit
  rw [hword]
  -- the checks come in the order of the source, each before the access it guards
  by_cases hoffset : data.length < offset.toNat
  · rw [if_pos hoffset, List.drop_of_length_le (Nat.le_of_lt hoffset)]
    exact .throw _
  have hrest : Span.slice ⟨offset.toNat, data.length⟩ data = data.drop offset.toNat :=
    List.take_of_length_le (Nat.le_of_eq List.length_drop)
  rw [if_neg hoffset, slice_eq (Nat.le_of_not_lt hoffset) (Nat.le_refl _), pure_bind, hrest]
  generalize data.drop offset.toNat = rest
  by_cases hshort : rest.length < 4
  · rw [if_pos hshort, if_neg (Nat.not_le_of_lt hshort)]
    exact .throw _
  rw [if_neg hshort, if_pos (Nat.le_of_not_lt hshort), digits_eq (Nat.le_of_not_lt hshort),
    pure_bind]
  generalize UInt32.ofNat (decodeLittleEndian (rest.take 4)) = unitLength
  have hlength := unitLength.toNat_lt
  refine .check fun _ => ?_
  rw [add_eq (by omega), pure_bind, Decoder.take_eq]
  by_cases hlong : rest.length < 4 + unitLength.toNat
  · rw [if_pos hlong, if_neg (Nat.not_le_of_lt hlong)]
    exact .throw _
  · rw [if_neg hlong, if_pos (Nat.le_of_not_lt hlong),
      slice_eq (Nat.zero_le _) (Nat.le_of_not_lt hlong)]
    exact .pure rfl

/-! ## Sizes -/

namespace Instruction

/-- The stored definition and the bytes after the instruction fit in the bytes it is read from. -/
theorem length_stored_le {set : InstructionSet} {bytes rest stored : Bytes} {entry : FileEntry}
    {instruction : Instruction} (h : decode set bytes = some (instruction, rest))
    (hdefinition : instruction.definition? = some (stored, entry)) :
    stored.length + rest.length ≤ bytes.length := by
  obtain ⟨body, hbody, hend⟩ := exists_body_of_definition? h hdefinition
  have hstored := (Extended.reads_of_decodeBody hbody).1.length_le
  have hlength := hend.length_le
  rw [List.length_append] at hlength
  omega

/-- A program has at most one instruction for each byte, and its definitions are no longer than its
bytes. -/
theorem scan_sizes (set : InstructionSet) (bytes : Bytes) :
    (scan set bytes).1.length ≤ bytes.length ∧
      (((scan set bytes).1.filterMap definition?).flatMap (·.1)).length ≤ bytes.length := by
  fun_induction scan set bytes with
  | case1 => simp
  | case2 => simp
  | case3 bytes hne instruction rest hi instructions complete hrest ih =>
    rw [hrest] at ih
    dsimp only at ih ⊢
    have hshorter := decode_shortens set _ _ _ hi
    -- one instruction takes at least one byte
    refine ⟨?_, ?_⟩
    · simp only [List.length_cons]
      omega
    · cases hdefinition : instruction.definition? with
      | none =>
        rw [List.filterMap_cons_none hdefinition]
        omega
      | some definition =>
        have hstored : definition.1.length + rest.length ≤ bytes.length :=
          length_stored_le hi hdefinition
        rw [List.filterMap_cons_some hdefinition, List.flatMap_cons, List.length_append]
        omega

end Instruction

/-- An instruction commits at most one row. -/
theorem length_run_le (p : Params) (registers : Row) (instructions : List Instruction) :
    (Instruction.run p registers instructions).length ≤ instructions.length := by
  induction instructions generalizing registers with
  | nil => exact Nat.le_refl _
  | cons instruction instructions ih =>
    rw [Instruction.run]
    obtain ⟨registers', committed⟩ := instruction.execute p registers
    have := ih registers'
    cases committed <;> simp <;> omega

/-- The pass keeps at most one row for each it reads. -/
theorem length_reduceAfter_le (kept rows : List Row) :
    (reduceAfter kept rows).length ≤ kept.length + rows.length := by
  fun_induction reduceAfter kept rows with
  | case1 kept => simp
  | case6 last row rows hend haddress before oldest hsame ih =>
    have hskipped := (List.dropWhile_sublist before.sameLocation (l := row :: rows)).length_le
    simp only [List.length_cons] at ih hskipped ⊢
    omega
  | _ =>
    rename_i ih
    simp only [List.length_cons, List.length_nil] at ih ⊢
    omega

/-- A program has no more rows than its unit has bytes, and its tables are at most twice as long. -/
theorem Program.sizes {unit : Bytes} {program : Program} (h : decode unit = .ok program) :
    program.rows.length ≤ unit.length ∧ program.tables.length ≤ 2 * unit.length + 1 := by
  obtain ⟨header, bytes, instructions, hheader, hbytes, hscan, rfl⟩ := decode_eq_ok_iff.mp h
  obtain ⟨hcount, hstored⟩ := Instruction.scan_sizes header.instructionSet bytes
  have hrows := length_run_le header.params (.initial header.params.defaultIsStatement) instructions
  -- whatever the header says, what is cut out of a unit is no longer than the unit
  have hslice (span : Span) : (span.slice unit).length ≤ unit.length := by
    rw [Span.slice, List.length_take, List.length_drop]
    omega
  have hlength : bytes.length ≤ unit.length := by
    rw [Span.slice?] at hbytes
    split at hbytes <;> cases hbytes
    exact hslice _
  have htables := hslice header.tables
  rw [hscan] at hcount hstored
  dsimp only at hcount hstored ⊢
  refine ⟨by omega, ?_⟩
  rw [extendTables]
  split
  · omega
  · simp only [List.length_append, List.length_dropLast, List.length_singleton]
    omega

/-! ## Programs -/

/-- Reads the line program that the unit at `unitOffset` refers to and writes it without its
redundant rows. -/
def shrinkProgramWithin (line : Bytes) (unitOffset : Nat) (lineOffset : UInt32) :
    Guarded Failure ShrunkProgram := do
  let unit ← during (.findingProgram unitOffset) (withCause .debug (lineUnit line lineOffset))
  let program ← during (.decodingProgram lineOffset.toNat) (withCause .debug (Program.scan unit))
  let rows ← Reducing.run program.rows
  let bytes ← during (.encodingProgram lineOffset.toNat)
    (withCause .debug
      (Writing.unit program.header.outputVersion program.header.params program.tables rows))
  return { unit, program, rows, bytes }

/-- A unit is no longer than the section it lies in. -/
theorem length_le_of_unitAt {line unit : Bytes} {offset : UInt32}
    (h : unitAt line offset = .ok unit) : unit.length ≤ line.length :=
  Nat.le_trans (Nat.le_add_left _ _) (stop_le_of_unitAt h)

/-- A program of a section is written within bounds. -/
theorem agrees_shrinkProgram {line : Bytes} (hline : line.length < 2 ^ 32) (unitOffset : Nat)
    (lineOffset : UInt32) :
    Agrees Eq (shrinkProgramWithin line unitOffset lineOffset)
      (shrinkProgram line unitOffset lineOffset).result := by
  unfold shrinkProgramWithin shrinkProgram
  simp only [Traced.result_bind]
  refine (agrees_lineUnit line lineOffset).ofDebug.during.bind ?_
  rintro unit _ hunit rfl
  -- the unit was cut out of a section below 2 ^ 32 bytes, which bounds everything that follows
  have hlength := length_le_of_unitAt
    (Outcome.result_ofDebug_eq_ok_iff.mp (Outcome.result_during_eq_ok_iff.mp hunit))
  have hdecode : Agrees Eq (Program.scan unit) (Program.decode unit) :=
    Program.agrees_scan (by omega)
  refine hdecode.ofDebug.during.bind ?_
  rintro program _ hprogram rfl
  obtain ⟨hrows, htables⟩ := Program.sizes
    (Outcome.result_ofDebug_eq_ok_iff.mp (Outcome.result_during_eq_ok_iff.mp hprogram))
  have hreduce := length_reduceAfter_le [] program.rows
  rw [List.length_nil, Nat.zero_add, ← reduce] at hreduce
  rw [Reducing.run_eq (by omega), pure_bind]
  refine (Writing.agrees_unit (by omega)).ofDebug.during.bind ?_
  rintro bytes _ - rfl
  exact .pure rfl

end DwarfLines
