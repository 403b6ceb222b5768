import DwarfLines.Proofs.Line.Shortest

/-!
# The plain form of a row

Every row can be written plainly: the registers that differ are set, line and address are advanced
one after the other, and the row is committed. What the writer gives for a row is meant to be no
longer than that. It is longer in two cases only. Where no special opcode leaves the line as it is, a
line that stays is advanced by nothing. And where the address is advanced by the constant first, and
no special opcode stands for what is left, that is advanced too, although one advance would have done.
-/

namespace DwarfLines

namespace Instruction

/-- The number of bytes that it takes to write some instructions. -/
def writtenLength (instructions : List Instruction) : Nat := (instructions.flatMap encode).length

@[simp]
theorem writtenLength_nil : writtenLength [] = 0 := rfl

@[simp]
theorem writtenLength_cons (i : Instruction) (instructions : List Instruction) :
    writtenLength (i :: instructions) = i.encode.length + writtenLength instructions := by
  simp [writtenLength]

@[simp]
theorem writtenLength_append (front back : List Instruction) :
    writtenLength (front ++ back) = writtenLength front + writtenLength back := by
  simp [writtenLength]

end Instruction

open Instruction

namespace Params

variable {p : Params} {lines : Int} {units : Nat}

/-- A row is committed by one byte, unless no special opcode stands for a line advance that is left
to be made. -/
theorem writtenLength_of_commit? {commit : List Instruction}
    (h : p.commit? lines units = some commit) :
    writtenLength commit = 1 ∨ (units = 0 ∧ lines ≠ 0 ∧ p.special? lines 0 = none ∧
      writtenLength commit = 2 + (Leb128.encodeSigned lines).length) := by
  unfold commit? at h
  split at h
  -- the branches come in the order of the search: a copy, a special opcode, a line advance, nothing
  · cases h
    exact .inl rfl
  · rename_i hsome
    split at h
    · cases h
      exact .inl rfl
    · rename_i hspecial
      split at h
      · rename_i hunits
        cases h
        refine .inr ⟨hunits, fun hlines => hsome ⟨hlines, hunits⟩, hunits ▸ hspecial, ?_⟩
        simp [encode]
        omega
      · cases h

/-- No committing opcode is found exactly where an address advance is left that no special opcode
covers. -/
theorem commit?_eq_none :
    p.commit? lines units = none ↔ units ≠ 0 ∧ p.special? lines units = none := by
  unfold commit?
  split
  · rename_i hzero
    simp [hzero.2]
  · cases p.special? lines units <;> simp

/-- Outside the window no special opcode is found. -/
theorem special?_eq_none_of_inWindow (h : p.inWindow lines = false) :
    p.special? lines units = none := by
  simp [special?, h]

/-! ## Against the plain form -/

/-- The plain way to commit a row at given advances of line and address. -/
def commitPlainly (lines : Int) (units : Nat) : List Instruction :=
  (if lines = 0 then [] else [.advanceLine lines]) ++
  (if units = 0 then [] else [.advanceAddress units]) ++ [.copy]

/-- Whether the address is advanced in two steps and the row not committed by a special opcode after
all, so that one step would have done. -/
structure SplitsInVain (p : Params) (lines : Int) (units : Nat) : Prop where
  far : p.constAddUnits < units
  near : units ≤ 2 * p.constAddUnits
  /-- No special opcode makes both advances after the first step. -/
  left : p.special? lines (units - p.constAddUnits) = none
  /-- None makes the line advance after the second. -/
  line : lines = 0 ∨ p.special? lines 0 = none
  /-- The second step takes as many bytes as the whole advance. -/
  length : (Leb128.encodeUnsigned (units - p.constAddUnits)).length =
    (Leb128.encodeUnsigned units).length

/-- The plain form takes one opcode and one operand for each advance that is not zero, and a `copy`.
-/
theorem writtenLength_commitPlainly (lines : Int) (units : Nat) :
    writtenLength (commitPlainly lines units) =
      (if lines = 0 then 0 else 1 + (Leb128.encodeSigned lines).length) +
      (if units = 0 then 0 else 1 + (Leb128.encodeUnsigned units).length) + 1 := by
  unfold commitPlainly
  split <;> split <;> simp [encode] <;> omega

/-- An advance by at most two constants takes at most two bytes. -/
theorem length_encodeUnsigned_le_two (h : units ≤ 2 * p.constAddUnits) :
    (Leb128.encodeUnsigned units).length ≤ 2 := by
  have : p.constAddUnits ≤ 255 := Nat.le_trans (Nat.div_le_self _ _) (Nat.sub_le _ _)
  exact Leb128.length_encodeUnsigned_le_of_lt (by omega) (by decide)

/-- Where no special opcode makes a line advance, a row is committed plainly once its address is
reached. -/
theorem commit?_eq_plainly (h : lines = 0 ∨ p.special? lines 0 = none) :
    p.commit? lines 0 = some (commitPlainly lines 0) := by
  unfold commit? commitPlainly
  by_cases hzero : lines = 0
  · simp [hzero]
  · simp [hzero, h.resolve_left hzero]

namespace Reaches

variable {instructions : List Instruction}

/-- A row takes a byte more than plainly if its address is advanced in two steps in vain. -/
theorem writtenLength_of_splits (h : p.Reaches lines units instructions)
    (hsplits : p.SplitsInVain lines units) :
    writtenLength instructions = writtenLength (commitPlainly lines units) + 1 := by
  obtain ⟨hfar, hnear, hleft, hline, hlength⟩ := hsplits
  -- the constant saves no byte of the operand here, so its own opcode is one too many
  cases h with
  | direct hfew | all _ hfew => omega
  | constant _ _ hcommit =>
    rw [commit?_eq_none.mpr ⟨by omega, hleft⟩] at hcommit
    cases hcommit
  | both _ _ _ hcommit =>
    rw [commit?_eq_plainly hline] at hcommit
    cases hcommit
    rw [writtenLength_cons, writtenLength_cons, writtenLength_commitPlainly,
      writtenLength_commitPlainly, if_pos rfl, if_neg (Nat.ne_zero_of_lt hfar)]
    simp only [encode, List.length_cons, List.length_nil, hlength]
    omega

/-- Otherwise a row takes no more bytes than plainly. -/
theorem writtenLength_le (h : p.Reaches lines units instructions)
    (hsplits : ¬ p.SplitsInVain lines units) :
    writtenLength instructions ≤ writtenLength (commitPlainly lines units) := by
  rw [writtenLength_commitPlainly]
  -- the four ways to get there differ in what leads the commit
  cases h with
  | direct _ hcommit =>
    obtain hone | ⟨rfl, hlines, -, htwo⟩ := writtenLength_of_commit? hcommit
    · omega
    · rw [if_neg hlines]
      omega
  | all hne _ hcommit =>
    rw [writtenLength_cons, if_neg hne, encode, List.length_cons]
    obtain hone | ⟨-, hlines, -, htwo⟩ := writtenLength_of_commit? hcommit
    · omega
    · rw [if_neg hlines]
      omega
  | constant hfar _ hcommit =>
    have hunits := Leb128.length_encodeUnsigned_pos units
    rw [writtenLength_cons, if_neg (Nat.ne_zero_of_lt hfar), encode, List.length_singleton]
    obtain hone | ⟨hzero, -⟩ := writtenLength_of_commit? hcommit <;> omega
  | both hfar hnear hnone hcommit =>
    have hmono := Leb128.length_encodeUnsigned_mono (Nat.sub_le units p.constAddUnits)
    have hleft := (commit?_eq_none.mp hnone).2
    -- the constant pays for itself where it makes the operand shorter
    have hshorter (hline : lines = 0 ∨ p.special? lines 0 = none) :
        (Leb128.encodeUnsigned (units - p.constAddUnits)).length ≠
          (Leb128.encodeUnsigned units).length :=
      fun hlength => hsplits ⟨hfar, hnear, hleft, hline, hlength⟩
    rw [writtenLength_cons, writtenLength_cons, if_neg (Nat.ne_zero_of_lt hfar), encode, encode,
      List.length_singleton, List.length_cons]
    obtain hone | ⟨-, hlines, hspecial, htwo⟩ := writtenLength_of_commit? hcommit
    · split
      · rename_i hzero
        have := hshorter (.inl hzero)
        omega
      · omega
    · have := hshorter (.inr hspecial)
      rw [if_neg hlines]
      omega

/-- Without special opcodes for a line that stays, a row takes no fewer bytes than plainly. -/
theorem le_writtenLength (hwindow : p.inWindow 0 = false) (h : p.Reaches 0 units instructions) :
    writtenLength (commitPlainly 0 units) ≤ writtenLength instructions := by
  -- outside the window no special opcode helps, so the address advance is written out in any case
  have hspecial (units : Nat) : p.special? 0 units = none := special?_eq_none_of_inWindow hwindow
  have hcommit_iff {units : Nat} {commit : List Instruction}
      (hcommit : p.commit? 0 units = some commit) : units = 0 ∧ commit = commitPlainly 0 0 := by
    by_cases hzero : units = 0
    · subst hzero
      rw [commit?_eq_plainly (.inl rfl)] at hcommit
      cases hcommit
      exact ⟨rfl, rfl⟩
    · rw [commit?_eq_none.mpr ⟨hzero, hspecial units⟩] at hcommit
      cases hcommit
  -- the only case with something to compare has both: the constant is small, its operand at most
  -- two bytes
  cases h with
  | direct _ hcommit =>
    obtain ⟨rfl, rfl⟩ := hcommit_iff hcommit
    exact Nat.le_refl _
  | all hne _ hcommit =>
    obtain ⟨-, rfl⟩ := hcommit_iff hcommit
    simp [commitPlainly, hne]
  | constant hfar _ hcommit =>
    have := (hcommit_iff hcommit).1
    omega
  | both hfar hnear _ hcommit =>
    obtain ⟨-, rfl⟩ := hcommit_iff hcommit
    have htwo := length_encodeUnsigned_le_two hnear
    have hone := Leb128.length_encodeUnsigned_pos (units - p.constAddUnits)
    simp only [writtenLength_cons, writtenLength_commitPlainly, encode, List.length_cons,
      List.length_nil, if_true, if_neg (Nat.ne_zero_of_lt hfar)]
    omega

end Reaches

/-- The line advance that is left once one outside the window was made. -/
def linesLeft (p : Params) (lines : Int) : Int := if p.inWindow lines then lines else 0

/-- Whether what commits a row takes more bytes than it does plainly. -/
inductive Wastes (p : Params) (lines : Int) (units : Nat) : Prop where
  | line : lines = 0 → p.inWindow 0 = false → Wastes p lines units
  | address : p.SplitsInVain (p.linesLeft lines) units → Wastes p lines units

/-- The emitted form is no longer than the plain form exactly where it does not split the address in
vain. -/
theorem Reaches.writtenLength_le_iff {instructions : List Instruction}
    (h : p.Reaches lines units instructions) :
    writtenLength instructions ≤ writtenLength (commitPlainly lines units) ↔
      ¬ p.SplitsInVain lines units := by
  refine ⟨fun hle hsplits => ?_, h.writtenLength_le⟩
  have := h.writtenLength_of_splits hsplits
  omega

/-- It is never longer by more than one byte. -/
theorem Reaches.writtenLength_le_add_one {instructions : List Instruction}
    (h : p.Reaches lines units instructions) :
    writtenLength instructions ≤ writtenLength (commitPlainly lines units) + 1 := by
  by_cases hsplits : p.SplitsInVain lines units
  · exact Nat.le_of_eq (h.writtenLength_of_splits hsplits)
  · exact Nat.le_succ_of_le (h.writtenLength_le hsplits)

/-- A line advance leads the plain form of the address advance alone. -/
theorem commitPlainly_of_ne_zero (hlines : lines ≠ 0) :
    commitPlainly lines units = .advanceLine lines :: commitPlainly 0 units := by
  simp [commitPlainly, hlines]

/-- What commits a row takes more bytes than it does plainly in the two cases of `Wastes` only, and
then at most three more. -/
theorem writtenLength_advanceAndCommit (p : Params) (lines : Int) (units : Nat) :
    (writtenLength (p.advanceAndCommit lines units) ≤ writtenLength (commitPlainly lines units) ↔
      ¬ p.Wastes lines units) ∧
    writtenLength (p.advanceAndCommit lines units) ≤
      writtenLength (commitPlainly lines units) + 3 := by
  -- first the loop on its own, then the line advance before it where the line is outside the window
  have hreaches := p.reaches_attempts (p.linesLeft lines) units
  have hiff := hreaches.writtenLength_le_iff
  have hbound := hreaches.writtenLength_le_add_one
  unfold advanceAndCommit
  cases hwindow : p.inWindow lines with
  | true =>
    have hleft : p.linesLeft lines = lines := by rw [linesLeft, if_pos hwindow]
    have hwastes : p.Wastes lines units ↔ p.SplitsInVain lines units := by
      refine ⟨fun h => ?_, fun h => .address (by rwa [hleft])⟩
      cases h with
      -- a line advance of zero outside the window is the other way to waste bytes
      | line hzero hnone =>
        rw [hzero, hnone] at hwindow
        cases hwindow
      | address h => rwa [hleft] at h
    rw [hleft] at hiff hbound
    rw [if_pos rfl, hwastes]
    exact ⟨hiff, by omega⟩
  | false =>
    have hleft : p.linesLeft lines = 0 := by rw [linesLeft, hwindow, if_neg Bool.false_ne_true]
    rw [hleft] at hreaches hiff hbound
    rw [if_neg Bool.false_ne_true, writtenLength_cons]
    by_cases hzero : lines = 0
    · subst hzero
      have hle := hreaches.le_writtenLength hwindow
      have htwo : (encode (.advanceLine 0)).length = 2 := by simp [encode, Leb128.encodeSigned]
      have hwastes : p.Wastes 0 units := .line rfl hwindow
      refine ⟨iff_of_false ?_ (not_not_intro hwastes), ?_⟩ <;> omega
    · have hwastes : p.Wastes lines units ↔ p.SplitsInVain 0 units := by
        refine ⟨fun h => ?_, fun h => .address (by rwa [hleft])⟩
        cases h with
        | line h => exact absurd h hzero
        | address h => rwa [hleft] at h
      rw [commitPlainly_of_ne_zero hzero, writtenLength_cons, hwastes]
      exact ⟨Nat.add_le_add_iff_left.trans hiff, by omega⟩

end Params

/-! ## Rows -/

namespace Row

/-- The instructions that take the registers from `last` to `row` plainly and commit the row. -/
def assemblePlainly (p : Params) (last row : Row) : List Instruction :=
  setRegisters last row ++
  (if last.linesTo row = 0 then [] else [.advanceLine (last.linesTo row)]) ++
  (match unitsTo? p last row with
    | none => [.extended (.setAddress row.address)]
    | some units => if units = 0 then [] else [.advanceAddress units]) ++
  [if row.endSequence then .extended .endSequence else .copy]

/-- The plain form of a row commits the row and nothing else. -/
theorem leads_assemblePlainly (p : Params) (last row : Row) (hlast : last.endSequence = false) :
    Leads p last (last.assemblePlainly p row) [row] (row.registersAfter p) := by
  -- the plain form sets the registers, then the line, then the address, and commits
  have hlines : Leads p
      { row with address := last.address, line := last.line, endSequence := last.endSequence }
      (if last.linesTo row = 0 then [] else [.advanceLine (last.linesTo row)]) []
      { row with address := last.address, endSequence := false } := by
    have hline := add_ofInt_linesTo last row
    refine .ite (fun hzero => ?_) fun _ => .of_execute ?_
    · rw [hzero] at hline
      simp_all
    · simp [execute, Row.advanceLine, hline, hlast]
  have haddress : Leads p { row with address := last.address, endSequence := false }
      (match unitsTo? p last row with
        | none => [.extended (.setAddress row.address)]
        | some units => if units = 0 then [] else [.advanceAddress units]) []
      { row with endSequence := false } := by
    split
    · exact .single (.extended (.setAddress row.address))
    · rename_i units hunits
      have haddress := address_of_unitsTo? hunits
      refine .ite (fun hzero => ?_) fun _ => .of_execute ?_
      · rw [hzero] at haddress
        simp_all
      · simp only [execute, Row.advance, haddress]
  refine (((leads_setRegisters last row).append hlines).append haddress).append ?_
  unfold registersAfter
  cases hend : row.endSequence with
  | true =>
    have hrow : { row with endSequence := true } = row := by rw [← hend]
    rw [← hrow]
    exact .single (.extended .endSequence)
  | false =>
    have hrow : { row with endSequence := false } = row := by rw [← hend]
    rw [← hrow]
    exact .single .copy

/-- Whether a row takes more bytes than it does plainly. -/
structure Wastes (p : Params) (last row : Row) : Prop where
  goesOn : row.endSequence = false
  commit : p.Wastes (last.linesTo row) ((unitsTo? p last row).getD 0)

/-- What a row takes plainly, in the order in which it is otherwise written. -/
theorem writtenLength_assemblePlainly (p : Params) (last row : Row) :
    writtenLength (last.assemblePlainly p row) =
      writtenLength (setRegisters last row) +
      writtenLength (if (unitsTo? p last row).isSome then []
        else [.extended (.setAddress row.address)]) +
      writtenLength ((if last.linesTo row = 0 then [] else [.advanceLine (last.linesTo row)]) ++
        (if (unitsTo? p last row).getD 0 = 0 then []
          else [.advanceAddress ((unitsTo? p last row).getD 0)]) ++
        [if row.endSequence then .extended .endSequence else .copy]) := by
  unfold assemblePlainly
  cases unitsTo? p last row <;>
    simp only [writtenLength_append, Option.isSome_none, Option.isSome_some, Option.getD_none,
      Option.getD_some, if_true, if_false, Bool.false_eq_true, writtenLength_nil] <;>
    omega

/-- A row takes no more bytes than it does plainly, but for the two cases of `Params.Wastes`, in which
it takes at most three more. -/
theorem writtenLength_assemble_le_iff (p : Params) (last row : Row) :
    (writtenLength (last.assemble p row) ≤ writtenLength (last.assemblePlainly p row) ↔
      ¬ last.Wastes p row) ∧
    writtenLength (last.assemble p row) ≤ writtenLength (last.assemblePlainly p row) + 3 := by
  rw [writtenLength_assemblePlainly]
  unfold assemble
  cases hend : row.endSequence with
  | true =>
    have hwastes : ¬ last.Wastes p row := fun h => by
      rw [h.goesOn] at hend
      cases hend
    simp only [if_true, writtenLength_append]
    exact ⟨iff_of_true (Nat.le_refl _) hwastes, Nat.le_add_right _ _⟩
  | false =>
    obtain ⟨hiff, hbound⟩ :=
      p.writtenLength_advanceAndCommit (last.linesTo row) ((unitsTo? p last row).getD 0)
    -- the two ways to write a row share everything but the commit
    have hwastes : last.Wastes p row ↔
        p.Wastes (last.linesTo row) ((unitsTo? p last row).getD 0) :=
      ⟨Wastes.commit, Wastes.mk hend⟩
    rw [if_neg Bool.false_ne_true, writtenLength_append, writtenLength_append, hwastes]
    exact ⟨Nat.add_le_add_iff_left.trans hiff, Nat.add_le_add_left hbound _⟩

/-- Parameters whose special opcodes leave the line as it is or move it either way. -/
def bothWaysParams : Params := ⟨1, true, -5, 14, 13⟩

/-- Parameters whose special opcodes all advance the line. -/
def forwardParams : Params := ⟨1, true, 1, 14, 13⟩

/-- Either case of waste, with parameters that programs are written with. Of 34 instruction lengths the
constant makes 17, and no special opcode makes the others and leaves the line as it is. And no special
opcode leaves the line as it is at all where the least line advance is 1. -/
theorem assemble_longer_than_plain :
    (bothWaysParams.fault? = none ∧
      assemble bothWaysParams (.initial true) { Row.initial true with address := 34 } =
        [.constAddAddress, .advanceAddress 17, .copy] ∧
      assemblePlainly bothWaysParams (.initial true) { Row.initial true with address := 34 } =
        [.advanceAddress 34, .copy] ∧
      writtenLength (assemblePlainly bothWaysParams (.initial true)
          { Row.initial true with address := 34 }) <
        writtenLength (assemble bothWaysParams (.initial true)
          { Row.initial true with address := 34 })) ∧
    forwardParams.fault? = none ∧
      assemble forwardParams (.initial true) (.initial true) = [.advanceLine 0, .copy] ∧
      assemblePlainly forwardParams (.initial true) (.initial true) = [.copy] ∧
      writtenLength (assemblePlainly forwardParams (.initial true) (.initial true)) <
        writtenLength (assemble forwardParams (.initial true) (.initial true)) := by
  decide +kernel

end Row

end DwarfLines
