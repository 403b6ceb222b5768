import DwarfLines.Proofs.Line.Distances
import DwarfLines.Proofs.Line.PlainForm
import DwarfLines.Proofs.Line.SpecialOpcode

/-!
# What is written for a row

The writer first sets the registers that differ, then advances line and address, and commits the row.
Besides the opcode that commits the row it spends bytes on the line only where no special opcode makes
the line advance, and on the address only where none makes the rest of both advances. What it spends
on an advance is then no more than the advance takes by itself, unless it slips: it advances a line
that stays, or splits an address advance without getting a shorter one.
-/

namespace DwarfLines

open Instruction

namespace Params

variable {p : Params} {lines : Int} {units : Nat}

/-! ## Advances that special opcodes make -/

instance (p : Params) (opcode : UInt8) (lines : Int) (units : Nat) :
    Decidable (p.Makes opcode lines units) :=
  decidable_of_iff
    (p.opcodeBase ≤ opcode ∧ p.specialLines opcode = lines ∧ p.specialUnits opcode = units)
    ⟨fun ⟨hbase, hlines, hunits⟩ => ⟨hbase, hlines, hunits⟩,
      fun ⟨hbase, hlines, hunits⟩ => ⟨hbase, hlines, hunits⟩⟩

/-- Whether some special opcode stands for the advances. -/
def HasSpecial (p : Params) (lines : Int) (units : Nat) : Prop :=
  ∃ opcode, p.Makes opcode lines units

instance (p : Params) (lines : Int) (units : Nat) : Decidable (p.HasSpecial lines units) :=
  decidable_of_iff (∃ n : Fin 256, p.Makes (UInt8.ofNat n) lines units)
    ⟨fun ⟨n, hn⟩ => ⟨UInt8.ofNat n, hn⟩,
      fun ⟨opcode, h⟩ => ⟨⟨opcode.toNat, opcode.toNat_lt⟩, by rwa [UInt8.ofNat_toNat]⟩⟩

/-- No special opcode is found exactly where none covers the pair of advances. -/
theorem special?_eq_none_iff (hrange : p.lineRange ≠ 0) :
    p.special? lines units = none ↔ ¬ p.HasSpecial lines units := by
  rw [HasSpecial, Option.eq_none_iff_forall_ne_some, not_exists]
  exact forall_congr' fun opcode => not_congr (special?_eq_some_iff_makes hrange)

/-- Where some special opcode covers the advances, one is found. -/
theorem HasSpecial.exists_eq_some (hrange : p.lineRange ≠ 0) (h : p.HasSpecial lines units) :
    ∃ opcode, p.special? lines units = some opcode :=
  h.imp fun _ => (special?_eq_some_iff_makes hrange).mpr

/-- A special opcode only covers line advances in the window. -/
theorem HasSpecial.inWindow (hrange : p.lineRange ≠ 0) (h : p.HasSpecial lines units) :
    p.inWindow lines = true := by
  obtain ⟨opcode, hopcode⟩ := h.exists_eq_some hrange
  exact (special?_eq_some_iff.mp hopcode).1

/-- A special opcode advances the address by at most what `const_add_pc` does. -/
theorem HasSpecial.le_constAddUnits (h : p.HasSpecial lines units) : units ≤ p.constAddUnits := by
  obtain ⟨opcode, hopcode⟩ := h
  rw [← hopcode.units_eq]
  exact specialUnits_le_constAddUnits p opcode

/-- Opcodes are counted off by the address first: below an advance of the address that a special opcode
makes, there is one for every line advance in the window. -/
theorem HasSpecial.of_lt (hrange : p.lineRange ≠ 0) (h : p.HasSpecial lines units) {lines' : Int}
    {units' : Nat} (hwindow : p.inWindow lines' = true) (hlt : units' < units) :
    p.HasSpecial lines' units' := by
  obtain ⟨opcode, hopcode⟩ := h.exists_eq_some hrange
  obtain ⟨hlines, htotal⟩ := special?_eq_some_iff.mp hopcode
  have hlow := (inWindow_iff.mp hlines).1
  have hwindow' := inWindow_iff.mp hwindow
  have hrows : p.lineRange.toNat * units' + p.lineRange.toNat ≤ p.lineRange.toNat * units :=
    Nat.mul_le_mul_left p.lineRange.toNat hlt
  have hlimit := opcode.toNat_lt
  have hfits : (lines' - p.lineBase.toInt).toNat + p.lineRange.toNat * units' +
      p.opcodeBase.toNat < 256 := by
    omega
  by_contra hnone
  rw [← special?_eq_none_iff hrange, special?, if_pos hwindow, if_pos hfits] at hnone
  cases hnone

/-- Whether a row can only be written with an instruction that advances the line, as no special opcode
makes the line advance. A row that ends its sequence is not committed by a special opcode. -/
def NeedsLine (p : Params) (ends : Bool) (lines : Int) : Prop :=
  lines ≠ 0 ∧ (ends = true ∨ ¬ p.HasSpecial lines 0)

/-- Whether a row can only be written with an operand for its address advance, as no special opcode
makes both advances, or what is left of them once the constant is added. -/
def NeedsAddress (p : Params) (ends : Bool) (lines : Int) (units : Nat) : Prop :=
  ends = true ∨ ¬ (p.HasSpecial (p.linesLeft lines) units ∨
    p.constAddUnits < units ∧ p.HasSpecial (p.linesLeft lines) (units - p.constAddUnits))

/-- If a special opcode moves the address to where a row needs an operand for it, the row is at another
line, and where that needs an operand as well, the opcode moves the line. -/
theorem HasSpecial.not_both (hrange : p.lineRange ≠ 0) (h : p.HasSpecial lines units)
    (hunits : units ≠ 0) {lines' : Int} (hneeds : p.NeedsAddress false lines' units) :
    lines' ≠ lines ∧ (p.NeedsLine false lines' → lines ≠ 0) := by
  have hnone : ¬ p.HasSpecial (p.linesLeft lines') units :=
    fun hspecial => hneeds.resolve_left Bool.false_ne_true (.inl hspecial)
  constructor
  · rintro rfl
    rw [linesLeft, if_pos (h.inWindow hrange)] at hnone
    exact hnone h
  · rintro ⟨-, hline⟩ rfl
    cases hwindow : p.inWindow lines' with
    | true =>
      exact hline.resolve_left Bool.false_ne_true
        (h.of_lt hrange hwindow (Nat.pos_of_ne_zero hunits))
    | false =>
      rw [linesLeft, hwindow, if_neg Bool.false_ne_true] at hnone
      exact hnone h

instance (p : Params) (ends : Bool) (lines : Int) : Decidable (p.NeedsLine ends lines) :=
  inferInstanceAs (Decidable (_ ∧ _))

instance (p : Params) (ends : Bool) (lines : Int) (units : Nat) :
    Decidable (p.NeedsAddress ends lines units) :=
  inferInstanceAs (Decidable (_ ∨ _))

/-- Whether the writer takes a needless instruction to commit a row: it advances the line by nothing, or
it splits the address advance although it has to write the rest of it, which is no shorter. -/
inductive Slips (p : Params) (lines : Int) (units : Nat) : Prop where
  | line : lines = 0 → p.inWindow 0 = false → Slips p lines units
  | address : p.constAddUnits < units → units ≤ 2 * p.constAddUnits →
    ¬ p.HasSpecial (p.linesLeft lines) (units - p.constAddUnits) →
    (Leb128.encodeUnsigned (units - p.constAddUnits)).length = (Leb128.encodeUnsigned units).length →
    Slips p lines units

instance (p : Params) (lines : Int) (units : Nat) : Decidable (p.Slips lines units) :=
  decidable_of_iff (lines = 0 ∧ p.inWindow 0 = false ∨
      p.constAddUnits < units ∧ units ≤ 2 * p.constAddUnits ∧
      ¬ p.HasSpecial (p.linesLeft lines) (units - p.constAddUnits) ∧
      (Leb128.encodeUnsigned (units - p.constAddUnits)).length =
        (Leb128.encodeUnsigned units).length)
    ⟨fun h => h.elim (fun ⟨hzero, hwindow⟩ => .line hzero hwindow)
        fun ⟨hfar, hnear, hnone, hlength⟩ => .address hfar hnear hnone hlength,
      fun h => by
        cases h with
        | line hzero hwindow => exact .inl ⟨hzero, hwindow⟩
        | address hfar hnear hnone hlength => exact .inr ⟨hfar, hnear, hnone, hlength⟩⟩

/-- A row that takes more bytes than plainly is one at which the writer slips. -/
theorem Slips.of_wastes (hrange : p.lineRange ≠ 0) (h : p.Wastes lines units) :
    p.Slips lines units := by
  cases h with
  | line hzero hwindow => exact .line hzero hwindow
  | address h =>
    exact .address h.far h.near ((special?_eq_none_iff hrange).mp h.left) h.length

/-! ## The ways to commit a row -/

/-- The address advances that may be written before a row is committed, where the writer does not slip. -/
inductive Advances (p : Params) (units : Nat) : List Instruction → Prop where
  | nothing : Advances p units []
  | constant : p.constAddUnits < units → Advances p units [.constAddAddress]
  | all : units ≠ 0 → Advances p units [.advanceAddress units]
  | both {left : Nat} : p.constAddUnits < units →
    (Leb128.encodeUnsigned left).length < (Leb128.encodeUnsigned units).length →
    Advances p units [.constAddAddress, .advanceAddress left]

/-- The instructions that may be written to commit a row. -/
inductive Commits (p : Params) (lines : Int) : List Instruction → Prop where
  | copy : Commits p lines [.copy]
  | special (opcode : UInt8) : Commits p lines [.special opcode]
  | line : lines ≠ 0 → p.special? lines 0 = none → Commits p lines [.advanceLine lines, .copy]

/-- What the search for a committing opcode returns commits the row. -/
theorem commits_of_commit? {commit : List Instruction} (h : p.commit? lines units = some commit) :
    p.Commits lines commit := by
  unfold commit? at h
  split at h
  · cases h
    exact .copy
  · rename_i hsome
    split at h
    · cases h
      exact .special _
    · rename_i hspecial
      split at h
      · rename_i hunits
        cases h
        exact .line (fun hlines => hsome ⟨hlines, hunits⟩) (hunits ▸ hspecial)
      · cases h

/-- A special opcode commits a row if there is one for its advances. -/
theorem exists_commit? (hrange : p.lineRange ≠ 0) (h : p.HasSpecial lines units) :
    ∃ commit, p.commit? lines units = some commit := by
  obtain ⟨opcode, hopcode⟩ := h.exists_eq_some hrange
  apply Option.ne_none_iff_exists'.mp
  intro hnone
  rw [(commit?_eq_none.mp hnone).2] at hopcode
  cases hopcode

/-- A line advance outside the window of the special opcodes is made before the first attempt. -/
theorem advanceAndCommit_eq (p : Params) (lines : Int) (units : Nat) :
    p.advanceAndCommit lines units = (if p.inWindow lines then [] else [.advanceLine lines]) ++
      (p.attempts false (p.linesLeft lines) units).flatMap Attempt.instructions := by
  unfold advanceAndCommit linesLeft
  split <;> rfl

/-- Unless the writer slips, a row is committed after the address is advanced in one of four ways. -/
theorem exists_attempts (hrange : p.lineRange ≠ 0) (hslips : ¬ p.Slips lines units) :
    ∃ before commit, (p.attempts false (p.linesLeft lines) units).flatMap Attempt.instructions =
      before ++ commit ∧ p.Advances units before ∧ p.Commits (p.linesLeft lines) commit := by
  have hreaches := p.reaches_attempts (p.linesLeft lines) units
  generalize (p.attempts false (p.linesLeft lines) units).flatMap Attempt.instructions =
    instructions at hreaches
  cases hreaches with
  | direct _ hcommit => exact ⟨[], _, rfl, .nothing, commits_of_commit? hcommit⟩
  | all hne _ hcommit =>
    exact ⟨[.advanceAddress units], _, rfl, .all hne, commits_of_commit? hcommit⟩
  | constant hfar _ hcommit =>
    exact ⟨[.constAddAddress], _, rfl, .constant hfar, commits_of_commit? hcommit⟩
  | both hfar hnear hnone hcommit =>
    have hleft := (special?_eq_none_iff hrange).mp (commit?_eq_none.mp hnone).2
    have hle := Leb128.length_encodeUnsigned_mono (Nat.sub_le units p.constAddUnits)
    have hlt := Nat.lt_of_le_of_ne hle fun hlength => hslips (.address hfar hnear hleft hlength)
    exact ⟨[.constAddAddress, .advanceAddress _], _, rfl, .both hfar hlt, commits_of_commit? hcommit⟩

/-- Where a special opcode makes the advances, or what is left of them once the constant is added, a row
is committed without an operand for the address. -/
theorem exists_attempts_of_hasSpecial (hrange : p.lineRange ≠ 0)
    (h : ¬ p.NeedsAddress false lines units) :
    ∃ commit, (p.attempts false (p.linesLeft lines) units).flatMap Attempt.instructions =
      (if units ≤ p.constAddUnits then [] else [.constAddAddress]) ++ commit ∧
      p.Commits (p.linesLeft lines) commit := by
  rw [NeedsAddress, not_or, not_not] at h
  rcases h.2 with hspecial | ⟨hfar, hspecial⟩
  · have hfew := hspecial.le_constAddUnits
    have hlead : p.lead false units = ([], units) := by simp [lead, hfew]
    obtain ⟨commit, hcommit⟩ := exists_commit? hrange hspecial
    refine ⟨commit, ?_, commits_of_commit? hcommit⟩
    rw [attempts_of_commit (by rwa [hlead]), hlead, if_pos hfew]
  · have hnear := hspecial.le_constAddUnits
    have hlead : p.lead false units = ([.constAddAddress], units - p.constAddUnits) := by
      rw [lead, Bool.false_and, if_neg Bool.false_ne_true, if_neg (by omega), if_neg (by omega)]
    obtain ⟨commit, hcommit⟩ := exists_commit? hrange hspecial
    refine ⟨commit, ?_, commits_of_commit? hcommit⟩
    rw [attempts_of_commit (by rwa [hlead]), hlead, if_neg (by omega)]

namespace Advances

variable {before : List Instruction}

/-- An address advance is spent on the address alone. -/
theorem spent_eq_zero (h : p.Advances units before) {aspect : Aspect} (ha : aspect ≠ .address) :
    spent aspect before = 0 := by
  cases h <;> simp [Instruction.aspect, ha.symm]

/-- Without slips, an advance takes no more than it does with one operand. -/
theorem spent_le (h : p.Advances units before) :
    spent .address before ≤ if units = 0 then 0 else 1 + (Leb128.encodeUnsigned units).length := by
  cases h with
  | nothing => exact Nat.zero_le _
  | constant hfar =>
    rw [if_neg (Nat.ne_zero_of_lt hfar)]
    exact Nat.le_add_right _ _
  | all hne =>
    rw [if_neg hne]
    simp [aspect, encode, Nat.add_comm]
  | both hfar hlt =>
    rw [if_neg (Nat.ne_zero_of_lt hfar)]
    simp only [spent_cons, spent_nil, aspect, encode, if_true, List.length_cons, List.length_nil]
    omega

end Advances

namespace Commits

variable {commit : List Instruction}

/-- A commit is one byte, whichever of the two opcodes it is. -/
theorem spent_commit (h : p.Commits lines commit) : spent .commit commit = 1 := by
  cases h <;> simp [aspect, encode]

/-- A commit spends nothing on the line, or one `advance_line` where no special opcode covers the
line without an address advance. -/
theorem spent_line (h : p.Commits lines commit) : spent .line commit = 0 ∨
    (lines ≠ 0 ∧ p.special? lines 0 = none ∧
      spent .line commit = 1 + (Leb128.encodeSigned lines).length) := by
  cases h with
  | copy | special => exact .inl (by simp [aspect])
  | line hne hnone => exact .inr ⟨hne, hnone, by simp [aspect, encode, Nat.add_comm]⟩

/-- A commit spends nothing on the registers other than the line. -/
theorem spent_eq_zero (h : p.Commits lines commit) {aspect : Aspect} (hcommit : aspect ≠ .commit)
    (hline : aspect ≠ .line) : spent aspect commit = 0 := by
  cases h <;> simp [Instruction.aspect, hcommit.symm, hline.symm]

end Commits

end Params

/-- What is spent to take the registers to a row at a distance and to commit it, by aspects. -/
structure Closes (p : Params) (row : Row) (lines : Int) (units : Nat)
    (instructions : List Instruction) : Prop where
  commit : spent .commit instructions = commitLength row
  line : spent .line instructions = 0 ∨ (p.NeedsLine row.endSequence lines ∧
    spent .line instructions = 1 + (Leb128.encodeSigned lines).length)
  address : spent .address instructions ≤
    if units = 0 then 0 else 1 + (Leb128.encodeUnsigned units).length
  special : ¬ p.NeedsAddress row.endSequence lines units →
    spent .address instructions = if units ≤ p.constAddUnits then 0 else 1
  others : ∀ aspect, aspect ≠ .commit → aspect ≠ .line → aspect ≠ .address →
    spent aspect instructions = 0

namespace Closes

variable {p : Params} {row : Row} {lines : Int} {units : Nat}

/-- The last row of a sequence is closed by its two advances, each where it is not zero, and
`end_sequence`. -/
theorem of_end (hrow : row.endSequence = true) :
    Closes p row lines units ((if lines = 0 then [] else [.advanceLine lines]) ++
      (if units = 0 then [] else [.advanceAddress units]) ++ [.extended .endSequence]) where
  commit := by
    rw [commitLength, if_pos hrow]
    split <;> split <;> simp [aspect, length_encode_endSequence]
  line := by
    by_cases hlines : lines = 0
    · rw [if_pos hlines]
      exact .inl (by split <;> simp [aspect])
    · rw [if_neg hlines]
      refine .inr ⟨⟨hlines, .inl hrow⟩, ?_⟩
      split <;> simp [aspect, encode, Nat.add_comm]
  address := by
    split <;> split <;> simp [aspect, encode, Nat.add_comm]
  special hneeds := absurd (.inl hrow) hneeds
  others aspect hcommit hline haddress := by
    split <;> split <;>
      simp [Instruction.aspect, hcommit.symm, hline.symm, haddress.symm]

/-- A row is committed after the address is advanced, and the line if it has to be. -/
theorem of_advanceAndCommit (hrange : p.lineRange ≠ 0) (hrow : row.endSequence = false)
    (hslips : ¬ p.Slips lines units) : Closes p row lines units (p.advanceAndCommit lines units) := by
  obtain ⟨before, commit, heq, hbefore, hcommit⟩ := Params.exists_attempts hrange hslips
  have hspent (aspect : Aspect) : spent aspect (p.advanceAndCommit lines units) =
      spent aspect (if p.inWindow lines then [] else [.advanceLine lines]) +
        (spent aspect before + spent aspect commit) := by
    rw [p.advanceAndCommit_eq, heq, spent_append, spent_append]
  have hfirst {aspect : Aspect} (haspect : aspect ≠ .line) :
      spent aspect (if p.inWindow lines then [] else [.advanceLine lines]) = 0 := by
    split <;> simp [Instruction.aspect, haspect.symm]
  refine ⟨?_, ?_, ?_, ?_, ?_⟩
  · rw [hspent, hfirst (by decide), hbefore.spent_eq_zero (by decide), hcommit.spent_commit,
      commitLength, hrow]
    rfl
  -- A line advance outside the window has no special opcode, and leaves none to be made.
  · rw [hspent, hbefore.spent_eq_zero (by decide), hrow]
    cases hwindow : p.inWindow lines with
    | true =>
      rw [Params.linesLeft, if_pos hwindow] at hcommit
      rw [if_pos rfl, spent_nil, Nat.zero_add, Nat.zero_add]
      rcases hcommit.spent_line with hzero | ⟨hne, hnone, hlength⟩
      · exact .inl hzero
      · exact .inr ⟨⟨hne, .inr ((Params.special?_eq_none_iff hrange).mp hnone)⟩, hlength⟩
    | false =>
      rw [Params.linesLeft, hwindow, if_neg Bool.false_ne_true] at hcommit
      have hnone : spent .line commit = 0 := hcommit.spent_line.resolve_right fun h => h.1 rfl
      rw [if_neg Bool.false_ne_true, hnone]
      refine .inr ⟨⟨?_, .inr fun hspecial => ?_⟩, ?_⟩
      · rintro rfl
        exact hslips (.line rfl hwindow)
      · rw [hspecial.inWindow hrange] at hwindow
        cases hwindow
      · simp [aspect, encode, Nat.add_comm]
  · rw [hspent, hfirst (by decide), hcommit.spent_eq_zero (by decide) (by decide), Nat.zero_add,
      Nat.add_zero]
    exact hbefore.spent_le
  · intro hneeds
    rw [hrow] at hneeds
    obtain ⟨commit', heq', hcommit'⟩ := Params.exists_attempts_of_hasSpecial hrange hneeds
    rw [p.advanceAndCommit_eq, heq', spent_append, spent_append, hfirst (by decide),
      hcommit'.spent_eq_zero (by decide) (by decide)]
    split <;> simp [aspect, encode]
  · intro aspect hc hl ha
    rw [hspent, hfirst hl, hbefore.spent_eq_zero ha, hcommit.spent_eq_zero hc hl]

end Closes

/-! ## The aspects of what is written -/

namespace Row

/-- Whether the writer slips at a row. It cannot at one that ends its sequence. -/
structure Slips (p : Params) (last row : Row) : Prop where
  goesOn : row.endSequence = false
  commit : p.Slips (last.linesTo row) ((unitsTo? p last row).getD 0)

instance (p : Params) (last row : Row) : Decidable (last.Slips p row) :=
  decidable_of_iff (row.endSequence = false ∧
      p.Slips (last.linesTo row) ((unitsTo? p last row).getD 0))
    ⟨fun ⟨hrow, hcommit⟩ => ⟨hrow, hcommit⟩, fun ⟨hrow, hcommit⟩ => ⟨hrow, hcommit⟩⟩

variable {p : Params} {last row : Row}

/-- What setting the registers spends on each of them: nothing where it already holds. -/
theorem spent_setRegisters (aspect : Aspect) (last row : Row) :
    spent aspect (last.setRegisters row) =
      match aspect with
      | .statement => if row.isStatement = last.isStatement then 0 else 1
      | .discriminator => if row.discriminator = last.discriminator then 0
          else (extended (.setDiscriminator row.discriminator.toNat)).encode.length
      | .file => if row.file = last.file then 0 else (setFile row.file.toNat).encode.length
      | .column => if row.column = last.column then 0 else (setColumn row.column.toNat).encode.length
      | .address | .line | .commit | .none => 0 := by
  simp only [setRegisters, spent_append, apply_ite (spent aspect), spent_cons, spent_nil]
  cases aspect <;> simp [Instruction.aspect, encode]

section

variable (hrange : p.lineRange ≠ 0) (hslips : ¬ last.Slips p row)
include hrange hslips

/-- The instructions for a row set the registers, then the address where it cannot be advanced, and
close. -/
theorem exists_closes :
    ∃ closing, Closes p row (last.linesTo row) ((unitsTo? p last row).getD 0) closing ∧
      ∀ aspect, spent aspect (last.assemble p row) = spent aspect (last.setRegisters row) +
        (if unitsTo? p last row = none ∧ aspect = .address then 7 else 0) +
        spent aspect closing := by
  have hset (aspect : Aspect) : spent aspect (if (unitsTo? p last row).isSome then []
      else [.extended (.setAddress row.address)]) =
      if unitsTo? p last row = none ∧ aspect = .address then 7 else 0 := by
    cases unitsTo? p last row <;>
      simp [Instruction.aspect, length_encode_setAddress, eq_comm]
  cases hrow : row.endSequence with
  | true =>
    refine ⟨_, .of_end hrow, fun aspect => ?_⟩
    simp only [assemble, if_pos hrow, spent_append, hset]
  | false =>
    have hcommit : ¬ p.Slips (last.linesTo row) ((unitsTo? p last row).getD 0) :=
      fun h => hslips ⟨hrow, h⟩
    refine ⟨_, .of_advanceAndCommit hrange hrow hcommit, fun aspect => ?_⟩
    simp only [assemble, hrow, if_neg Bool.false_ne_true, spent_append, hset]

/-- The registers that only one instruction is about are set if they differ. -/
theorem spent_assemble {aspect : Aspect} (hcommit : aspect ≠ .commit) (hline : aspect ≠ .line)
    (haddress : aspect ≠ .address) :
    spent aspect (last.assemble p row) = spent aspect (last.setRegisters row) := by
  obtain ⟨closing, hcloses, hassemble⟩ := exists_closes hrange hslips
  simp [hassemble, hcloses.others aspect hcommit hline haddress, haddress]

/-- The bytes that commit a row depend on nothing but whether it ends its sequence. -/
theorem spent_commit_assemble : spent .commit (last.assemble p row) = commitLength row := by
  obtain ⟨closing, hcloses, hassemble⟩ := exists_closes hrange hslips
  simp [hassemble, spent_setRegisters, ← hcloses.commit]

/-- The line is advanced only where it has to be, and then at once. -/
theorem spent_line_assemble : spent .line (last.assemble p row) = 0 ∨
    (p.NeedsLine row.endSequence (last.linesTo row) ∧ spent .line (last.assemble p row) =
      1 + (Leb128.encodeSigned (last.linesTo row)).length) := by
  obtain ⟨closing, hcloses, hassemble⟩ := exists_closes hrange hslips
  simpa [hassemble, spent_setRegisters] using hcloses.line

/-- An address that can be advanced to takes no more than the advance does in one, and no operand where
a special opcode makes what the constant leaves. -/
theorem spent_address_assemble {units : Nat} (hunits : unitsTo? p last row = some units) :
    spent .address (last.assemble p row) ≤
        (if units = 0 then 0 else 1 + (Leb128.encodeUnsigned units).length) ∧
      (¬ p.NeedsAddress row.endSequence (last.linesTo row) units →
        spent .address (last.assemble p row) = if units ≤ p.constAddUnits then 0 else 1) := by
  obtain ⟨closing, hcloses, hassemble⟩ := exists_closes hrange hslips
  rw [hunits, Option.getD_some] at hcloses
  simpa [hassemble, spent_setRegisters, hunits] using And.intro hcloses.address hcloses.special

/-- Getting to an address takes no more than setting it. -/
theorem spent_address_assemble_le_seven : spent .address (last.assemble p row) ≤ 7 := by
  cases hunits : unitsTo? p last row with
  | none =>
    obtain ⟨closing, hcloses, hassemble⟩ := exists_closes hrange hslips
    have haddress := hcloses.address
    rw [hunits, Option.getD_none, if_pos rfl, Nat.le_zero] at haddress
    simp [hassemble, spent_setRegisters, hunits, haddress]
  | some units =>
    have hlt := unitsTo?_getD_lt (p := p) last row
    rw [hunits, Option.getD_some] at hlt
    have hle := (spent_address_assemble hrange hslips hunits).1
    have hlength : (Leb128.encodeUnsigned units).length ≤ 5 :=
      Leb128.length_encodeUnsigned_le (Nat.lt_trans hlt (by decide))
    split at hle <;> omega

end

end Row

end DwarfLines
