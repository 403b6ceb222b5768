import DwarfLines.Proofs.Line.Assembly

/-!
# Special opcodes and what they stand for

A special opcode stands for one advance of the line and one of the address. The writer looks for the
opcode of two given advances. It finds one exactly if there is one, and no other opcode makes the same
advances: opcodes above the base are the pairs of a line advance in the window and an address advance,
counted off row by row.

The opcode that is looked for may be far beyond a byte. A machine that looks for it in words of 64 bits
checks each step that could leave them, and finds the same.
-/

namespace DwarfLines

/-- The number, if a signed word of 64 bits holds it. -/
def signedWord? (n : Int) : Option Int :=
  if -2 ^ 63 ≤ n ∧ n < 2 ^ 63 then some n else none

/-- The number, if a byte holds it. -/
def byte? (n : Int) : Option UInt8 :=
  if 0 ≤ n ∧ n < 256 then some (UInt8.ofNat n.toNat) else none

theorem signedWord?_bind_eq_some_iff {α : Type} {n : Int} {f : Int → Option α} {a : α} :
    signedWord? n >>= f = some a ↔ (-2 ^ 63 ≤ n ∧ n < 2 ^ 63) ∧ f n = some a := by
  unfold signedWord?
  split
  · rename_i h
    rw [and_iff_right h]
    rfl
  · rename_i h
    exact iff_of_false nofun fun hn => h hn.1

theorem byte?_eq_some_iff {n : Int} {b : UInt8} : byte? n = some b ↔ n = b.toNat := by
  unfold byte?
  constructor
  · intro h
    split at h
    · cases h
      rw [UInt8.toNat_ofNat']
      omega
    · cases h
  · rintro rfl
    have hb := b.toNat_lt
    rw [if_pos (by omega), Int.toNat_natCast, UInt8.ofNat_toNat]

namespace Params

/-- The special opcode that advances line and address by the given amounts, looked for in signed words
of 64 bits. -/
def specialInWords? (p : Params) (lines : Int64) (units : UInt64) : Option UInt8 :=
  if p.inWindow lines.toInt then do
    let units ← signedWord? units.toNat
    let rows ← signedWord? (p.lineRange.toNat * units)
    let offset ← signedWord? (lines.toInt - p.lineBase.toInt + rows)
    byte? (← signedWord? (offset + p.opcodeBase.toNat))
  else none

variable {p : Params}

theorem special?_eq_some_iff {lines : Int} {units : Nat} {opcode : UInt8} :
    p.special? lines units = some opcode ↔ p.inWindow lines = true ∧
      lines - p.lineBase.toInt + p.lineRange.toNat * units + p.opcodeBase.toNat = opcode.toNat := by
  unfold special?
  by_cases hwindow : p.inWindow lines = true
  -- inside the window the offset is a natural number, so only the range of the opcode is left to
  -- compare
  · have hlow := (inWindow_iff.mp hwindow).1
    rw [if_pos hwindow, and_iff_right hwindow]
    dsimp only
    constructor
    · intro h
      split at h
      · rename_i hfits
        cases h
        rw [UInt8.toNat_ofNat', Nat.mod_eq_of_lt hfits]
        omega
      · cases h
    · intro h
      have hopcode := opcode.toNat_lt
      have htotal : (lines - p.lineBase.toInt).toNat + p.lineRange.toNat * units +
          p.opcodeBase.toNat = opcode.toNat := by
        omega
      rw [htotal, if_pos hopcode, UInt8.ofNat_toNat]
  · rw [if_neg hwindow]
    exact iff_of_false nofun fun h => hwindow h.1

/-- Words of 64 bits are wide enough to find every special opcode. -/
theorem specialInWords?_eq (p : Params) (lines : Int64) (units : UInt64) :
    p.specialInWords? lines units = p.special? lines.toInt units.toNat := by
  apply Option.ext
  intro opcode
  rw [special?_eq_some_iff]
  unfold specialInWords?
  by_cases hwindow : p.inWindow lines.toInt = true
  · obtain ⟨hlow, hhigh⟩ := inWindow_iff.mp hwindow
    have hrange : 0 < p.lineRange.toNat := by omega
    have hunits : units.toNat ≤ p.lineRange.toNat * units.toNat := Nat.le_mul_of_pos_left _ hrange
    have hlimit := p.lineRange.toNat_lt
    have hbase := p.opcodeBase.toNat_lt
    rw [if_pos hwindow, signedWord?_bind_eq_some_iff, signedWord?_bind_eq_some_iff,
      signedWord?_bind_eq_some_iff, signedWord?_bind_eq_some_iff, byte?_eq_some_iff]
    constructor
    · rintro ⟨-, -, -, -, htotal⟩
      exact ⟨hwindow, htotal⟩
    · rintro ⟨-, htotal⟩
      -- The steps only grow towards the opcode, which is below 256.
      have hopcode := opcode.toNat_lt
      exact ⟨by omega, by omega, by omega, by omega, htotal⟩
  · simp [hwindow]

/-- Whether an opcode is a special one that stands for the given advances. -/
structure Makes (p : Params) (opcode : UInt8) (lines : Int) (units : Nat) : Prop where
  base_le : p.opcodeBase ≤ opcode
  lines_eq : p.specialLines opcode = lines
  units_eq : p.specialUnits opcode = units

theorem Makes.execute {opcode : UInt8} {lines : Int} {units : Nat} (h : p.Makes opcode lines units)
    (registers : Row) : (Instruction.special opcode).execute p registers =
      ((registers.advance p units).advanceLine lines,
        some ((registers.advance p units).advanceLine lines)) := by
  rw [Instruction.execute, h.lines_eq, h.units_eq]

/-- The opcode that is found is the one that makes the advances. -/
theorem special?_eq_some_iff_makes (hrange : p.lineRange ≠ 0) {lines : Int} {units : Nat}
    {opcode : UInt8} : p.special? lines units = some opcode ↔ p.Makes opcode lines units := by
  constructor
  · intro h
    obtain ⟨hbase, hunits, hlines⟩ := special?_eq_some h
    exact ⟨hbase, hlines, hunits⟩
  · rintro ⟨hbase, rfl, rfl⟩
    have hpos : 0 < p.lineRange.toNat := Nat.pos_of_ne_zero fun h => hrange (UInt8.toNat_inj.mp h)
    have hle := UInt8.le_iff_toNat_le.mp hbase
    have hmod := Nat.mod_lt (opcode.toNat - p.opcodeBase.toNat) hpos
    have hdiv := Nat.mod_add_div (opcode.toNat - p.opcodeBase.toNat) p.lineRange.toNat
    rw [special?_eq_some_iff, inWindow_iff, specialLines, specialUnits]
    refine ⟨⟨by omega, by omega⟩, ?_⟩
    omega

/-- A special opcode is found exactly if there is one that makes the advances, also in words of 64 bits.
The machine makes these advances when it executes the opcode, and no other opcode makes them. -/
theorem special?_isSome_iff_exists_makes (hrange : p.lineRange ≠ 0) (lines : Int64)
    (units : UInt64) :
    p.specialInWords? lines units = p.special? lines.toInt units.toNat ∧
    ((p.special? lines.toInt units.toNat).isSome = true ↔
      ∃ opcode, p.Makes opcode lines.toInt units.toNat) ∧
    ∀ opcode, p.special? lines.toInt units.toNat = some opcode →
      (∀ registers : Row, (Instruction.special opcode).execute p registers =
        ((registers.advance p units.toNat).advanceLine lines.toInt,
          some ((registers.advance p units.toNat).advanceLine lines.toInt))) ∧
      ∀ other, p.Makes other lines.toInt units.toNat ↔ other = opcode := by
  refine ⟨specialInWords?_eq p lines units, ?_, ?_⟩
  · rw [Option.isSome_iff_exists]
    exact exists_congr fun opcode => special?_eq_some_iff_makes hrange
  · intro opcode hopcode
    refine ⟨((special?_eq_some_iff_makes hrange).mp hopcode).execute, ?_⟩
    intro other
    rw [← special?_eq_some_iff_makes hrange, hopcode, Option.some.injEq, eq_comm]

/-- Parameters whose special opcodes only go back in the source. -/
def backwardParams : Params :=
  { minimumInstructionLength := 2, defaultIsStatement := true, lineBase := -10, lineRange := 7,
    opcodeBase := 13 }

/-- The only opcode of `backwardParams` that goes back five lines and on by thirty instructions. -/
theorem special?_isSome_iff_exists_makes_backwardParams :
    backwardParams.lineRange ≠ 0 ∧ backwardParams.special? (-5) 30 = some 228 ∧
      (∀ other, backwardParams.Makes other (-5) 30 ↔ other = 228) ∧
      ¬ ∃ opcode, backwardParams.Makes opcode 0 30 := by
  have hrange : backwardParams.lineRange ≠ 0 := by decide
  have hfound := special?_isSome_iff_exists_makes hrange (-5) 30
  have hnone := special?_isSome_iff_exists_makes hrange 0 30
  refine ⟨hrange, by decide, (hfound.2.2 228 (by decide)).2, ?_⟩
  intro hexists
  exact absurd (hnone.2.1.mpr hexists) (by decide)

end Params

end DwarfLines
