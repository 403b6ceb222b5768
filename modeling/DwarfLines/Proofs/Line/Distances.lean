import DwarfLines.Proofs.Line.Spending

/-!
# How far a program gets with its bytes

The instructions that lead to a row advance the line and the address by what their advances add up
to, unless the address is set or a register wraps. How long the sum of some advances is in writing is
bounded by what the program spent on them. Advances with operands take no more bytes in one. An advance
that is implied by an opcode takes no bytes of its own, and may need some where it is no longer
implied.
-/

namespace DwarfLines

namespace Instruction

/-! ## Address and line -/

/-- How far an instruction advances the address, in instruction lengths. -/
def units (p : Params) : Instruction → Nat
  | special opcode => p.specialUnits opcode
  | advanceAddress units => units
  | constAddAddress => p.constAddUnits
  | copy | advanceLine _ | setFile _ | setColumn _ | negateStatement | fixedAdvanceAddress _
  | extended _ | other _ _ => 0

/-- How far an instruction advances the line. -/
def lines (p : Params) : Instruction → Int
  | special opcode => p.specialLines opcode
  | advanceLine delta => delta
  | _ => 0

/-- What it may take, besides the bytes of an instruction, to reach the address that it leads to. An
advance that is not by instruction lengths, or passes the largest address, can only be written by
setting the address. -/
def addressHazard (p : Params) (registers : Row) : Instruction → Nat
  | fixedAdvanceAddress _ => 4
  | i =>
    if registers.address.toNat + i.units p * p.minimumInstructionLength.toNat < 2 ^ 32 then 0 else 7

/-- What it may take, besides the bytes of an instruction, to reach the line that it leads to: an
advance past the end of the lines can only be written by the way back. -/
def lineHazard (p : Params) (registers : Row) (i : Instruction) : Nat :=
  if -2 ^ 31 ≤ registers.line.toInt + i.lines p ∧ registers.line.toInt + i.lines p < 2 ^ 31 then 0
  else 9

/-- The number of rows that some instructions commit. -/
def commits (instructions : List Instruction) : Nat := totalOn .commit (fun _ => 1) instructions

section

variable {p : Params} {registers next row : Row} {i : Instruction} {instructions : List Instruction}

/-- An instruction advances the line, a word that wraps. -/
theorem line_execute (hi : i ≠ .extended .endSequence) :
    (i.execute p registers).1.line = registers.line + Int32.ofInt (i.lines p) := by
  cases i with
  | special | advanceLine => rfl
  | extended instruction => cases instruction <;> first | exact absurd rfl hi | simp [execute, lines]
  | _ => simp [execute, lines, Row.advance]

/-- A row is committed at the line that its instruction leads to. -/
theorem line_committed (h : i.execute p registers = (next, some row)) :
    row.line = registers.line + Int32.ofInt (i.lines p) := by
  cases i with
  | special => cases h; rfl
  | copy => cases h; simp [lines]
  | extended instruction =>
    cases instruction <;> cases h
    simp [lines]
  | _ => cases h

/-- A line advance within the lines does not wrap. -/
theorem toInt_add_ofInt {line : Int32} {delta : Int}
    (h : -2 ^ 31 ≤ line.toInt + delta ∧ line.toInt + delta < 2 ^ 31) :
    (line + Int32.ofInt delta).toInt = line.toInt + delta := by
  have hsize : (Int32.size : Int) = 2 ^ 32 := rfl
  rw [Int32.toInt_add, Int32.toInt_ofInt, Int.add_bmod_bmod, Int.bmod_eq_of_le] <;> omega

/-- If no instruction passes the end of the lines, the line is where the advances add up to. -/
theorem LeadsTo.line (h : LeadsTo p registers instructions row) :
    9 ≤ along p (lineHazard p) registers instructions ∨
      row.line.toInt = registers.line.toInt + (instructions.map (lines p)).sum := by
  -- along the run; an advance that leaves the 64 bits of the line is a hazard, and pays for the
  -- whole bound
  induction h with
  | @last registers next row i hexecute =>
    rw [along, lineHazard]
    split
    · rename_i hfits
      rw [line_committed hexecute, toInt_add_ofInt hfits]
      simp
    · exact .inl (Nat.le_add_right _ _)
  | @cons registers row i instructions hi _ ih =>
    rw [along, lineHazard]
    split
    · rename_i hfits
      rw [line_execute hi, toInt_add_ofInt hfits] at ih
      rw [List.map_cons, List.sum_cons]
      omega
    · exact .inl (Nat.le_add_right _ _)

/-- An address advance below the limit does not wrap. -/
theorem toNat_address_advance {n : Nat}
    (h : registers.address.toNat + n * p.minimumInstructionLength.toNat < 2 ^ 32) :
    (registers.advance p n).address.toNat =
      registers.address.toNat + n * p.minimumInstructionLength.toNat := by
  rw [Row.advance, UInt32.toNat_add, UInt32.toNat_ofNat']
  omega

/-- A row is committed at the address that its instruction leads to. -/
theorem address_committed (h : i.execute p registers = (next, some row)) :
    row.address = (registers.advance p (i.units p)).address := by
  cases i with
  | special => cases h; rfl
  | copy => cases h; simp [units]
  | extended instruction =>
    cases instruction <;> cases h
    simp [units]
  | _ => cases h

theorem addressHazard_of_ne (registers : Row) (hi : ∀ delta, i ≠ .fixedAdvanceAddress delta) :
    addressHazard p registers i =
      if registers.address.toNat + i.units p * p.minimumInstructionLength.toNat < 2 ^ 32 then 0
      else 7 := by
  cases i <;> first | rfl | exact absurd rfl (hi _)

/-- An instruction advances the address by instruction lengths, or there is enough to set it. -/
theorem address_execute (registers : Row) (hi : i ≠ .extended .endSequence) :
    7 ≤ spent .address [i] + addressHazard p registers i ∨
      (i.execute p registers).1.address.toNat =
        registers.address.toNat + i.units p * p.minimumInstructionLength.toNat := by
  -- all instructions but two advance the address by their units, as far as the address has room
  have hadvance (hne : ∀ delta, i ≠ .fixedAdvanceAddress delta)
      (h : (i.execute p registers).1.address = (registers.advance p (i.units p)).address) :
      7 ≤ spent .address [i] + addressHazard p registers i ∨
        (i.execute p registers).1.address.toNat =
          registers.address.toNat + i.units p * p.minimumInstructionLength.toNat := by
    rw [addressHazard_of_ne registers hne]
    split
    · rename_i hfits
      rw [h]
      exact .inr (toNat_address_advance hfits)
    · exact .inl (Nat.le_add_left _ _)
  cases i with
  -- two bytes of operand say nothing of the distance they go, so they pay by their hazard
  | fixedAdvanceAddress delta => exact .inl (by simp [aspect, encode, addressHazard])
  | extended instruction =>
    cases instruction with
    | setAddress address => exact .inl (by simp [aspect, length_encode_setAddress])
    | endSequence => exact absurd rfl hi
    | _ => exact hadvance (by simp) (by simp [execute, units])
  | _ => exact hadvance (by simp) (by simp [execute, units, Row.advance, Row.advanceLine])

/-- If no instruction sets the address or takes it past the largest one, the address is where the
advances add up to. -/
theorem LeadsTo.address (h : LeadsTo p registers instructions row) :
    7 ≤ spent .address instructions + along p (addressHazard p) registers instructions ∨
      row.address.toNat = registers.address.toNat +
        (instructions.map (units p)).sum * p.minimumInstructionLength.toNat := by
  -- the last instruction commits, so it is not one of the two whose address is unknown
  induction h with
  | @last registers next row i hexecute =>
    have hi : ∀ delta, i ≠ .fixedAdvanceAddress delta := by
      rintro delta rfl
      cases hexecute
    rw [along, addressHazard_of_ne registers hi]
    split
    · rename_i hfits
      rw [address_committed hexecute, toNat_address_advance hfits]
      simp
    · exact .inl (by omega)
  | @cons registers row i instructions hi _ ih =>
    rw [← List.singleton_append, spent_append, List.singleton_append, along, List.map_cons,
      List.sum_cons, Nat.add_mul]
    have := address_execute (p := p) registers hi
    omega

/-! ## How far some bytes go -/

/-- Each instruction takes a byte at least. -/
theorem length_encode_pos (i : Instruction) : 0 < i.encode.length := by
  cases i <;> simp [encode]

/-- Each row that is committed before takes a byte. -/
theorem LeadsTo.commit (h : LeadsTo p registers instructions row)
    (hopen : registers.endSequence = false) :
    0 < commits instructions ∧
      commitLength row + commits instructions ≤ spent .commit instructions + 1 := by
  induction h with
  | @last registers next row i hexecute =>
    obtain ⟨-, haspect, hlength, -⟩ := execute_eq_some hexecute hopen
    simp [commits, haspect, hlength]
  | @cons registers row i instructions hi _ ih =>
    have hpos := i.length_encode_pos
    have := ih (endSequence_execute i hopen)
    simp only [commits, totalOn_cons, spent_cons] at this ⊢
    split <;> omega

/-- A special opcode that commits the only row commits one that goes on. -/
theorem LeadsTo.endSequence_eq_false (h : LeadsTo p registers instructions row)
    (hopen : registers.endSequence = false) {opcode : UInt8} (hmem : special opcode ∈ instructions)
    (hcommits : commits instructions = 1) : row.endSequence = false := by
  induction h with
  | last hexecute =>
    obtain rfl := List.mem_singleton.mp hmem
    cases hexecute
    exact hopen
  | @cons registers row i instructions _ hleads ih =>
    have hopen' := endSequence_execute (p := p) i hopen
    have hpos := (hleads.commit hopen').1
    -- a commit is still to come, so this instruction is none
    have hnone : commits [i] = 0 := by
      have hadd : commits (i :: instructions) = commits [i] + commits instructions := by
        simp [commits]
      omega
    rcases List.mem_cons.mp hmem with rfl | hmem
    · cases hnone
    · refine ih hopen' hmem ?_
      simp only [commits, totalOn_cons, totalOn_nil, Nat.add_zero] at hcommits hnone ⊢
      omega

/-- No special opcode advances the address by more than 246 instruction lengths. -/
theorem specialUnits_le (hbase : 9 ≤ p.opcodeBase) (opcode : UInt8) : p.specialUnits opcode ≤ 246 := by
  have hle := UInt8.le_iff_toNat_le.mp hbase
  have hlt := opcode.toNat_lt
  calc (opcode.toNat - p.opcodeBase.toNat) / p.lineRange.toNat
      ≤ opcode.toNat - p.opcodeBase.toNat := Nat.div_le_self _ _
    _ ≤ 246 := by
      have : (9 : UInt8).toNat = 9 := rfl
      omega

/-- The constant is at most 246. -/
theorem constAddUnits_le (hbase : 9 ≤ p.opcodeBase) : p.constAddUnits ≤ 246 :=
  specialUnits_le hbase 255

/-- No special opcode advances the line by more than 382. -/
theorem natAbs_specialLines_le (opcode : UInt8) : (p.specialLines opcode).natAbs ≤ 382 := by
  have hlow := p.lineBase.le_toInt
  have hhigh := p.lineBase.toInt_lt
  have hrange := p.lineRange.toNat_lt
  have hopcode := opcode.toNat_lt
  -- a range of zero is not excluded here: the remainder is the opcode itself, still a byte
  have hrest : (opcode.toNat - p.opcodeBase.toNat) % p.lineRange.toNat ≤ 255 := by
    rcases Nat.eq_zero_or_pos p.lineRange.toNat with hzero | hpos
    · rw [hzero, Nat.mod_zero]
      omega
    · have := Nat.mod_lt (opcode.toNat - p.opcodeBase.toNat) hpos
      omega
  rw [Params.specialLines]
  omega

theorem commits_cons (i : Instruction) (instructions : List Instruction) :
    commits (i :: instructions) = commits [i] + commits instructions := by
  simp [commits]

theorem spent_cons_eq_add (aspect : Aspect) (i : Instruction) (instructions : List Instruction) :
    spent aspect (i :: instructions) = spent aspect [i] + spent aspect instructions :=
  spent_append [i] instructions

/-- How far one instruction advances the address, against the bytes that it spends on it and the row
that it commits. The factor stands for the bytes that follow. -/
theorem units_add_le (hbase : 9 ≤ p.opcodeBase) (i : Instruction) {x : Nat} (hx : 0 < x) :
    i.units p + 2 * x ≤ 246 * commits [i] + 2 * (128 ^ spent .address [i] * x) := by
  -- an operand of `n` bytes holds less than 128 ^ n, the opcode adds one byte more
  have hpow (k : Nat) : 0 < 128 ^ k := Nat.pow_pos (by decide)
  have hgrows := Nat.le_mul_of_pos_left x (hpow (spent .address [i]))
  cases i with
  | special opcode =>
    have hunits := specialUnits_le hbase opcode
    have hcommits : commits [special opcode] = 1 := rfl
    rw [units]
    omega
  | constAddAddress =>
    have hunits := constAddUnits_le hbase
    have hspent : spent .address [constAddAddress] = 1 := rfl
    rw [units, hspent]
    omega
  | advanceAddress n =>
    have hn := Leb128.lt_pow_length_encodeUnsigned n
    have hspent : spent .address [advanceAddress n] = (Leb128.encodeUnsigned n).length + 1 := rfl
    have hleft := Nat.le_mul_of_pos_right (128 ^ (Leb128.encodeUnsigned n).length) hx
    have hright := Nat.le_mul_of_pos_left x (hpow (Leb128.encodeUnsigned n).length)
    rw [units, hspent, Nat.pow_succ, Nat.mul_right_comm]
    omega
  | _ =>
    show 0 + 2 * x ≤ _
    omega

/-- How far one instruction advances the line, against the bytes that it spends on it and the row
that it commits. -/
theorem natAbs_lines_add_le (i : Instruction) {x : Nat} (hx : 0 < x) :
    128 * (i.lines p).natAbs + 64 * x ≤
      48896 * commits [i] + 64 * (128 ^ spent .line [i] * x) := by
  have hpow (k : Nat) : 0 < 128 ^ k := Nat.pow_pos (by decide)
  have hgrows := Nat.le_mul_of_pos_left x (hpow (spent .line [i]))
  cases i with
  | special opcode =>
    have hlines := natAbs_specialLines_le (p := p) opcode
    have hcommits : commits [special opcode] = 1 := rfl
    rw [lines]
    omega
  | advanceLine delta =>
    -- a signed operand of `k + 1` bytes holds less than 64 * 128 ^ k either way
    obtain ⟨k, hlength, hlow, hhigh⟩ :=
      Leb128.signedPayload_bounds (Leb128.isGroups_encodeSigned delta)
    rw [Leb128.signedPayload_encodeSigned] at hlow hhigh
    have hspent : spent .line [advanceLine delta] = k + 1 + 1 := congrArg (· + 1) hlength
    have hleft := Nat.le_mul_of_pos_right (128 ^ k) hx
    have hright := Nat.le_mul_of_pos_left x (hpow k)
    rw [lines, hspent, Nat.pow_succ, Nat.pow_succ, Nat.mul_right_comm, Nat.mul_right_comm (128 ^ k)]
    omega
  | _ =>
    show 128 * 0 + 64 * x ≤ _
    omega

/-- How far the address can be advanced by some bytes and some rows. -/
theorem sum_units_le (hbase : 9 ≤ p.opcodeBase) (instructions : List Instruction) :
    (instructions.map (units p)).sum + 2 ≤
      246 * commits instructions + 2 * 128 ^ spent .address instructions := by
  induction instructions with
  | nil => simp [commits]
  | cons i instructions ih =>
    have hpos : 0 < 128 ^ spent .address instructions := Nat.pow_pos (by decide)
    have hfirst := units_add_le hbase i hpos
    rw [List.map_cons, List.sum_cons, commits_cons, spent_cons_eq_add, Nat.pow_add]
    omega

/-- No special opcode advances the address further than the constant. -/
theorem specialUnits_le_constAddUnits (p : Params) (opcode : UInt8) :
    p.specialUnits opcode ≤ p.constAddUnits := by
  have hlt := opcode.toNat_lt
  exact Nat.div_le_div_right (by omega)

/-- Without bytes that are about the address, each row advances it by at most the constant. -/
theorem sum_units_le_of_spent_eq_zero (h : spent .address instructions = 0) :
    (instructions.map (units p)).sum ≤ p.constAddUnits * commits instructions := by
  induction instructions with
  | nil => simp
  | cons i instructions ih =>
    rw [spent_cons_eq_add, Nat.add_eq_zero_iff] at h
    have hrest := ih h.2
    have hpos := i.length_encode_pos
    -- with no byte spent on the address only special opcodes advance it, each by no more than the
    -- constant
    have hfirst : i.units p ≤ p.constAddUnits * commits [i] := by
      cases i with
      | special opcode => simpa [units, commits, aspect] using specialUnits_le_constAddUnits p opcode
      | constAddAddress | advanceAddress => simp [aspect, encode] at h
      | _ => exact Nat.zero_le _
    rw [List.map_cons, List.sum_cons, commits_cons, Nat.mul_add]
    omega

/-- How far the line can be advanced by some bytes and some rows. -/
theorem natAbs_sum_lines_le (instructions : List Instruction) :
    128 * (instructions.map (lines p)).sum.natAbs + 64 ≤
      48896 * commits instructions + 64 * 128 ^ spent .line instructions := by
  induction instructions with
  | nil => simp [commits]
  | cons i instructions ih =>
    have hpos : 0 < 128 ^ spent .line instructions := Nat.pow_pos (by decide)
    have hfirst := natAbs_lines_add_le (p := p) i hpos
    have hadd := Int.natAbs_add_le (i.lines p) (instructions.map (lines p)).sum
    rw [List.map_cons, List.sum_cons, commits_cons, spent_cons_eq_add, Nat.pow_add]
    omega

/-! ## Several advances in one -/

/-- Writing the address advance of some instructions as one takes at most two bytes more than they took,
its opcode counted, if half of the rows that they commit are dropped. -/
theorem length_encodeUnsigned_units_le (hbase : 9 ≤ p.opcodeBase) {instructions : List Instruction}
    (h : 1 ≤ spent .address instructions ∨ 2 ≤ commits instructions) :
    (Leb128.encodeUnsigned (instructions.map (units p)).sum).length ≤
      spent .address instructions + commits instructions / 2 + 1 := by
  -- the number of rows is at most half its own power of 128, which the extra byte covers
  have hsum := sum_units_le hbase instructions
  refine Leb128.length_encodeUnsigned_le_of_lt ?_ (Nat.succ_pos _)
  generalize (instructions.map (units p)).sum = n at hsum
  generalize spent .address instructions = s at hsum h
  obtain ⟨half, hhalf⟩ : ∃ half, commits instructions / 2 = half := ⟨_, rfl⟩
  have hrows : half < 128 ^ half := Nat.lt_pow_self (by decide)
  have hpos : 0 < 128 ^ s := Nat.pow_pos (by decide)
  have hleft := Nat.le_mul_of_pos_right (128 ^ s) (Nat.zero_lt_of_lt hrows)
  rw [hhalf, Nat.pow_succ, Nat.pow_add]
  rcases h with hs | hcommits
  · have hboth := Nat.mul_le_mul (Nat.le_self_pow (Nat.ne_of_gt hs) 128) hrows
    omega
  · have hright := Nat.le_mul_of_pos_left (128 ^ half) hpos
    obtain ⟨half, rfl⟩ : ∃ k, half = k + 1 := Nat.exists_eq_add_one.mpr (by omega)
    have hfewer : half < 128 ^ half := Nat.lt_pow_self (by decide)
    rw [Nat.pow_succ] at hleft hright hrows ⊢
    omega

/-- Writing the line advance of some instructions as one takes at most three bytes more than they took,
its opcode counted, and at most two if they took any, if half of the rows that they commit besides one
are dropped. -/
theorem length_encodeSigned_lines_le (instructions : List Instruction) :
    (Leb128.encodeSigned (instructions.map (lines p)).sum).length ≤
      spent .line instructions + (commits instructions - 1) / 2 +
        if spent .line instructions = 0 then 2 else 1 := by
  have hsum := natAbs_sum_lines_le (p := p) instructions
  generalize (instructions.map (lines p)).sum = n at hsum ⊢
  generalize spent .line instructions = s at hsum ⊢
  obtain ⟨half, hhalf⟩ : ∃ half, (commits instructions - 1) / 2 = half := ⟨_, rfl⟩
  have hrows : half < 128 ^ half := Nat.lt_pow_self (by decide)
  rw [hhalf]
  -- without a byte spent on the line the rows alone move it, and one more group has to hold the
  -- sign
  split
  · rename_i hs
    subst hs
    have hbound : n.natAbs < 64 * 128 ^ (half + 1) := by
      rw [Nat.pow_succ]
      omega
    have hle := Leb128.length_encodeSigned_le (n := n) (k := half + 1) (by omega) (by omega)
    omega
  · rename_i hs
    have hboth := Nat.mul_le_mul (Nat.le_self_pow hs 128) hrows
    have hleft := Nat.le_mul_of_pos_right (128 ^ s) (Nat.zero_lt_of_lt hrows)
    have hbound : n.natAbs < 64 * 128 ^ (s + half) := by
      rw [Nat.pow_add]
      omega
    exact Leb128.length_encodeSigned_le (by omega) (by omega)

/-! ## Implied advances -/

/-- How far an instruction advances the line without an operand for it. -/
def impliedLines (p : Params) : Instruction → Int
  | special opcode => p.specialLines opcode
  | _ => 0

/-- How far an instruction advances the address without an operand for it. -/
def impliedUnits (p : Params) : Instruction → Nat
  | special opcode => p.specialUnits opcode
  | constAddAddress => p.constAddUnits
  | _ => 0

/-- Advances take no more bytes in one than the instructions spend on them, if each instruction that
advances spends the bytes of its own advance and one for its opcode. -/
theorem length_sum_lt_spent {α : Type} [AddMonoid α] {advance : Instruction → α}
    {encode : α → Bytes} {aspect : Aspect}
    (hadd : ∀ a b, (encode (a + b)).length ≤ (encode a).length + (encode b).length)
    (h : ∀ i ∈ instructions, advance i = 0 ∨ (encode (advance i)).length < spent aspect [i]) :
    (instructions.map advance).sum = 0 ∨
      (encode (instructions.map advance).sum).length < spent aspect instructions := by
  induction instructions with
  | nil => exact .inl rfl
  | cons i instructions ih =>
    rw [List.forall_mem_cons] at h
    have hrest := ih h.2
    rw [List.map_cons, List.sum_cons, spent_cons_eq_add]
    rcases h.1 with hnone | hlt
    · rw [hnone, zero_add]
      exact hrest.imp_right (Nat.lt_of_lt_of_le · (Nat.le_add_left _ _))
    · -- an operand loses its opcode byte, and the length of a sum is at most the sum of the lengths
      rcases hrest with hzero | hrest
      · rw [hzero, add_zero]
        exact .inr (Nat.lt_add_right _ hlt)
      · exact .inr (Nat.lt_of_le_of_lt (hadd _ _) (Nat.add_lt_add hlt hrest))

/-- Advances of the line that are not implied take no more bytes in one. -/
theorem length_encodeSigned_lines_lt (h : ∀ i ∈ instructions, i.impliedLines p = 0) :
    (instructions.map (lines p)).sum = 0 ∨
      (Leb128.encodeSigned (instructions.map (lines p)).sum).length < spent .line instructions := by
  refine length_sum_lt_spent Leb128.length_encodeSigned_add_le fun i hi => ?_
  cases i with
  | special opcode => exact .inl (h _ hi)
  | advanceLine delta => exact .inr (Nat.lt_succ_self _)
  | _ => exact .inl rfl

/-- Advances of the address that are not implied take no more bytes in one. -/
theorem length_encodeUnsigned_units_lt (h : ∀ i ∈ instructions, i.impliedUnits p = 0) :
    (instructions.map (units p)).sum = 0 ∨
      (Leb128.encodeUnsigned (instructions.map (units p)).sum).length <
        spent .address instructions := by
  refine length_sum_lt_spent Leb128.length_encodeUnsigned_add_le fun i hi => ?_
  cases i with
  | special _ | constAddAddress => exact .inl (h _ hi)
  | advanceAddress n => exact .inr (Nat.lt_succ_self _)
  | _ => exact .inl rfl

/-- Without bytes that are about the address, it is advanced by special opcodes. -/
theorem exists_special_of_spent_eq_zero (hspent : spent .address instructions = 0)
    (hunits : (instructions.map (units p)).sum ≠ 0) :
    ∃ opcode, special opcode ∈ instructions ∧ p.specialUnits opcode ≠ 0 := by
  induction instructions with
  | nil => exact absurd rfl hunits
  | cons i instructions ih =>
    rw [spent_cons_eq_add, Nat.add_eq_zero_iff] at hspent
    -- the first instruction that moves the address; the bytes spent exclude all but the special
    -- opcodes
    by_cases hfirst : i.units p = 0
    · rw [List.map_cons, List.sum_cons, hfirst, Nat.zero_add] at hunits
      obtain ⟨opcode, hmem, hopcode⟩ := ih hspent.2 hunits
      exact ⟨opcode, List.mem_cons_of_mem _ hmem, hopcode⟩
    · cases i with
      | special opcode => exact ⟨opcode, List.mem_cons_self, hfirst⟩
      | constAddAddress | advanceAddress => simp [aspect, encode] at hspent
      | _ => exact absurd rfl hfirst

/-- Where a special opcode commits the only row, no byte that is about the address means that it makes
the whole advance of the address, and no byte about the line that of the line. -/
theorem sums_of_special {opcode : UInt8} (hmem : special opcode ∈ instructions)
    (hcommits : commits instructions = 1) :
    (spent .address instructions = 0 →
      (instructions.map (units p)).sum = p.specialUnits opcode) ∧
    (spent .line instructions = 0 →
      (instructions.map (lines p)).sum = p.specialLines opcode) := by
  obtain ⟨front, back, rfl⟩ := List.append_of_mem hmem
  -- the special opcode is the one commit, so what stands before and after it commits nothing
  have hothers : commits front = 0 ∧ commits back = 0 := by
    simp only [commits, totalOn_append, totalOn_cons, aspect, if_true] at hcommits
    exact ⟨by unfold commits; omega, by unfold commits; omega⟩
  have hunits {xs : List Instruction} (hxs : commits xs = 0) (hspent : spent .address xs = 0) :
      (xs.map (units p)).sum = 0 := by
    have hle := sum_units_le_of_spent_eq_zero (p := p) hspent
    rwa [hxs, Nat.mul_zero, Nat.le_zero] at hle
  have hlines {xs : List Instruction} (hxs : commits xs = 0) (hspent : spent .line xs = 0) :
      (xs.map (lines p)).sum = 0 := by
    have hle := natAbs_sum_lines_le (p := p) xs
    rw [hxs, hspent] at hle
    omega
  simp only [spent_append, spent_cons, List.map_append, List.map_cons, List.sum_append,
    List.sum_cons]
  constructor
  · intro hspent
    rw [hunits hothers.1 (by omega), hunits hothers.2 (by omega), units, Nat.zero_add, Nat.add_zero]
  · intro hspent
    rw [hlines hothers.1 (by omega), hlines hothers.2 (by omega), lines, zero_add, add_zero]

end

end Instruction

end DwarfLines
