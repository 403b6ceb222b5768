import DwarfLines.Proofs.Leb128
import Mathlib.Algebra.BigOperators.Ring.Finset
import Mathlib.Data.Int.ModEq
import Mathlib.Data.Nat.Bitwise
import Mathlib.Tactic.Ring

/-!
# Which bytes are read as which number

A number ends with its first byte below `0x80`, which has to be one of the first ten. Its digits to
base 128 are the low seven bits of its bytes. An unsigned number is the sum that they stand for, which
has to fit 64 bits; a signed one is that sum, less the next power of 128 if bit 6 of the last byte is
set, reduced to 64 bits.

The reader makes the sum of unbounded digits. A machine makes it in one register of 64 bits, last
digit first, and looks before each shift whether the register has room. It comes to the same.
-/

namespace DwarfLines.Leb128

/-! ## Registers of 64 bits -/

/-- Makes an unsigned number of its groups, last group first, in a register that must not overflow. -/
def accumulate (gs : Bytes) : Option UInt64 :=
  gs.foldrM (fun b value =>
    if (0xffffffffffffffff : UInt64) >>> 7 < value then none
    else some (value <<< 7 ||| (b &&& 0x7f).toUInt64)) 0

/-- Makes a signed number of its groups, last group first. Bits that do not fit the register are
dropped; bit 6 of the last group fills it at the start. -/
def accumulateSigned (gs : Bytes) : Int64 :=
  gs.foldr (fun b value => value <<< 7 ||| (b &&& 0x7f).toUInt64.toInt64)
    (if gs.getLastD 0 &&& 0x40 = 0 then 0 else -1)

/-- A group is put behind the groups in a register. -/
theorem toNat_shiftLeft_or (value : UInt64) (b : UInt8) :
    (value <<< 7 ||| (b &&& 0x7f).toUInt64).toNat =
      value.toNat * 128 % 2 ^ 64 + b.toNat % 128 := by
  have hgroup : (b &&& 0x7f).toUInt64.toNat = b.toNat % 128 := by
    have hmask : (0x7f : UInt8).toNat = 2 ^ 7 - 1 := rfl
    rw [UInt8.toNat_toUInt64, UInt8.toNat_and, hmask, Nat.and_two_pow_sub_one_eq_mod]
  -- shifting left by 7 keeps the low 57 bits and drops the rest
  have hshift : (value <<< 7).toNat = (value.toNat % 2 ^ 57) <<< 7 := by
    have hseven : (7 : UInt64).toNat % 64 = 7 := rfl
    rw [UInt64.toNat_shiftLeft, hseven, Nat.shiftLeft_eq, Nat.shiftLeft_eq]
    omega
  have hdigit : b.toNat % 128 < 2 ^ 7 := Nat.mod_lt _ (by decide)
  -- the group fills the 7 bits the shift has cleared, so the or is a sum
  rw [UInt64.toNat_or, hgroup, hshift, ← Nat.shiftLeft_add_eq_or_of_lt hdigit, Nat.shiftLeft_eq]
  omega

/-- A register of 64 bits holds the payload exactly if it does not overflow. -/
theorem accumulate_eq (gs : Bytes) :
    accumulate gs = if payload gs < 2 ^ 64 then some (UInt64.ofNat (payload gs)) else none := by
  -- from the last group to the first, as the register is filled
  induction gs with
  | nil => rfl
  | cons b bs ih =>
    have hstep : accumulate (b :: bs) = accumulate bs >>= fun value =>
        if (0xffffffffffffffff : UInt64) >>> 7 < value then none
        else some (value <<< 7 ||| (b &&& 0x7f).toUInt64) := List.foldrM_cons
    rw [hstep, ih, payload]
    by_cases hbs : payload bs < 2 ^ 64
    · rw [if_pos hbs]
      -- the test of the source: the 7 bits about to be shifted out have to be clear
      have hroom : (0xffffffffffffffff : UInt64) >>> 7 < UInt64.ofNat (payload bs) ↔
          2 ^ 57 ≤ payload bs := by
        rw [UInt64.lt_iff_toNat_lt, UInt64.toNat_ofNat', Nat.mod_eq_of_lt hbs]
        exact Iff.rfl
      simp only [Option.bind_eq_bind, Option.bind_some, hroom]
      by_cases hfits : 2 ^ 57 ≤ payload bs
      · rw [if_pos hfits, if_neg (by omega)]
      · rw [if_neg hfits, if_pos (by omega)]
        congr 1
        apply UInt64.toNat_inj.mp
        rw [toNat_shiftLeft_or, UInt64.toNat_ofNat', UInt64.toNat_ofNat', Nat.mod_eq_of_lt hbs]
        omega
    · -- a payload that is too large stays so with one more group in front
      rw [if_neg hbs, if_neg (by omega)]
      rfl

/-- A signed word is the number of its bits that is nearest to zero. -/
theorem toInt_eq_bmod (value : Int64) : value.toInt = (value.toUInt64.toNat : Int).bmod (2 ^ 64) :=
  BitVec.toInt_eq_toNat_bmod value.toBitVec

/-- Shifting in seven bits is multiplying by 128 and adding, as far as the word goes. -/
theorem shiftLeft_or_eq_ofInt (value : Int64) (b : UInt8) :
    value <<< 7 ||| (b &&& 0x7f).toUInt64.toInt64 =
      Int64.ofInt (b.toNat % 128 + 128 * value.toInt) := by
  have hregister : (value <<< 7 ||| (b &&& 0x7f).toUInt64.toInt64).toUInt64 =
      value.toUInt64 <<< 7 ||| (b &&& 0x7f).toUInt64 := rfl
  have hvalue : value.toInt % 2 ^ 64 = value.toUInt64.toNat := by
    have hlt := value.toUInt64.toNat_lt
    rw [toInt_eq_bmod, Int.bmod_def]
    split <;> omega
  have hresidue : ((value.toUInt64.toNat * 128 % 2 ^ 64 + b.toNat % 128 : Nat) : Int) %
      (2 ^ 64 : Nat) = (b.toNat % 128 + 128 * value.toInt) % (2 ^ 64 : Nat) := by
    omega
  -- two registers of 64 bits are equal when their values are so modulo 2 ^ 64
  apply Int64.toInt_inj.mp
  rw [toInt_eq_bmod, hregister, toNat_shiftLeft_or, Int64.toInt_ofInt, ← Int.emod_bmod, hresidue,
    Int.emod_bmod]
  rfl

/-- Bit 6 of the last byte is the sign. -/
theorem and_sign_eq_zero_iff (b : UInt8) : b &&& 0x40 = 0 ↔ b.toNat.testBit 6 = false := by
  have hmask : (0x40 : UInt8).toNat = 2 ^ 6 := rfl
  rw [← UInt8.toNat_inj, UInt8.toNat_and, hmask, Nat.and_two_pow]
  cases b.toNat.testBit 6 <;> simp

/-- The bit below the topmost one is the sign of a single group. -/
theorem signedPayload_singleton (b : UInt8) :
    signedPayload [b] = b.toNat % 128 - if b.toNat.testBit 6 then 128 else 0 := by
  rw [signedPayload, Int.bmod_def, Nat.testBit_eq_decide_div_mod_eq]
  by_cases hsign : b.toNat / 2 ^ 6 % 2 = 1
  · rw [decide_eq_true hsign, if_pos rfl, if_neg (by omega)]
    omega
  · rw [decide_eq_false hsign, if_neg Bool.false_ne_true, if_pos (by omega)]
    omega

/-- A register of 64 bits holds the signed payload, less what does not fit it. -/
theorem accumulateSigned_eq {gs : Bytes} (h : IsGroups gs) :
    accumulateSigned gs = Int64.ofInt (signedPayload gs) := by
  -- the sign is that of the last group; each group before it is shifted in as it is
  induction h with
  | @last b hb =>
    have hstep : accumulateSigned [b] =
        (if b &&& 0x40 = 0 then 0 else -1 : Int64) <<< 7 ||| (b &&& 0x7f).toUInt64.toInt64 := rfl
    rw [hstep, shiftLeft_or_eq_ofInt, signedPayload_singleton]
    simp only [and_sign_eq_zero_iff]
    cases b.toNat.testBit 6 <;> rfl
  | @more b bs hb hbs ih =>
    obtain ⟨c, cs, rfl⟩ := List.exists_cons_of_ne_nil hbs.ne_nil
    have hstep : accumulateSigned (b :: c :: cs) =
        accumulateSigned (c :: cs) <<< 7 ||| (b &&& 0x7f).toUInt64.toInt64 := rfl
    rw [hstep, shiftLeft_or_eq_ofInt, ih, signedPayload_cons b hbs.ne_nil]
    apply Int64.toInt_inj.mp
    simp only [Int64.toInt_ofInt]
    rw [Int.add_bmod, Int.mul_bmod, Int.bmod_bmod, ← Int.mul_bmod, ← Int.add_bmod]

/-- Reads an unsigned number in a register. -/
def unsignedInRegister : Decoder UInt64 := fun bytes =>
  (groups maxLength bytes).bind fun (gs, rest) => (accumulate gs).map fun value => (value, rest)

/-- Reads a signed number in a register. -/
def signedInRegister : Decoder Int64 := fun bytes =>
  (groups maxLength bytes).map fun (gs, rest) => (accumulateSigned gs, rest)

/-- An unsigned number is the payload of its groups, if 64 bits hold it. -/
theorem unsigned_eq (bytes : Bytes) : unsigned bytes = (groups maxLength bytes).bind
    fun (gs, rest) => if payload gs < 2 ^ 64 then some (payload gs, rest) else none := by
  show (groups maxLength bytes).bind (fun (gs, rest) =>
    (if payload gs < UInt64.size then pure (payload gs) else failure : Decoder Nat) rest) = _
  congr 1
  -- the two readings differ only in what they do with the groups they found
  funext (gs, rest)
  have hsize : UInt64.size = 2 ^ 64 := rfl
  dsimp only
  rw [hsize]
  split <;> rfl

/-- A signed number is the signed payload of its groups in 64 bits. -/
theorem signed_eq (bytes : Bytes) : signed bytes = (groups maxLength bytes).map
    fun (gs, rest) => ((signedPayload gs).bmod (2 ^ 64), rest) := by
  rw [Option.map_eq_bind]
  rfl

/-- An unsigned number is what a register accumulates of its groups. -/
theorem unsigned_eq_register (bytes : Bytes) :
    unsigned bytes = (unsignedInRegister bytes).map fun (value, rest) => (value.toNat, rest) := by
  rw [unsigned_eq, unsignedInRegister, Option.map_bind]
  -- both sides read the same groups, and the test against 2 ^ 64 is the register's own
  congr 1
  funext (gs, rest)
  simp only [Function.comp_apply]
  rw [accumulate_eq, Option.map_map]
  split
  · rename_i hfits
    rw [Option.map_some, Function.comp_apply, UInt64.toNat_ofNat', Nat.mod_eq_of_lt hfits]
  · rfl

/-- A signed number is what a register accumulates of its groups. -/
theorem signed_eq_register (bytes : Bytes) :
    signed bytes = (signedInRegister bytes).map fun (value, rest) => (value.toInt, rest) := by
  rw [signed_eq, signedInRegister, Option.map_map]
  cases hgroups : groups maxLength bytes with
  | none => rfl
  | some found =>
    obtain ⟨gs, rest⟩ := found
    simp only [Option.map_some, Function.comp_apply,
      accumulateSigned_eq (isGroups_of_groups hgroups).2.1, Int64.toInt_ofInt]
    rfl

/-! ## Sums of digits -/

/-- The sum that the digits in the bytes up to byte `k` stand for. -/
def digitSum (bytes : Bytes) (k : Nat) : Nat :=
  ∑ i ∈ Finset.range (k + 1), (bytes.getD i 0).toNat % 128 * 128 ^ i

/-- The same sum, less the next power of 128 if bit 6 of byte `k` is set. -/
def signedDigitSum (bytes : Bytes) (k : Nat) : Int :=
  digitSum bytes k - if (bytes.getD k 0).toNat.testBit 6 then 128 ^ (k + 1) else 0

/-- The payload is the sum of the groups by powers of 128. -/
theorem payload_eq_sum (gs : Bytes) :
    payload gs = ∑ i ∈ Finset.range gs.length, (gs.getD i 0).toNat % 128 * 128 ^ i := by
  induction gs with
  | nil => rfl
  | cons b bs ih =>
    -- the first group is the digit of 128 ^ 0, each other digit moves up one place
    have hfirst : ((b :: bs).getD 0 0).toNat % 128 * 128 ^ 0 = b.toNat % 128 := Nat.mul_one _
    rw [List.length_cons, Finset.sum_range_succ', hfirst, payload, ih, Finset.mul_sum, Nat.add_comm]
    congr 1
    apply Finset.sum_congr rfl
    intro i _
    rw [List.getD_cons_succ]
    ring

/-- The signed payload is the payload, less the whole range if the sign is set. -/
theorem signedPayload_eq {gs : Bytes} (h : IsGroups gs) : signedPayload gs =
    payload gs - if (gs.getLastD 0).toNat.testBit 6 then 128 ^ gs.length else 0 := by
  induction h with
  | @last b hb =>
    rw [signedPayload_singleton]
    simp [payload]
  | @more b bs hb hbs ih =>
    obtain ⟨c, cs, rfl⟩ := List.exists_cons_of_ne_nil hbs.ne_nil
    -- a group put in front moves the sign one place up and does not change which one it is
    have hlast : (b :: c :: cs).getLastD 0 = (c :: cs).getLastD 0 := rfl
    have hpayload : payload (b :: c :: cs) = b.toNat % 128 + 128 * payload (c :: cs) := rfl
    rw [signedPayload_cons b hbs.ne_nil, ih, hlast, hpayload, List.length_cons (a := b), pow_succ]
    push_cast
    split <;> ring

/-! ## Where a number ends -/

/-- Whether the number in front of some bytes ends with byte `k`, the first one below `0x80`. -/
structure EndsAt (bytes : Bytes) (k : Nat) : Prop where
  last : ∃ b, bytes[k]? = some b ∧ b < 0x80
  continued : ∀ i < k, ∀ b, bytes[i]? = some b → ¬ b < 0x80

/-- A number ends with the first byte that has its topmost bit clear. -/
theorem endsAt_iff {bytes : Bytes} {k : Nat} :
    EndsAt bytes k ↔ bytes.findIdx? (· < 0x80) = some k := by
  rw [List.findIdx?_eq_some_iff_getElem]
  constructor
  · rintro ⟨⟨b, hb, hlast⟩, hcontinued⟩
    obtain ⟨hk, rfl⟩ := List.getElem?_eq_some_iff.mp hb
    refine ⟨hk, decide_eq_true hlast, ?_⟩
    intro i hi
    rw [decide_eq_true_eq]
    exact hcontinued i hi _ (List.getElem?_eq_getElem _)
  · rintro ⟨hk, hlast, hcontinued⟩
    refine ⟨⟨bytes[k], List.getElem?_eq_getElem hk, of_decide_eq_true hlast⟩, ?_⟩
    intro i hi b hb
    obtain ⟨_, rfl⟩ := List.getElem?_eq_some_iff.mp hb
    simpa using hcontinued i hi

/-- Up to ten groups are read, and no further. -/
theorem groups_of_endsAt {bytes : Bytes} {k : Nat} (h : EndsAt bytes k) : groups maxLength bytes =
    if k < 10 then some (bytes.take (k + 1), bytes.drop (k + 1)) else none := by
  have hmax : maxLength = 10 := rfl
  -- past ten groups nothing is read, wherever the number would end
  rw [groups_eq, List.findIdx?_take, endsAt_iff.mp h, hmax]
  by_cases hk : k < 10
  · simp [Option.guard, hk]
  · simp [Option.guard, hk]

/-- No number is read if none ends within ten groups. -/
theorem groups_eq_none_iff {bytes : Bytes} :
    groups maxLength bytes = none ↔ ¬ ∃ k < 10, EndsAt bytes k := by
  constructor
  · rintro hnone ⟨k, hk, h⟩
    rw [groups_of_endsAt h, if_pos hk] at hnone
    cases hnone
  · intro hnone
    cases hfind : bytes.findIdx? (· < 0x80) with
    | none => rw [groups_eq, List.findIdx?_take, hfind, Option.bind_none, Option.map_none]
    | some k =>
      have h : EndsAt bytes k := endsAt_iff.mpr hfind
      rw [groups_of_endsAt h, if_neg]
      intro hk
      exact hnone ⟨k, hk, h⟩

/-- A number ends within the bytes. -/
theorem EndsAt.lt_length {bytes : Bytes} {k : Nat} (h : EndsAt bytes k) : k < bytes.length := by
  obtain ⟨b, hb, -⟩ := h.last
  exact (List.getElem?_eq_some_iff.mp hb).1

/-- A number ends once. -/
theorem EndsAt.unique {bytes : Bytes} {j k : Nat} (hj : EndsAt bytes j) (hk : EndsAt bytes k) :
    j = k :=
  Option.some.inj ((endsAt_iff.mp hj).symm.trans (endsAt_iff.mp hk))

/-- The payload up to the end is the sum of its digits. -/
theorem EndsAt.payload_take {bytes : Bytes} {k : Nat} (h : EndsAt bytes k) :
    payload (bytes.take (k + 1)) = digitSum bytes k := by
  rw [payload_eq_sum, List.length_take_of_le h.lt_length, digitSum]
  apply Finset.sum_congr rfl
  intro i hi
  rw [List.getD_eq_getElem?_getD, List.getElem?_take_of_lt (Finset.mem_range.mp hi),
    ← List.getD_eq_getElem?_getD]

/-- The bytes up to the end are the groups of one number. -/
theorem EndsAt.isGroups_take {bytes : Bytes} {k : Nat} (h : EndsAt bytes k) (hk : k < 10) :
    IsGroups (bytes.take (k + 1)) := by
  have hgroups := groups_of_endsAt h
  rw [if_pos hk] at hgroups
  exact (isGroups_of_groups hgroups).2.1

/-- The signed payload up to the end is the signed sum of its digits. -/
theorem EndsAt.signedPayload_take {bytes : Bytes} {k : Nat} (h : EndsAt bytes k) (hk : k < 10) :
    signedPayload (bytes.take (k + 1)) = signedDigitSum bytes k := by
  have hlength : (bytes.take (k + 1)).length = k + 1 := List.length_take_of_le h.lt_length
  have hlast : (bytes.take (k + 1)).getLastD 0 = bytes.getD k 0 := by
    rw [List.getLastD_eq_getLast?, List.getLast?_eq_getElem?, hlength, Nat.add_sub_cancel,
      List.getElem?_take_of_lt (Nat.lt_succ_self k), List.getD_eq_getElem?_getD]
  rw [signedPayload_eq (h.isGroups_take hk), h.payload_take, hlength, hlast, signedDigitSum]

/-- An unsigned number that ends within ten groups is read if 64 bits hold it. -/
theorem EndsAt.unsigned_eq {bytes : Bytes} {k : Nat} (h : EndsAt bytes k) (hk : k < 10) :
    unsigned bytes =
      if digitSum bytes k < 2 ^ 64 then some (digitSum bytes k, bytes.drop (k + 1)) else none := by
  rw [Leb128.unsigned_eq, groups_of_endsAt h, if_pos hk, Option.bind_some]
  dsimp only
  rw [h.payload_take]

/-- A signed number that ends within ten groups is read in 64 bits. -/
theorem EndsAt.signed_eq {bytes : Bytes} {k : Nat} (h : EndsAt bytes k) (hk : k < 10) :
    signed bytes = some ((signedDigitSum bytes k).bmod (2 ^ 64), bytes.drop (k + 1)) := by
  rw [Leb128.signed_eq, groups_of_endsAt h, if_pos hk, Option.map_some]
  dsimp only
  rw [h.signedPayload_take hk]

/-- An unsigned number that is read ends within ten groups. -/
theorem exists_endsAt_of_unsigned {bytes rest : Bytes} {value : Nat}
    (h : unsigned bytes = some (value, rest)) : ∃ k < 10, EndsAt bytes k := by
  by_contra hends
  rw [unsigned_eq, groups_eq_none_iff.mpr hends, Option.bind_none] at h
  cases h

/-- A signed number that is read ends within ten groups. -/
theorem exists_endsAt_of_signed {bytes rest : Bytes} {value : Int}
    (h : signed bytes = some (value, rest)) : ∃ k < 10, EndsAt bytes k := by
  by_contra hends
  rw [signed_eq, groups_eq_none_iff.mpr hends, Option.map_none] at h
  cases h

/-- Whether a number has 64 bits and the residue of another. -/
theorem eq_bmod_iff {value n : Int} : value = n.bmod (2 ^ 64) ↔
    -2 ^ 63 ≤ value ∧ value < 2 ^ 63 ∧ value ≡ n [ZMOD 2 ^ 64] := by
  rw [eq_comm, Int.bmod_eq_iff (by decide), Int.modEq_comm, Int.modEq_iff_dvd]
  rfl

/-! ## What is read -/

/-- No unsigned number is read if none ends within ten groups, or it does not fit 64 bits. -/
theorem unsigned_eq_none_iff {bytes : Bytes} : unsigned bytes = none ↔
    (¬ ∃ k < 10, EndsAt bytes k) ∨ ∃ k, EndsAt bytes k ∧ 2 ^ 64 ≤ digitSum bytes k := by
  by_cases hends : ∃ k < 10, EndsAt bytes k
  · obtain ⟨k, hk, h⟩ := hends
    -- the end is unique, so the sum up to it is the only one to compare
    have hlarge : (∃ j, EndsAt bytes j ∧ 2 ^ 64 ≤ digitSum bytes j) ↔ 2 ^ 64 ≤ digitSum bytes k := by
      constructor
      · rintro ⟨j, hj, hlarge⟩
        rwa [← hj.unique h]
      · intro hlarge
        exact ⟨k, h, hlarge⟩
    rw [h.unsigned_eq hk, hlarge, or_iff_right (not_not_intro ⟨k, hk, h⟩), ← Nat.not_lt]
    split
    · rename_i hfits
      exact iff_of_false nofun (not_not_intro hfits)
    · rename_i hlarge
      exact iff_of_true rfl hlarge
  · rw [unsigned_eq, groups_eq_none_iff.mpr hends, Option.bind_none]
    exact iff_of_true rfl (.inl hends)

/-- The unsigned numbers that are read, and from which bytes. -/
theorem unsigned_eq_some_iff {bytes rest : Bytes} {value : Nat} :
    unsigned bytes = some (value, rest) ↔ ∃ k < 10, EndsAt bytes k ∧
      digitSum bytes k < 2 ^ 64 ∧ value = digitSum bytes k ∧ rest = bytes.drop (k + 1) := by
  constructor
  · intro hsome
    obtain ⟨k, hk, h⟩ := exists_endsAt_of_unsigned hsome
    rw [h.unsigned_eq hk] at hsome
    split at hsome
    · rename_i hfits
      cases hsome
      exact ⟨k, hk, h, hfits, rfl, rfl⟩
    · cases hsome
  · rintro ⟨k, hk, h, hfits, rfl, rfl⟩
    rw [h.unsigned_eq hk, if_pos hfits]

/-- No signed number is read if none ends within ten groups. -/
theorem signed_eq_none_iff {bytes : Bytes} :
    signed bytes = none ↔ ¬ ∃ k < 10, EndsAt bytes k := by
  rw [signed_eq, Option.map_eq_none_iff, groups_eq_none_iff]

/-- The signed numbers that are read, and from which bytes. -/
theorem signed_eq_some_iff {bytes rest : Bytes} {value : Int} :
    signed bytes = some (value, rest) ↔ ∃ k < 10, EndsAt bytes k ∧
      (-2 ^ 63 ≤ value ∧ value < 2 ^ 63 ∧ value ≡ signedDigitSum bytes k [ZMOD 2 ^ 64]) ∧
      rest = bytes.drop (k + 1) := by
  constructor
  · intro hsome
    obtain ⟨k, hk, h⟩ := exists_endsAt_of_signed hsome
    rw [h.signed_eq hk] at hsome
    cases hsome
    exact ⟨k, hk, h, eq_bmod_iff.mp rfl, rfl⟩
  · rintro ⟨k, hk, h, hvalue, rfl⟩
    rw [h.signed_eq hk, eq_bmod_iff.mpr hvalue]

/-- An unsigned number is read exactly if one of the first ten bytes is its last and its digits stand
for a sum below `2 ^ 64`, and it is this sum. A signed one is read exactly if one of the first ten bytes
is its last, and it is the number of 64 bits with the residue of its signed sum. What is left are the
bytes behind the last one. Both are what a machine makes of the digits in a register. -/
theorem unsigned_signed_eq_digitSum (bytes : Bytes) :
    (unsigned bytes = none ↔ (¬ ∃ k < 10, EndsAt bytes k) ∨
      ∃ k, EndsAt bytes k ∧ 2 ^ 64 ≤ digitSum bytes k) ∧
    (∀ value rest, unsigned bytes = some (value, rest) ↔
      ∃ k < 10, EndsAt bytes k ∧ digitSum bytes k < 2 ^ 64 ∧ value = digitSum bytes k ∧
        rest = bytes.drop (k + 1)) ∧
    unsigned bytes = (unsignedInRegister bytes).map (fun (value, rest) => (value.toNat, rest)) ∧
    (signed bytes = none ↔ ¬ ∃ k < 10, EndsAt bytes k) ∧
    (∀ value rest, signed bytes = some (value, rest) ↔
      ∃ k < 10, EndsAt bytes k ∧
        (-2 ^ 63 ≤ value ∧ value < 2 ^ 63 ∧ value ≡ signedDigitSum bytes k [ZMOD 2 ^ 64]) ∧
        rest = bytes.drop (k + 1)) ∧
    signed bytes = (signedInRegister bytes).map (fun (value, rest) => (value.toInt, rest)) :=
  ⟨unsigned_eq_none_iff, fun _ _ => unsigned_eq_some_iff, unsigned_eq_register bytes,
    signed_eq_none_iff, fun _ _ => signed_eq_some_iff, signed_eq_register bytes⟩

end DwarfLines.Leb128
