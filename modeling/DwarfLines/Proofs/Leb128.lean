import DwarfLines.Leb128
import DwarfLines.Proofs.Decoder
import Mathlib.Algebra.Group.Int.Defs

/-!
# Written numbers are read back

The bytes of a written number are its groups: every byte but the last has its high bit set. A reader
takes exactly such bytes, and makes of them the number whose base-128 digits they hold. The writers
give groups with the digits of the number written, at most ten for a number of 64 bits.
-/

namespace DwarfLines.Leb128

/-- Whether some bytes are the groups of one number: each byte but the last continues it. -/
inductive IsGroups : Bytes → Prop where
  | last {b : UInt8} : b < 0x80 → IsGroups [b]
  | more {b : UInt8} {bs : Bytes} : ¬ b < 0x80 → IsGroups bs → IsGroups (b :: bs)

/-- A number has a group. -/
theorem IsGroups.ne_nil {gs : Bytes} (h : IsGroups gs) : gs ≠ [] := by
  cases h <;> simp

/-- Groups are taken whole, if there are not too many. -/
theorem reads_groups {gs : Bytes} (h : IsGroups gs) {limit : Nat} (hlimit : gs.length ≤ limit) :
    (groups limit).Reads gs gs := by
  induction h generalizing limit with
  | @last b hb =>
    intro rest
    cases limit with
    | zero => simp at hlimit
    | succ limit => simp [groups, hb]
  | @more b bs hb _ ih =>
    intro rest
    cases limit with
    | zero => simp at hlimit
    | succ limit =>
      have hbs := ih (Nat.le_of_succ_le_succ hlimit) rest
      simp [groups, hb, hbs]

/-- What is taken are groups. -/
theorem isGroups_of_groups {limit : Nat} {bytes gs rest : Bytes}
    (h : groups limit bytes = some (gs, rest)) :
    bytes = gs ++ rest ∧ IsGroups gs ∧ gs.length ≤ limit := by
  induction limit generalizing bytes gs with
  | zero => simp [groups] at h
  | succ limit ih =>
    cases bytes with
    | nil => simp [groups] at h
    | cons b bs =>
      simp only [groups] at h
      split at h
      · rename_i hb
        cases h
        exact ⟨rfl, .last hb, by simp⟩
      · rename_i hb
        simp only [Option.map_eq_some_iff, Prod.mk.injEq, Prod.exists] at h
        obtain ⟨gs', rest', hgs, rfl, rfl⟩ := h
        obtain ⟨rfl, hisGroups, hlength⟩ := ih hgs
        exact ⟨rfl, .more hb hisGroups, by simpa using hlength⟩

/-- What is behind the groups of a number is not looked at. -/
theorem local_groups (limit : Nat) : (groups limit).Local := by
  intro bytes gs rest h
  obtain ⟨rfl, hgs, hlength⟩ := isGroups_of_groups h
  exact ⟨gs, rfl, reads_groups hgs hlength⟩

/-- The groups of a number end with the first byte that no other follows. -/
theorem groups_eq (limit : Nat) (bytes : Bytes) : groups limit bytes =
    ((bytes.take limit).findIdx? (· < 0x80)).map fun last =>
      (bytes.take (last + 1), bytes.drop (last + 1)) := by
  induction limit generalizing bytes with
  | zero => rfl
  | succ limit ih =>
    cases bytes with
    | nil => rfl
    | cons b bytes =>
      rw [groups, List.take_succ_cons, List.findIdx?_cons]
      by_cases hb : b < 0x80
      · simp [hb]
      · simp only [hb, if_false, ih, decide_false, Bool.false_eq_true, Option.map_map]
        rfl

/-- What is behind an unsigned number is not looked at. -/
theorem local_unsigned : unsigned.Local :=
  (local_groups maxLength).bind fun _ => .ite (.pure _) .failure

/-- What is behind a signed number is not looked at. -/
theorem local_signed : signed.Local := (local_groups maxLength).bind fun _ => .pure _

/-- An unsigned number is read from any groups that hold its digits. -/
theorem reads_unsigned {gs : Bytes} (h : IsGroups gs) (hlength : gs.length ≤ maxLength)
    (hvalue : payload gs < 2 ^ 64) : unsigned.Reads gs (payload gs) := by
  have hsize : payload gs < UInt64.size := hvalue
  refine (reads_groups h hlength).bind_last ?_
  rw [if_pos hsize]
  exact .pure _

/-- A signed number is read from its groups, as far as 64 bits hold it. -/
theorem reads_signed {gs : Bytes} (h : IsGroups gs) (hlength : gs.length ≤ maxLength) :
    signed.Reads gs ((signedPayload gs).bmod (2 ^ 64)) :=
  (reads_groups h hlength).bind_last (.pure _)

/-! ## What the writers give -/

/-- A group that others follow has its topmost bit set. -/
theorem toNat_ofNat_continued (n : Nat) :
    (UInt8.ofNat (n % 128 + 128)).toNat = n % 128 + 128 := by
  rw [UInt8.toNat_ofNat']
  omega

/-- A group with its topmost bit set is not the last. -/
theorem not_continued_lt (n : Nat) : ¬ UInt8.ofNat (n % 128 + 128) < 0x80 := by
  rw [UInt8.lt_iff_toNat_lt, toNat_ofNat_continued]
  simp

/-- A group of seven bits is the last. -/
theorem ofNat_lt_of_lt {n : Nat} (h : n < 128) : UInt8.ofNat n < 0x80 := by
  rw [UInt8.lt_iff_toNat_lt, UInt8.toNat_ofNat']
  have : n % 2 ^ 8 = n := Nat.mod_eq_of_lt (by omega)
  rw [this]
  exact h

/-- An unsigned number is written in groups. -/
theorem isGroups_encodeUnsigned (n : Nat) : IsGroups (encodeUnsigned n) := by
  fun_induction encodeUnsigned n with
  | case1 n h => exact .last (ofNat_lt_of_lt h)
  | case2 n h ih => exact .more (not_continued_lt n) ih

/-- The groups of an unsigned number have it as payload. -/
theorem payload_encodeUnsigned (n : Nat) : payload (encodeUnsigned n) = n := by
  fun_induction encodeUnsigned n with
  | case1 n h =>
    simp only [payload, UInt8.toNat_ofNat']
    omega
  | case2 n h ih =>
    rw [payload, ih, toNat_ofNat_continued]
    omega

/-- An unsigned number below a power of 128 takes as many groups. -/
theorem length_encodeUnsigned_le {n k : Nat} (h : n < 128 ^ (k + 1)) :
    (encodeUnsigned n).length ≤ k + 1 := by
  induction k generalizing n with
  | zero =>
    rw [encodeUnsigned, if_pos (by simpa using h)]
    simp
  | succ k ih =>
    rw [encodeUnsigned]
    split
    · simp
    · have : n / 128 < 128 ^ (k + 1) := by
        rw [Nat.div_lt_iff_lt_mul (by decide)]
        rwa [Nat.pow_succ] at h
      simpa using ih this

/-- A number below `2 ^ 64` is read back. -/
theorem reads_encodeUnsigned {n : Nat} (h : n < 2 ^ 64) : unsigned.Reads (encodeUnsigned n) n := by
  have hlength : (encodeUnsigned n).length ≤ maxLength :=
    length_encodeUnsigned_le (Nat.lt_trans h (by decide))
  have hread := reads_unsigned (isGroups_encodeUnsigned n) hlength
    (by rwa [payload_encodeUnsigned])
  rwa [payload_encodeUnsigned] at hread

/-- A signed number is written in groups. -/
theorem isGroups_encodeSigned (n : Int) : IsGroups (encodeSigned n) := by
  fun_induction encodeSigned n with
  | case1 n h => exact .last (ofNat_lt_of_lt (by omega))
  | case2 n h ih =>
    have : (n % 128).toNat % 128 = (n % 128).toNat := by omega
    rw [← this]
    exact .more (not_continued_lt _) ih

/-- The first group is worth seven bits, and the others follow. -/
theorem signedPayload_cons (b : UInt8) {bs : Bytes} (h : bs ≠ []) :
    signedPayload (b :: bs) = (b.toNat % 128 : Int) + 128 * signedPayload bs := by
  cases bs with
  | nil => exact absurd rfl h
  | cons c cs => rfl

/-- The groups of a signed number have it as payload. -/
theorem signedPayload_encodeSigned (n : Int) : signedPayload (encodeSigned n) = n := by
  fun_induction encodeSigned n with
  | case1 n h =>
    simp only [signedPayload, UInt8.toNat_ofNat', Int.bmod_def]
    omega
  | case2 n h ih =>
    have hgroup : (n % 128).toNat % 128 = (n % 128).toNat := by omega
    rw [signedPayload_cons _ (isGroups_encodeSigned _).ne_nil, ih, ← hgroup, toNat_ofNat_continued]
    omega

/-- A signed number within the range of some groups takes as many. -/
theorem length_encodeSigned_le {n : Int} {k : Nat} (hlow : -(64 * 128 ^ k : Nat) ≤ n)
    (hhigh : n < (64 * 128 ^ k : Nat)) : (encodeSigned n).length ≤ k + 1 := by
  induction k generalizing n with
  | zero =>
    rw [encodeSigned, if_pos (by omega)]
    simp
  | succ k ih =>
    rw [encodeSigned]
    split
    · simp
    · rw [Nat.pow_succ] at hlow hhigh
      have : (encodeSigned (n / 128)).length ≤ k + 1 := ih (by omega) (by omega)
      simpa using this

/-- A number of 64 bits is read back. -/
theorem reads_encodeSigned {n : Int} (hlow : -2 ^ 63 ≤ n) (hhigh : n < 2 ^ 63) :
    signed.Reads (encodeSigned n) n := by
  have hlength : (encodeSigned n).length ≤ maxLength := by
    have hpow : (2 ^ 63 : Int) ≤ (64 * 128 ^ 9 : Nat) := by decide
    exact length_encodeSigned_le (k := 9) (by omega) (by omega)
  have hread := reads_signed (isGroups_encodeSigned n) hlength
  rw [signedPayload_encodeSigned] at hread
  have : n.bmod (2 ^ 64) = n := by
    rw [Int.bmod_def]
    omega
  rwa [this] at hread

end DwarfLines.Leb128
