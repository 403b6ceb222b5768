import DwarfLines.Proofs.Cursor
import DwarfLines.Proofs.Leb128

/-!
# The shortest form of a number

A number of few groups is small, and small numbers are written in few groups. So the bytes that a
number is read from are never fewer than the bytes it is written in, and since these are read back,
they are its shortest form.
-/

namespace DwarfLines.Leb128

/-- The payload of `n` digits is below `128 ^ n`. -/
theorem payload_lt (gs : Bytes) : payload gs < 128 ^ gs.length := by
  induction gs with
  | nil => decide
  | cons b bs ih =>
    rw [payload, List.length_cons, Nat.pow_succ]
    omega

/-- The numbers that some signed groups can hold. -/
theorem signedPayload_bounds {gs : Bytes} (h : IsGroups gs) :
    ∃ k, gs.length = k + 1 ∧ -(64 * 128 ^ k : Nat) ≤ signedPayload gs ∧
      signedPayload gs < (64 * 128 ^ k : Nat) := by
  induction h with
  | @last b hb =>
    refine ⟨0, rfl, ?_, ?_⟩ <;> simp only [signedPayload, Int.bmod_def] <;> omega
  | @more b bs _ hbs ih =>
    obtain ⟨k, hlength, hlow, hhigh⟩ := ih
    refine ⟨k + 1, by rw [List.length_cons, hlength], ?_, ?_⟩ <;>
      rw [signedPayload_cons b hbs.ne_nil, Nat.pow_succ] <;> omega

/-- An encoding has at least one byte. -/
theorem length_encodeUnsigned_pos (n : Nat) : 0 < (encodeUnsigned n).length :=
  List.length_pos_of_ne_nil (isGroups_encodeUnsigned n).ne_nil

/-- A number is below 128 to the length of its encoding. -/
theorem lt_pow_length_encodeUnsigned (n : Nat) : n < 128 ^ (encodeUnsigned n).length := by
  have hlt := payload_lt (encodeUnsigned n)
  rwa [payload_encodeUnsigned] at hlt

/-- A number that so many groups can hold is written in no more groups. -/
theorem length_encodeUnsigned_le_of_lt {n k : Nat} (h : n < 128 ^ k) (hk : 0 < k) :
    (encodeUnsigned n).length ≤ k := by
  obtain ⟨k, rfl⟩ := Nat.exists_eq_add_one.mpr hk
  exact length_encodeUnsigned_le h

/-- A smaller number has no longer encoding. -/
theorem length_encodeUnsigned_mono {m n : Nat} (h : m ≤ n) :
    (encodeUnsigned m).length ≤ (encodeUnsigned n).length :=
  length_encodeUnsigned_le_of_lt (Nat.lt_of_le_of_lt h (lt_pow_length_encodeUnsigned n))
    (length_encodeUnsigned_pos n)

/-- The sum of two numbers takes no more bytes than the two. -/
theorem length_encodeUnsigned_add_le (m n : Nat) :
    (encodeUnsigned (m + n)).length ≤ (encodeUnsigned m).length + (encodeUnsigned n).length := by
  have hpow {k : Nat} (hk : 0 < k) : 2 ≤ 128 ^ k :=
    Nat.le_trans (by decide) (Nat.pow_le_pow_right (by decide) hk)
  have hm := hpow (length_encodeUnsigned_pos m)
  have hn := hpow (length_encodeUnsigned_pos n)
  have hle := Nat.add_le_mul hm hn
  have hm' := lt_pow_length_encodeUnsigned m
  have hn' := lt_pow_length_encodeUnsigned n
  refine length_encodeUnsigned_le_of_lt ?_ (Nat.add_pos_left (length_encodeUnsigned_pos m) _)
  rw [Nat.pow_add]
  omega

theorem length_encodeSigned_add_le (m n : Int) :
    (encodeSigned (m + n)).length ≤ (encodeSigned m).length + (encodeSigned n).length := by
  obtain ⟨j, hj, hmlow, hmhigh⟩ := signedPayload_bounds (isGroups_encodeSigned m)
  obtain ⟨k, hk, hnlow, hnhigh⟩ := signedPayload_bounds (isGroups_encodeSigned n)
  rw [signedPayload_encodeSigned] at hmlow hmhigh hnlow hnhigh
  have hleft : 128 ^ j ≤ 128 ^ (j + k) := Nat.pow_le_pow_right (by decide) (Nat.le_add_right j k)
  have hright : 128 ^ k ≤ 128 ^ (j + k) := Nat.pow_le_pow_right (by decide) (Nat.le_add_left k j)
  have hle : (encodeSigned (m + n)).length ≤ j + k + 1 + 1 := by
    apply length_encodeSigned_le <;> rw [Nat.pow_succ] <;> omega
  omega

/-- The encoding of a number that was read is no longer than the bytes it was read from. -/
theorem length_encodeUnsigned_le_of_unsigned {bytes rest : Bytes} {n : Nat}
    (h : unsigned bytes = some (n, rest)) :
    (encodeUnsigned n).length + rest.length ≤ bytes.length := by
  obtain ⟨gs, rest', hgs, hvalue⟩ := Decoder.bind_eq_some_iff.mp h
  obtain ⟨rfl, hisGroups, -⟩ := isGroups_of_groups hgs
  split at hvalue
  · obtain ⟨rfl, rfl⟩ := Decoder.pure_eq_some_iff.mp hvalue
    have hle := length_encodeUnsigned_le_of_lt (payload_lt gs)
      (List.length_pos_of_ne_nil hisGroups.ne_nil)
    rw [List.length_append]
    omega
  · cases hvalue

/-- Reducing a number to 64 bits does not make it longer. -/
theorem length_encodeSigned_bmod_le {n : Int} {k : Nat} (hlow : -(64 * 128 ^ k : Nat) ≤ n)
    (hhigh : n < (64 * 128 ^ k : Nat)) : (encodeSigned (n.bmod UInt64.size)).length ≤ k + 1 := by
  have hlow' := Int.le_bmod (x := n) (m := UInt64.size) (by decide)
  have hhigh' := Int.bmod_lt (x := n) (m := UInt64.size) (by decide)
  have hsize : (UInt64.size : Int) = 2 ^ 64 := rfl
  by_cases hk : k ≤ 8
  · -- Nine groups hold 63 bits, so there is nothing to reduce.
    have hpow : (64 * 128 ^ k : Nat) ≤ 64 * 128 ^ 8 :=
      Nat.mul_le_mul_left _ (Nat.pow_le_pow_right (by decide) hk)
    have hsame : n.bmod UInt64.size = n := by
      rw [Int.bmod_eq_of_le] <;> omega
    rw [hsame]
    exact length_encodeSigned_le hlow hhigh
  · have hpow : 64 * 128 ^ 9 ≤ (64 * 128 ^ k : Nat) :=
      Nat.mul_le_mul_left _ (Nat.pow_le_pow_right (by decide) (by omega))
    exact length_encodeSigned_le (by omega) (by omega)

/-- The encoding of a signed number that was read is no longer than the bytes it was read from. -/
theorem length_encodeSigned_le_of_signed {bytes rest : Bytes} {n : Int}
    (h : signed bytes = some (n, rest)) :
    (encodeSigned n).length + rest.length ≤ bytes.length := by
  obtain ⟨gs, rest', hgs, hvalue⟩ := Decoder.bind_eq_some_iff.mp h
  obtain ⟨rfl, hisGroups, -⟩ := isGroups_of_groups hgs
  obtain ⟨rfl, rfl⟩ := Decoder.pure_eq_some_iff.mp hvalue
  obtain ⟨k, hlength, hlow, hhigh⟩ := signedPayload_bounds hisGroups
  have hle := length_encodeSigned_bmod_le hlow hhigh
  rw [List.length_append]
  omega

/-- So for several numbers read one after the other. -/
theorem length_encodeUnsigned_le_of_times {count : Nat} {bytes rest : Bytes} {numbers : List Nat}
    (h : unsigned.times count bytes = some (numbers, rest)) :
    (numbers.flatMap encodeUnsigned).length + rest.length ≤ bytes.length := by
  induction count generalizing bytes numbers with
  | zero =>
    obtain ⟨rfl, rfl⟩ := Decoder.pure_eq_some_iff.mp h
    simp
  | succ count ih =>
    obtain ⟨n, rest₁, hn, h⟩ := Decoder.bind_eq_some_iff.mp h
    obtain ⟨ns, rest₂, hns, h⟩ := Decoder.bind_eq_some_iff.mp h
    obtain ⟨rfl, rfl⟩ := Decoder.pure_eq_some_iff.mp h
    have := length_encodeUnsigned_le_of_unsigned hn
    have := ih hns
    rw [List.flatMap_cons, List.length_append]
    omega

/-- Whether some bytes are the shortest form of a value: wherever they stand, a cursor in front of
them reads the value and moves behind them, and no fewer bytes are read as it. -/
structure IsShortest {α : Type} (d : Decoder α) (written : Bytes) (a : α) : Prop where
  read : ∀ front back, ∃ c, Cursor.at? (front ++ written ++ back) front.length = some c ∧
    Cursor.read d c = .ok a ⟨front.length + written.length, back⟩
  shortest : ∀ bytes rest, d bytes = some (a, rest) → written.length + rest.length ≤ bytes.length

/-- What is read back from bytes is read by a cursor in front of them. -/
theorem exists_read_of_reads {α : Type} {d : Decoder α} {written : Bytes} {a : α}
    (h : d.Reads written a) (front back : Bytes) :
    ∃ c, Cursor.at? (front ++ written ++ back) front.length = some c ∧
      Cursor.read d c = .ok a ⟨front.length + written.length, back⟩ := by
  have hdrop : (front ++ written ++ back).drop front.length = written ++ back := by
    rw [List.append_assoc, List.drop_left]
  refine ⟨⟨front.length, written ++ back⟩, ?_, Reading.Reads.read h front.length back⟩
  rw [Cursor.at?, if_pos (by simp only [List.length_append]; omega), hdrop]

/-- The writers give each number of 64 bits its shortest form, and the length of an unsigned one is
known without writing it. -/
theorem isShortest_encode :
    (∀ n : UInt64, IsShortest unsigned (encodeUnsigned n.toNat) n.toNat ∧
      unsignedLength n.toNat = (encodeUnsigned n.toNat).length) ∧
    ∀ n : Int64, IsShortest signed (encodeSigned n.toInt) n.toInt := by
  refine ⟨fun n => ⟨⟨?_, ?_⟩, ?_⟩, fun n => ⟨?_, ?_⟩⟩
  · exact exists_read_of_reads (reads_encodeUnsigned n.toNat_lt)
  · exact fun _ _ => length_encodeUnsigned_le_of_unsigned
  · exact (length_encodeUnsigned n.toNat).symm
  · exact exists_read_of_reads (reads_encodeSigned n.le_toInt n.toInt_lt)
  · exact fun _ _ => length_encodeSigned_le_of_signed

end DwarfLines.Leb128
