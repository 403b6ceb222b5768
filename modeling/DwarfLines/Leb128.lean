import DwarfLines.Decoder

/-!
# LEB128 numbers

A number is written in groups of seven bits, lowest group first, one group to a byte; every byte but
the last has its high bit set. A written number takes at most ten bytes. An unsigned number must fit
64 bits; a signed one is reduced to 64 bits, bit 6 of its last byte being the sign.

The writers use the fewest bytes.
-/

namespace DwarfLines.Leb128

/-- The most bytes a written number takes. -/
def maxLength : Nat := 10

/-- Splits off the bytes up to and including the first one below `0x80`, if it is one of the first
`limit`. -/
def groups : Nat → Decoder Bytes
  | 0, _ => none
  | _ + 1, [] => none
  | limit + 1, b :: rest =>
    if b < 0x80 then some ([b], rest)
    else (groups limit rest).map fun (gs, rest) => (b :: gs, rest)

/-- The number whose base-128 digits are the low seven bits of each byte, lowest first. -/
def payload : Bytes → Nat
  | [] => 0
  | b :: bs => b.toNat % 128 + 128 * payload bs

/-- The same digits, the last of them standing for a number from -64 to 63. -/
def signedPayload : Bytes → Int
  | [] => 0
  | [b] => Int.bmod (b.toNat % 128) 128
  | b :: bs => (b.toNat % 128 : Int) + 128 * signedPayload bs

/-- Reads an unsigned number below `2 ^ 64`. -/
def unsigned : Decoder Nat := do
  let value := payload (← groups maxLength)
  if value < UInt64.size then return value else failure

/-- Reads a signed number, reduced to 64 bits. -/
def signed : Decoder Int := do
  return (signedPayload (← groups maxLength)).bmod UInt64.size

/-- Writes `n` in the fewest bytes. -/
def encodeUnsigned (n : Nat) : Bytes :=
  if n < 128 then [UInt8.ofNat n]
  else UInt8.ofNat (n % 128 + 128) :: encodeUnsigned (n / 128)

/-- The number of bytes that `encodeUnsigned` writes. -/
def unsignedLength (n : Nat) : Nat :=
  if n < 128 then 1 else unsignedLength (n / 128) + 1

/-- Writes `n` in the fewest bytes: one byte holds the numbers from -64 to 63. -/
def encodeSigned (n : Int) : Bytes :=
  if -64 ≤ n ∧ n < 64 then [UInt8.ofNat (n % 128).toNat]
  else UInt8.ofNat ((n % 128).toNat + 128) :: encodeSigned (n / 128)
termination_by n.natAbs

theorem length_lt_of_groups {limit : Nat} {bytes gs rest : Bytes}
    (h : groups limit bytes = some (gs, rest)) : rest.length < bytes.length := by
  induction limit generalizing bytes gs with
  | zero => simp [groups] at h
  | succ limit ih =>
    cases bytes with
    | nil => simp [groups] at h
    | cons b bs =>
      simp only [groups] at h
      split at h
      · cases h; simp
      · simp only [Option.map_eq_some_iff, Prod.mk.injEq, Prod.exists] at h
        obtain ⟨gs', rest', h, -, rfl⟩ := h
        exact Nat.lt_succ_of_lt (ih h)

/-- What an unsigned number leaves is shorter than what it was read from. -/
theorem length_lt_of_unsigned {bytes rest : Bytes} {n : Nat}
    (h : unsigned bytes = some (n, rest)) : rest.length < bytes.length := by
  obtain ⟨gs, rest', hg, h⟩ := Decoder.bind_eq_some_iff.mp h
  split at h
  · cases h; exact length_lt_of_groups hg
  · cases h

theorem length_lt_of_signed {bytes rest : Bytes} {n : Int}
    (h : signed bytes = some (n, rest)) : rest.length < bytes.length := by
  obtain ⟨gs, rest', hg, h⟩ := Decoder.bind_eq_some_iff.mp h
  obtain ⟨-, rfl⟩ := Decoder.pure_eq_some_iff.mp h
  exact length_lt_of_groups hg

theorem length_encodeUnsigned (n : Nat) : (encodeUnsigned n).length = unsignedLength n := by
  fun_induction encodeUnsigned n with
  | case1 n h => unfold unsignedLength; simp [h]
  | case2 n h ih => unfold unsignedLength; simp [h, ih]

end DwarfLines.Leb128
