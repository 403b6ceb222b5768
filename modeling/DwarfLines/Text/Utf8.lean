import DwarfLines.Bytes

/-!
# UTF-8

`decode?` accepts well-formed text only. `decodeLossy` accepts every byte string: where no character
can be read, the longest run of bytes that could begin one gives way to a replacement character.
-/

namespace DwarfLines.Utf8

/-- What the first byte of a character says about the rest of it. -/
structure Lead where
  /-- The bits of the character that the first byte holds. -/
  bits : Nat
  /-- The number of bytes that follow. -/
  count : Nat
  /-- The least and the greatest byte that may follow first. -/
  low : Nat
  high : Nat

/-- Reads the first byte of a character. -/
def Lead.ofByte? (byte : UInt8) : Option Lead :=
  let b := byte.toNat
  if b < 0x80 then some ⟨b, 0, 0x80, 0xbf⟩
  else if b < 0xc2 then none
  else if b < 0xe0 then some ⟨b % 32, 1, 0x80, 0xbf⟩
  else if b = 0xe0 then some ⟨0, 2, 0xa0, 0xbf⟩
  else if b = 0xed then some ⟨13, 2, 0x80, 0x9f⟩
  else if b < 0xf0 then some ⟨b % 16, 2, 0x80, 0xbf⟩
  else if b = 0xf0 then some ⟨0, 3, 0x90, 0xbf⟩
  else if b < 0xf4 then some ⟨b % 8, 3, 0x80, 0xbf⟩
  else if b = 0xf4 then some ⟨4, 3, 0x80, 0x8f⟩
  else none

/-- Takes `count` more bytes of a character whose bits so far are `bits`, the first of them between
`low` and `high`. Stops in front of the first byte that does not fit. -/
def follow (bits : Nat) : (count low high : Nat) → Bytes → Option Char × Bytes
  | 0, _, _, bytes => (some (Char.ofNat bits), bytes)
  | _ + 1, _, _, [] => (none, [])
  | count + 1, low, high, b :: rest =>
    if low ≤ b.toNat ∧ b.toNat ≤ high then
      follow (bits * 64 + b.toNat % 64) count 0x80 0xbf rest
    else (none, b :: rest)

theorem length_follow_le (bits count low high : Nat) (bytes : Bytes) :
    (follow bits count low high bytes).2.length ≤ bytes.length := by
  fun_induction follow bits count low high bytes with
  | case1 => exact Nat.le_refl _
  | case2 => exact Nat.le_refl _
  | case3 _ _ _ _ _ _ _ ih => exact Nat.le_succ_of_le ih
  | case4 => exact Nat.le_refl _

/-- The characters of a byte string, `none` standing for each run of bytes that begins none. -/
def scan : Bytes → List (Option Char)
  | [] => []
  | b :: rest =>
    match Lead.ofByte? b with
    | none => none :: scan rest
    | some lead =>
      let next := follow lead.bits lead.count lead.low lead.high rest
      next.1 :: scan next.2
termination_by bytes => bytes.length
decreasing_by
  · simp
  · exact Nat.lt_succ_of_le (length_follow_le ..)

/-- The text of a well-formed byte string. -/
def decode? (bytes : Bytes) : Option String :=
  ((scan bytes).mapM id).map String.ofList

/-- What stands for bytes that begin no character. -/
def replacement : Char := '\uFFFD'

/-- The text of a byte string, with replacement characters where it is ill-formed. -/
def decodeLossy (bytes : Bytes) : String :=
  String.ofList ((scan bytes).map fun c => c.getD replacement)

end DwarfLines.Utf8
