/-!
# Byte strings

Files, sections and units are byte strings. A word is stored low byte first: `encodeLittleEndian`
writes a number in a given number of bytes and `decodeLittleEndian` reads one back.
-/

namespace DwarfLines

/-- A byte string. -/
abbrev Bytes := List UInt8

/-- The number whose base-256 digits are `bytes`, lowest first. -/
def decodeLittleEndian : Bytes → Nat
  | [] => 0
  | b :: bs => b.toNat + 256 * decodeLittleEndian bs

/-- The lowest `width` base-256 digits of `n`, lowest first. -/
def encodeLittleEndian : Nat → Nat → Bytes
  | 0, _ => []
  | width + 1, n => UInt8.ofNat n :: encodeLittleEndian width (n / 256)

@[simp]
theorem length_encodeLittleEndian (width n : Nat) :
    (encodeLittleEndian width n).length = width := by
  induction width generalizing n with
  | zero => rfl
  | succ width ih => simp [encodeLittleEndian, ih]

/-- The two bytes of a 16-bit word. -/
def bytesOfWord16 (w : UInt16) : Bytes := encodeLittleEndian 2 w.toNat

/-- The four bytes of a 32-bit word. -/
def bytesOfWord32 (w : UInt32) : Bytes := encodeLittleEndian 4 w.toNat

@[simp]
theorem length_bytesOfWord16 (w : UInt16) : (bytesOfWord16 w).length = 2 :=
  length_encodeLittleEndian 2 _

@[simp]
theorem length_bytesOfWord32 (w : UInt32) : (bytesOfWord32 w).length = 4 :=
  length_encodeLittleEndian 4 _

/-- The 32-bit word equal to `n`, if there is one. -/
def word32? (n : Nat) : Option UInt32 :=
  if h : n < UInt32.size then some (UInt32.ofNatLT n h) else none

theorem word32?_eq_some_iff {n : Nat} {w : UInt32} : word32? n = some w ↔ w.toNat = n := by
  unfold word32?
  constructor
  · intro h
    split at h
    · rw [← Option.some.inj h, UInt32.toNat_ofNatLT]
    · cases h
  · rintro rfl
    simp [w.toNat_lt_size]

end DwarfLines
