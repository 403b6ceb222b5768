import DwarfLines.Bytes

/-!
# Decoders

A decoder takes a value off the front of a byte string and returns the bytes that follow it, or
fails if the bytes end too early or are ill-formed. This module has the fixed-width words, runs of
a given length, and strings that a zero byte ends.
-/

namespace DwarfLines

/-- Takes a value off the front of a byte string, leaving the bytes after it. -/
abbrev Decoder := StateT Bytes Option

namespace Decoder

/-- The next byte. -/
def byte : Decoder UInt8
  | [] => none
  | b :: rest => some (b, rest)

/-- The next `n` bytes. -/
def take (n : Nat) : Decoder Bytes := fun bytes =>
  let front := bytes.take n
  if front.length = n then some (front, bytes.drop n) else none

/-- A 16-bit word, low byte first. -/
def word16 : Decoder UInt16 := do
  return UInt16.ofNat (decodeLittleEndian (← take 2))

/-- A 32-bit word, low byte first. -/
def word32 : Decoder UInt32 := do
  return UInt32.ofNat (decodeLittleEndian (← take 4))

/-- The bytes before the next zero byte, which is taken too. -/
def cstring : Decoder Bytes
  | [] => none
  | b :: rest =>
    if b = 0 then some ([], rest)
    else (cstring rest).map fun (front, rest) => (b :: front, rest)

theorem bind_eq_some_iff {α β : Type} {d : Decoder α} {f : α → Decoder β} {bytes rest : Bytes}
    {b : β} : (d >>= f) bytes = some (b, rest) ↔
      ∃ a between, d bytes = some (a, between) ∧ f a between = some (b, rest) := by
  simp only [bind, StateT.bind, Option.bind_eq_some_iff, Prod.exists]

theorem pure_eq_some_iff {α : Type} {a b : α} {bytes rest : Bytes} :
    (pure a : Decoder α) bytes = some (b, rest) ↔ a = b ∧ bytes = rest := by
  show some (a, bytes) = some (b, rest) ↔ _
  simp

theorem map_eq_some_iff {α β : Type} {d : Decoder α} {f : α → β} {bytes rest : Bytes} {b : β} :
    (f <$> d) bytes = some (b, rest) ↔ ∃ a, d bytes = some (a, rest) ∧ f a = b := by
  simp only [Functor.map, StateT.map, bind, pure, Option.bind_eq_some_iff, Option.some.injEq,
    Prod.mk.injEq, Prod.exists]
  constructor
  · rintro ⟨a, between, h, rfl, rfl⟩
    exact ⟨a, h, rfl⟩
  · rintro ⟨a, h, rfl⟩
    exact ⟨a, rest, h, rfl, rfl⟩

theorem take_eq (n : Nat) (bytes : Bytes) :
    take n bytes = if n ≤ bytes.length then some (bytes.take n, bytes.drop n) else none := by
  simp only [take, List.length_take]
  congr 1
  simp only [eq_iff_iff]
  omega

/-- A string that ends takes its bytes, a zero byte, and nothing else. -/
theorem cstring_eq_some_iff {bytes front rest : Bytes} :
    cstring bytes = some (front, rest) ↔ bytes = front ++ 0 :: rest ∧ 0 ∉ front := by
  induction bytes generalizing front with
  | nil => simp [cstring]
  | cons b bs ih =>
    by_cases hb : b = 0
    · subst hb
      cases front with
      | nil => simp [cstring, eq_comm]
      | cons c cs =>
        simp only [cstring, if_true, List.cons_append, List.cons.injEq, List.mem_cons, not_or]
        constructor
        · rintro h
          cases h
        · rintro ⟨⟨rfl, _⟩, h, _⟩
          exact absurd rfl h
    · cases front with
      | nil => simp [cstring, hb]
      | cons c cs =>
        have hc : ¬ (0 : UInt8) = b := fun h => hb h.symm
        simp only [cstring, hb, if_false, Option.map_eq_some_iff, Prod.mk.injEq, Prod.exists,
          List.cons.injEq, List.cons_append, List.mem_cons, not_or]
        constructor
        · rintro ⟨cs', rest', h, ⟨rfl, rfl⟩, rfl⟩
          obtain ⟨rfl, hz⟩ := ih.mp h
          exact ⟨⟨rfl, rfl⟩, hc, hz⟩
        · rintro ⟨⟨rfl, rfl⟩, _, hz⟩
          exact ⟨cs, rest, ih.mpr ⟨rfl, hz⟩, ⟨rfl, rfl⟩, rfl⟩

theorem length_lt_of_byte {bytes rest : Bytes} {b : UInt8} (h : byte bytes = some (b, rest)) :
    rest.length < bytes.length := by
  cases bytes with
  | nil => cases h
  | cons c cs => cases h; simp

theorem length_lt_of_cstring {bytes front rest : Bytes}
    (h : cstring bytes = some (front, rest)) : rest.length < bytes.length := by
  obtain ⟨rfl, -⟩ := cstring_eq_some_iff.mp h
  simp only [List.length_append, List.length_cons]
  omega

theorem length_take_le {n : Nat} {bytes front rest : Bytes}
    (h : take n bytes = some (front, rest)) : rest.length ≤ bytes.length := by
  rw [take_eq] at h
  split at h
  · cases h
    simp
  · cases h

/-- Reads `count` values. -/
def times {α : Type} (d : Decoder α) : Nat → Decoder (List α)
  | 0 => return []
  | count + 1 => do
    let value ← d
    let values ← times d count
    return value :: values

/-! ## Tables

A table is a run of items that a terminator ends. The decoder of an item answers `none` for the
terminator, and takes at least one byte either way.
-/

/-- Whatever the decoder accepts, it takes at least one byte. -/
def Shortens {α : Type} (d : Decoder α) : Prop :=
  ∀ (bytes : Bytes) (a : α) (rest : Bytes), d bytes = some (a, rest) → rest.length < bytes.length

theorem length_le_of_times {α : Type} {d : Decoder α} (shortens : Shortens d) {count : Nat}
    {bytes rest : Bytes} {values : List α} (h : times d count bytes = some (values, rest)) :
    rest.length ≤ bytes.length := by
  induction count generalizing bytes values with
  | zero =>
    obtain ⟨-, rfl⟩ := pure_eq_some_iff.mp h
    exact Nat.le_refl _
  | succ count ih =>
    obtain ⟨_, rest₁, h₁, h⟩ := bind_eq_some_iff.mp h
    obtain ⟨_, rest₂, h₂, h⟩ := bind_eq_some_iff.mp h
    obtain ⟨-, rfl⟩ := pure_eq_some_iff.mp h
    have := shortens _ _ _ h₁
    have := ih h₂
    omega

/-- The items before the terminator, or before the first failure, and the bytes after the
terminator if it was reached. -/
def items {α : Type} (item : Decoder (Option α)) (shortens : Shortens item) (bytes : Bytes) :
    List α × Option Bytes :=
  match _h : item bytes with
  | none => ([], none)
  | some (none, rest) => ([], some rest)
  | some (some a, rest) =>
    let (tail, rest) := items item shortens rest
    (a :: tail, rest)
termination_by bytes.length
decreasing_by exact shortens _ _ _ _h

/-- The items up to the terminator, which has to be there. -/
def table {α : Type} (item : Decoder (Option α)) (shortens : Shortens item) : Decoder (List α) :=
  fun bytes =>
    match items item shortens bytes with
    | (as, some rest) => some (as, rest)
    | (_, none) => none

/-- The bytes after a terminated table are fewer than the bytes before it. -/
theorem length_lt_of_items {α : Type} {item : Decoder (Option α)} {shortens : Shortens item}
    {bytes rest : Bytes} {as : List α} (h : items item shortens bytes = (as, some rest)) :
    rest.length < bytes.length := by
  fun_induction items item shortens bytes generalizing as with
  | case1 => simp at h
  | case2 bytes rest' hi =>
    simp only [Prod.mk.injEq, Option.some.injEq] at h
    obtain ⟨-, rfl⟩ := h
    exact shortens _ _ _ hi
  | case3 bytes a rest' hi tail rest'' hr ih =>
    simp only [Prod.mk.injEq] at h
    obtain ⟨-, rfl⟩ := h
    exact Nat.lt_trans (ih hr) (shortens _ _ _ hi)

theorem length_lt_of_table {α : Type} {item : Decoder (Option α)} {shortens : Shortens item}
    {bytes rest : Bytes} {as : List α} (h : table item shortens bytes = some (as, rest)) :
    rest.length < bytes.length := by
  simp only [table] at h
  split at h
  · rename_i hi
    cases h
    exact length_lt_of_items hi
  · cases h

end Decoder

end DwarfLines
