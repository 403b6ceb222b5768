import DwarfLines.DebugError
import DwarfLines.Decoder
import DwarfLines.UnitFormat

/-!
# Line sections

A line section holds units one after the other, each with its length in front. `unitAt` takes the
unit at an offset; `unitsOf` takes all units in a row from the start.
-/

namespace DwarfLines

/-- Takes the unit at the front of `bytes`, which stand at `offset` in their section. -/
def takeUnit (offset : UInt32) (bytes : Bytes) : Except DebugError Bytes := do
  let some (unitLength, _) := Decoder.word32 bytes | throw (.lineOffsetOutOfBounds offset)
  if wideFormatLength ≤ unitLength then throw .wideFormat
  let (unit, _) ← orTruncated (Decoder.take (4 + unitLength.toNat) bytes)
  return unit

/-- The unit that starts at `offset`, with its length field. -/
def unitAt (data : Bytes) (offset : UInt32) : Except DebugError Bytes :=
  takeUnit offset (data.drop offset.toNat)

/-- A unit has at least its length field. -/
theorem four_le_length_of_takeUnit {offset : UInt32} {bytes unit : Bytes}
    (h : takeUnit offset bytes = .ok unit) : 4 ≤ unit.length := by
  simp only [takeUnit] at h
  split at h
  · rename_i unitLength _ _
    split at h
    · cases h
    · simp only [orTruncated, Decoder.take_eq, bind, Except.bind, pure, Except.pure] at h
      split at h
      · cases h
      · rename_i value hv
        cases h
        split at hv
        · rename_i ht
          cases hv
          split at ht
          · cases ht
            simp only [List.length_take]
            omega
          · cases ht
        · cases hv
  · cases h

/-- The units from `offset` on, where `bytes` stand, and why not all of the bytes are units, if they
are not. -/
def unitsFrom (offset : Nat) (bytes : Bytes) : List (UInt32 × Bytes) × Option DebugError :=
  if bytes.isEmpty then ([], none)
  else
    match _h : takeUnit (UInt32.ofNat offset) bytes with
    | .error e => ([], some e)
    | .ok unit =>
      let (units, stopped) := unitsFrom (offset + unit.length) (bytes.drop unit.length)
      ((UInt32.ofNat offset, unit) :: units, stopped)
termination_by bytes.length
decreasing_by
  have : bytes ≠ [] := by simpa using ‹¬bytes.isEmpty = true›
  have := List.length_pos_iff.mpr this
  have := four_le_length_of_takeUnit _h
  simp only [List.length_drop]
  omega

/-- The units of a whole section. -/
def unitsOf (data : Bytes) : List (UInt32 × Bytes) × Option DebugError := unitsFrom 0 data

end DwarfLines
