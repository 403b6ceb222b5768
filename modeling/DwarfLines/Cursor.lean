import DwarfLines.DebugError
import DwarfLines.Decoder

/-!
# Cursors

A cursor is a place in a section together with the bytes from there to the end of the region that
may be read. Narrowing the region gives a cursor at the same place with fewer bytes, so no read
leaves the region it was given.

A reading computation that fails leaves the cursor where the last successful read put it.
-/

namespace DwarfLines

/-- A place in a section and the bytes that may be read there. -/
structure Cursor where
  /-- The offset from the start of the section. -/
  position : Nat
  /-- The bytes from `position` to the end of the region. -/
  rest : Bytes
  deriving DecidableEq, Repr

/-- A computation that reads at a cursor and moves it. -/
abbrev Reading := EStateM DebugError Cursor

/-- What a reading yields at a given cursor. -/
def Reading.value {α : Type} (reading : Reading α) (c : Cursor) : Except DebugError α :=
  match reading c with
  | .ok a _ => .ok a
  | .error e _ => .error e

namespace Cursor

/-- The start of a section, which may be read to its end. -/
def ofBytes (data : Bytes) : Cursor := ⟨0, data⟩

/-- The place at `position`, unless it lies past the end. -/
def at? (data : Bytes) (position : Nat) : Option Cursor :=
  if position ≤ data.length then some ⟨position, data.drop position⟩ else none

/-- The offset at which the region ends. -/
def stop (c : Cursor) : Nat := c.position + c.rest.length

/-- The number of bytes left in the region. -/
def remaining (c : Cursor) : Nat := c.rest.length

/-- Whether the region is used up. -/
def isEmpty (c : Cursor) : Bool := c.rest.isEmpty

/-- The same place with a region of `length` bytes, unless fewer remain. -/
def bounded? (c : Cursor) (length : Nat) : Option Cursor :=
  if length ≤ c.rest.length then some ⟨c.position, c.rest.take length⟩ else none

/-- Reads a value, or fails without moving. -/
def read {α : Type} (d : Decoder α) : Reading α := fun c =>
  match d c.rest with
  | some (a, rest) => .ok a ⟨c.position + (c.rest.length - rest.length), rest⟩
  | none => .error .truncated c

end Cursor

end DwarfLines
