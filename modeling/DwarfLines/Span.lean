import DwarfLines.Bytes

/-!
# Spans

A run of bytes named by where it starts and where it stops.
-/

namespace DwarfLines

/-- The bytes from `start` up to `stop`. -/
structure Span where
  start : Nat
  stop : Nat
  deriving DecidableEq, Repr

namespace Span

/-- The number of bytes. -/
def length (span : Span) : Nat := span.stop - span.start

/-- The bytes themselves. -/
def slice (span : Span) (bytes : Bytes) : Bytes := (bytes.drop span.start).take span.length

/-- The bytes themselves, if all of them are there. -/
def slice? (span : Span) (bytes : Bytes) : Option Bytes :=
  if span.stop ≤ bytes.length then some (span.slice bytes) else none

theorem length_slice {span : Span} {bytes : Bytes} (h : span.stop ≤ bytes.length) :
    (span.slice bytes).length = span.length := by
  simp only [slice, length, List.length_take, List.length_drop]
  omega

end Span

end DwarfLines
