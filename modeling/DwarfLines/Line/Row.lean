/-!
# Rows

A row of the line table ties a machine address to a source position. Rows come in sequences, each
closed by a row that marks the first address after it.
-/

namespace DwarfLines

/-- A row of the line table, and at the same time the registers that a program works on. -/
structure Row where
  address : UInt32
  line : Int32
  /-- The number of the source file, counted from 1. -/
  file : UInt32
  /-- The source column, 0 if it is not known. -/
  column : UInt32
  /-- Tells apart the blocks of one source position. -/
  discriminator : UInt32
  /-- Whether the address is a good place for a breakpoint. -/
  isStatement : Bool
  /-- Whether the row closes its sequence. -/
  endSequence : Bool
  deriving DecidableEq, Repr

/-- The registers at the start of a sequence. -/
def Row.initial (isStatement : Bool) : Row :=
  { address := 0, line := 1, file := 1, column := 0, discriminator := 0, isStatement,
    endSequence := false }

end DwarfLines
