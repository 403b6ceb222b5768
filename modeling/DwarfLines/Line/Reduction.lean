import DwarfLines.Line.Row

/-!
# Dropping redundant rows

A debugger needs the rows where the source line changes; rows that only split an instruction range
of one line can go. `reduce` makes one pass over the rows and keeps

* the rows that close sequences, unchanged, and the first row of each sequence;
* of several rows at one address, the last;
* of a run of rows on one line of one file, the first, once a row of the run has to make room for
  the row after it.

Every kept row that closes no sequence becomes a place for a breakpoint.
-/

namespace DwarfLines

namespace Row

/-- The row as it is kept: a statement unless it closes a sequence. -/
def asStatement (row : Row) : Row := if row.endSequence then row else { row with isStatement := true }

/-- Whether two rows belong to one line of one file. A row that closes a sequence belongs to none. -/
def sameLocation (a b : Row) : Bool :=
  !a.endSequence && !b.endSequence && a.line == b.line && a.file == b.file

end Row

/-- Reduces `rows` after the rows `kept`, of which the latest comes first. -/
def reduceAfter : (kept rows : List Row) → List Row
  | kept, [] => kept.reverse
  | [], row :: rows => reduceAfter [row.asStatement] rows
  | last :: older, row :: rows =>
    if row.endSequence || last.endSequence then
      reduceAfter (row.asStatement :: last :: older) rows
    else if last.address = row.address then
      reduceAfter (row.asStatement :: older) rows
    else
      match older with
      | [] => reduceAfter [row.asStatement, last] rows
      | before :: oldest =>
        -- `last` gives way, and `row` is looked at again against what is left.
        if before.sameLocation last then
          reduceAfter (before :: oldest) ((row :: rows).dropWhile before.sameLocation)
        else reduceAfter (row.asStatement :: last :: before :: oldest) rows
termination_by kept rows => 2 * rows.length + kept.length
decreasing_by
  all_goals simp only [List.length_cons]
  all_goals first
    | omega
    | have := (List.dropWhile_sublist before.sameLocation (l := row :: rows)).length_le
      simp only [List.length_cons] at this
      omega

/-- The rows without the redundant ones. -/
def reduce (rows : List Row) : List Row := reduceAfter [] rows

end DwarfLines
