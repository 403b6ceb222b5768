import DwarfLines.Info.Walk
import DwarfLines.Log

/-!
# What the walk tells

The walk tells of compile units that do not refer to a line program.
-/

namespace DwarfLines

/-- What visiting a compile unit tells. -/
def UnitVisit.events (visit : UnitVisit) : List Event :=
  match visit.root with
  | .absent => [.unitWithoutRoot visit.offset]
  | .withoutStatementList => [.unitWithoutStatementList visit.offset]
  | .statementList _ _ => []

end DwarfLines
