import DwarfLines.DebugFile
import DwarfLines.Info.Events
import DwarfLines.Line.Events
import DwarfLines.Line.Section

/-!
# Listing the line section of a file

The listing has a paragraph for each unit of the line section: a title, the files and the rows. A
unit that no compile unit refers to is marked. A unit that cannot be read ends the listing; nothing
of it is listed.
-/

namespace DwarfLines

namespace Row

/-- How a flag is listed. -/
def flagText (flag : Bool) : String := if flag then "yes" else "no"

/-- The columns of a line, in their widths. -/
def columns (address line file statement column discriminator stop : String) : String :=
  "  " ++ Text.padRight 10 address ++ " " ++ Text.right 6 line ++ " " ++ Text.right 4 file ++ " " ++
    Text.right 4 statement ++ " " ++ Text.right 4 column ++ " " ++ Text.right 5 discriminator ++
    " " ++ Text.right 3 stop ++ "\n"

/-- The line above the rows. -/
def caption : String := columns "addr" "line" "file" "stmt" "col" "discr" "end"

/-- The line of a row. -/
def listing (row : Row) : String :=
  columns (Text.hexWord row.address.toNat) (toString row.line.toInt) (toString row.file.toNat)
    (flagText row.isStatement) (toString row.column.toNat) (toString row.discriminator.toNat)
    (flagText row.endSequence)

end Row

namespace Program

/-- The paragraph of a unit that starts at `offset`; relative paths are taken from `current`. -/
def listing (current : Option String) (referenced : Bool) (offset : Nat) (program : Program) : String :=
  let title := s!"line program at {Text.hex offset} (version {program.header.version}, " ++
    s!"{program.files.length} files, {program.rows.length} rows)"
  let mark := if referenced then "" else " unreferenced"
  let files := program.files.zipIdx.map fun (file, index) =>
    s!"  file {Text.right 3 (toString (index + 1))}: " ++
      file.path current program.header.directories ++ "\n"
  title ++ mark ++ "\n" ++ String.join files ++ Row.caption ++
    String.join (program.rows.map Row.listing)

end Program

/-- What was listed, and how the listing ended. -/
structure Listing where
  text : String
  outcome : Traced Unit

namespace Listing

/-- A listing of nothing with the given outcome. -/
def ofOutcome (outcome : Traced Unit) : Listing := ⟨"", outcome⟩

/-- Lists the units of a line section, and fails if the section does not end with them. -/
def ofUnits (current : Option String) (referenced : List UInt32) :
    List (UInt32 × Bytes) × Option DebugError → Listing
  | ([], none) => ofOutcome (pure ())
  | ([], some e) => ofOutcome (Traced.fail (.debug e))
  | ((offset, unit) :: units, stopped) =>
    let events := decodingEvents unit
    match Program.decode unit with
    | .error e =>
      ofOutcome (do
        Traced.tell events
        (Traced.fail (.debug e)).during (.decodingProgram offset.toNat))
    | .ok program =>
      let rest := ofUnits current referenced (units, stopped)
      { text := program.listing current (referenced.contains offset) offset.toNat ++ rest.text
        outcome := do
          Traced.tell events
          rest.outcome }

/-- The line section of a file, and the offsets in it that compile units refer to. -/
def lineSection (data : Bytes) : Traced (Bytes × List UInt32) := do
  let file ← DebugFile.ofBytes data
  let (visits, stopped) := walk file.info file.abbreviations
  Traced.tell (visits.flatMap UnitVisit.events)
  match stopped with
  | some e => (Traced.fail (.debug e)).during .walkingUnits
  | none => return (file.line, (visits.filterMap UnitVisit.statementList?).map (·.lineOffset))

/-- Lists the line section of a file. -/
def ofFile (current : Option String) (data : Bytes) : Listing :=
  let found := lineSection data
  match found.result with
  | .error e => ⟨"", ⟨found.log, .error e⟩⟩
  | .ok (line, referenced) =>
    let listing := ofUnits current referenced (unitsOf line)
    { listing with outcome := { listing.outcome with log := found.log ++ listing.outcome.log } }

end Listing

end DwarfLines
