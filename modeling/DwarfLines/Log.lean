import DwarfLines.Text.Quoted

/-!
# The log

What is worth telling about a run, how important each piece is, and its text.
-/

namespace DwarfLines

/-- How important an event is. -/
inductive Level where
  | warning
  | info
  | debug
  deriving DecidableEq, Repr

namespace Level

/-- The name of a level. -/
def name : Level → String
  | warning => "WARN"
  | info => "INFO"
  | debug => "DEBUG"

/-- How much detail a level stands for. -/
def detail : Level → Nat
  | warning => 0
  | info => 1
  | debug => 2

end Level

/-- The figures of a run over a whole file. -/
structure Stats where
  /-- The number of line programs written. -/
  units : Nat
  /-- The number of rows read. -/
  rowsDecoded : Nat
  /-- The number of rows written. -/
  rowsKept : Nat
  /-- The size of the line section that was read. -/
  oldLineSize : UInt32
  /-- The size of the line section that was written. -/
  newLineSize : UInt32
  /-- The size of the file that was written. -/
  fileSize : UInt32
  deriving DecidableEq, Repr

/-- What is worth telling about a run. -/
inductive Event where
  /-- A file whose directory is missing from the table of directories. -/
  | misplacedFile (name : String) (directoryIndex : Nat)
  /-- A file that a program defines itself. -/
  | inlineFile (name : String)
  /-- An extended instruction that is passed over. -/
  | unknownExtended (opcode : UInt8) (length : Nat)
  | unitWithoutRoot (unitOffset : Nat)
  | unitWithoutStatementList (unitOffset : Nat)
  /-- A line program that an earlier unit refers to as well. -/
  | sharedProgram (lineOffset : UInt32) (unitOffset : Nat)
  | copiedFixed (fixedStop stop : UInt32)
  | copiedSection (index : Nat) (name : String) (start stop : UInt32)
  | wroteSectionTable (start stop : UInt32)
  | wroteProgram (old new : UInt32) (rows kept oldSize newSize : Nat)
  | wroteFile (path : String) (stats : Stats)
  deriving DecidableEq, Repr

namespace Event

/-- How important an event is. -/
def level : Event → Level
  | misplacedFile .. | sharedProgram .. => .warning
  | wroteFile .. => .info
  | _ => .debug

/-- What happened, and the figures that go with it. -/
def text : Event → String
  | misplacedFile name directoryIndex =>
    s!"file directory index out of range name={Text.quoted name} directory_index={directoryIndex}"
  | inlineFile name => s!"inline file definition name={name}"
  | unknownExtended opcode length =>
    s!"skipping unknown extended opcode opcode={opcode} length={length}"
  | unitWithoutRoot unitOffset =>
    s!"compile unit without a root entry unit_offset={unitOffset}"
  | unitWithoutStatementList unitOffset =>
    s!"compile unit without DW_AT_stmt_list unit_offset={unitOffset}"
  | sharedProgram lineOffset unitOffset =>
    "line program shared by several compile units " ++
      s!"line_offset={lineOffset} unit_offset={unitOffset}"
  | copiedFixed fixedStop stop => s!"copied fixed region fixed_end={fixedStop} end={stop}"
  | copiedSection index name start stop =>
    s!"copied section index={index} name={name} start={start} end={stop}"
  | wroteSectionTable start stop => s!"wrote section header table shoff={start} end={stop}"
  | wroteProgram old new rows kept oldSize newSize =>
    s!"rewrote line program old={old} new={new} rows={rows} kept={kept} " ++
      s!"old_size={oldSize} new_size={newSize}"
  | wroteFile path stats =>
    s!"shrank .debug_line file={path} units={stats.units} rows={stats.rowsDecoded} " ++
      s!"kept={stats.rowsKept} old_size={stats.oldLineSize} new_size={stats.newLineSize} " ++
      s!"file_size={stats.fileSize}"

/-- The line of the log that tells of an event. -/
def line (event : Event) : String := event.level.name ++ " " ++ event.text

end Event

end DwarfLines
