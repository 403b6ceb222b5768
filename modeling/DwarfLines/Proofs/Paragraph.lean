import DwarfLines.Listing
import DwarfLines.Proofs.Text
import Mathlib.Data.List.Forall2

/-!
# What a paragraph holds

The paragraph of a program, said line by line: a title that marks a program nothing refers to, a line
for each file with its number and its path, a caption, and a line for each row with its seven columns.
`Program.isParagraph_listing` shows that listings of programs are such paragraphs.
-/

namespace DwarfLines

namespace FileEntry

/-- Whether a text is the path of a file. -/
inductive IsPath (entry : FileEntry) (current : Option String) (directories : List String) :
    String → Prop where
  /-- The file is in the directory of the compilation. -/
  | compilation {text : String} : entry.directoryIndex = 0 →
      Path.IsResolved current entry.name text → IsPath entry current directories text
  /-- The file is in a directory of the table, in which places are counted from 1. -/
  | listed {index : Nat} {directory text : String} : entry.directoryIndex = index + 1 →
      directories[index]? = some directory →
      Path.IsResolved current (Path.join directory entry.name) text →
      IsPath entry current directories text
  /-- The directory of the file is missing from the table. -/
  | misplaced : directories.length < entry.directoryIndex →
      IsPath entry current directories entry.name

theorem isPath_path (entry : FileEntry) (current : Option String) (directories : List String) :
    entry.IsPath current directories (entry.path current directories) := by
  unfold path
  split
  · rename_i hindex
    exact .compilation hindex (Path.isResolved_resolve _ _)
  · rename_i index hindex
    split
    · rename_i directory hdirectory
      exact .listed hindex hdirectory (Path.isResolved_resolve _ _)
    · rename_i hmissing
      rw [List.getElem?_eq_none_iff] at hmissing
      exact .misplaced (by omega)

/-- Whether a text is the line of the file with the given number: the number in a column, and the
path. -/
def IsLine (current : Option String) (directories : List String) (number : Nat) (entry : FileEntry)
    (text : String) : Prop :=
  ∃ cell path, text = "  file " ++ cell ++ ": " ++ path ++ "\n" ∧
    Text.IsRight ' ' 3 (toString number) cell ∧ entry.IsPath current directories path

end FileEntry

namespace Row

/-- Whether a text is a line with the given columns: the first aligned to the left and the others to the
right, with a blank between neighbours. -/
def HasColumns (address : String) (others : List String) (text : String) : Prop :=
  ∃ first cells, text = "  " ++ String.intercalate " " (first :: cells) ++ "\n" ∧
    Text.IsLeft 10 address first ∧
    List.Forall₂ (fun column cell => Text.IsRight ' ' column.1 column.2 cell)
      ([6, 4, 4, 4, 5, 3].zip others) cells

theorem hasColumns_columns (address line file statement column discriminator stop : String) :
    HasColumns address [line, file, statement, column, discriminator, stop]
      (columns address line file statement column discriminator stop) := by
  refine ⟨Text.padRight 10 address, [Text.right 6 line, Text.right 4 file,
    Text.right 4 statement, Text.right 4 column, Text.right 5 discriminator, Text.right 3 stop],
    ?_, Text.isLeft_padRight 10 address, ?_⟩
  · unfold columns
    simp only [String.intercalate_cons_cons, String.intercalate_singleton, ← String.append_assoc]
  · simp only [List.zip_cons_cons, List.zip_nil_left, List.forall₂_cons, List.Forall₂.nil, and_true]
    exact ⟨Text.isRight_padLeft .., Text.isRight_padLeft .., Text.isRight_padLeft ..,
      Text.isRight_padLeft .., Text.isRight_padLeft .., Text.isRight_padLeft ..⟩

/-- Whether a text is the line of a row: its address in eight digits, then its numbers and flags. -/
def IsLine (row : Row) (text : String) : Prop :=
  ∃ digits word, Text.IsHexadecimal row.address.toNat digits ∧ Text.IsRight '0' 8 digits word ∧
    HasColumns ("0x" ++ word) [toString row.line.toInt, toString row.file.toNat,
      if row.isStatement then "yes" else "no", toString row.column.toNat,
      toString row.discriminator.toNat, if row.endSequence then "yes" else "no"] text

theorem isLine_listing (row : Row) : row.IsLine row.listing :=
  ⟨_, _, Text.isHexadecimal_hexDigits _, Text.isRight_padLeft .., hasColumns_columns ..⟩

end Row

namespace Program

/-- Whether a text is the title of a program at an offset, with a mark unless the program is referred
to. -/
def IsTitle (referenced : Prop) (offset : Nat) (program : Program) (text : String) : Prop :=
  ∃ digits mark, text = "line program at 0x" ++ digits ++ " (version " ++
      toString program.header.version ++ ", " ++ toString program.files.length ++ " files, " ++
      toString program.rows.length ++ " rows)" ++ mark ++ "\n" ∧
    Text.IsHexadecimal offset digits ∧ (referenced → mark = "") ∧
    (¬ referenced → mark = " unreferenced")

/-- Whether a text is the paragraph of a program at an offset: its title, a line for each of its files,
the caption, and a line for each of its rows. -/
def IsParagraph (current : Option String) (referenced : Prop) (offset : Nat) (program : Program)
    (text : String) : Prop :=
  ∃ title files caption rows, text = title ++ String.join files ++ caption ++ String.join rows ∧
    program.IsTitle referenced offset title ∧
    List.Forall₂ (fun file line =>
      file.1.IsLine current program.header.directories (file.2 + 1) line)
      program.files.zipIdx files ∧
    Row.HasColumns "addr" ["line", "file", "stmt", "col", "discr", "end"] caption ∧
    List.Forall₂ Row.IsLine program.rows rows

/-- The listing of a program is its paragraph. -/
theorem isParagraph_listing {referenced : Prop} [Decidable referenced] (current : Option String)
    (offset : Nat) (program : Program) :
    program.IsParagraph current referenced offset
      (program.listing current (decide referenced) offset) := by
  refine ⟨_, _, _, _, rfl, ?_, ?_, Row.hasColumns_columns .., ?_⟩
  · refine ⟨Text.hexDigits offset, if decide referenced then "" else " unreferenced", ?_,
      Text.isHexadecimal_hexDigits offset, fun h => if_pos (decide_eq_true h),
      fun h => if_neg (by simpa using h)⟩
    simp only [Text.hex, ← String.append_assoc]
    rfl
  · rw [List.forall₂_map_right_iff, List.forall₂_same]
    exact fun file _ => ⟨_, _, rfl, Text.isRight_padLeft .., file.1.isPath_path _ _⟩
  · rw [List.forall₂_map_right_iff, List.forall₂_same]
    exact fun row _ => row.isLine_listing

end Program

end DwarfLines
