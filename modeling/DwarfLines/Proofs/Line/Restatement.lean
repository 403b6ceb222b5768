import DwarfLines.Proofs.Line.Section

/-!
# Programs written again

Writing a decoded program leaves its tables as they are, but for the files that the program's own
instructions define, which join the others in the table of the header. So every file keeps its
number, and what is written from the new program is what is written from the old one.
-/

namespace DwarfLines

namespace Program.Restates

variable {new old : Program}

/-- Each number is that of the same file. -/
theorem file?_eq (h : new.Restates old) (number : Nat) : new.file? number = old.file? number :=
  congrArg (numbered? · number) h.files_eq

/-- Each number is that of the same file, also for a reader that leaves the instructions alone. -/
theorem numbered?_headerFiles (h : new.Restates old) (number : Nat) :
    numbered? new.header.files number = old.file? number :=
  congrArg (numbered? · number) h.headerFiles_eq

/-- The same rows are written the same. -/
theorem encode_eq (h : new.Restates old) (rows : List Row) : new.encode rows = old.encode rows := by
  rw [encode, h.outputVersion_eq, h.params_eq, h.tables_eq]
  rfl

end Program.Restates

/-- Whatever rows a decoded program is written with, the unit decodes to these rows, with the tables
and parameters that the program had. All its files are now in the table of the header, under the
numbers that they had. -/
theorem Program.encode_keeps_files {unit bytes : Bytes} {program : Program} {rows : List Row}
    (h : decode unit = .ok program) (hencode : program.encode rows = .ok bytes)
    (hwide : bytes.length < 4 + 0xfffffff0) :
    ∃ program', decode bytes = .ok program' ∧ program'.rows = rows ∧
      program'.tables = program.tables ∧ program'.header.params = program.header.params ∧
      program'.header.operandCounts = program.header.operandCounts ∧
      program'.header.directories = program.header.directories ∧
      program'.files = program.files ∧ program'.header.files = program.files ∧
      ∀ number, program'.file? number = program.file? number ∧
        numbered? program'.header.files number = program.file? number := by
  obtain ⟨-, program', hdecode, hrows, hsame⟩ := decode_of_encode h hencode hwide
  exact ⟨program', hdecode, hrows, hsame.tables_eq, hsame.params_eq, hsame.operandCounts_eq,
    hsame.directories_eq, hsame.files_eq, hsame.headerFiles_eq,
    fun number => ⟨hsame.file?_eq number, hsame.numbered?_headerFiles number⟩⟩

/-- A unit of version 4 with bytes between its tables and its program, which defines a file in each
of two sequences: one whose name is not text, and one with a directory in two bytes and with more
bytes behind it. -/
def definingUnit : Bytes :=
  bytesOfWord32 61 ++ bytesOfWord16 4 ++ bytesOfWord32 27 ++ [1, 1, 1, 251, 14, 10] ++
    [0, 1, 1, 1, 1, 0, 0, 0, 1] ++ [97, 255, 0, 0] ++ [98, 0, 0, 0, 0, 0] ++ [7, 7] ++
    [0, 7, 3, 100, 0x80, 0, 1, 0, 0] ++ [0x20] ++ [0, 1, 1] ++
    [0, 9, 3, 101, 0, 0x81, 0, 0, 0, 0xff, 0xff] ++ [0x30] ++ [0, 1, 1]

theorem Program.encode_keeps_files_definingUnit :
    ∃ program bytes, decode definingUnit = .ok program ∧ program.encode jumpingRows = .ok bytes ∧
      bytes.length < 4 + 0xfffffff0 ∧ program.files.length = 3 ∧
      ∃ program', decode bytes = .ok program' ∧ program'.rows = jumpingRows ∧
        program'.tables = program.tables ∧ program'.header.params = program.header.params ∧
        program'.header.operandCounts = program.header.operandCounts ∧
        program'.header.directories = program.header.directories ∧
        program'.files = program.files ∧ program'.header.files = program.files ∧
        ∀ number, program'.file? number = program.file? number ∧
          numbered? program'.header.files number = program.file? number := by
  have hwritten : (decode definingUnit).toOption.any (fun program =>
      program.files.length = 3 ∧ (program.encode jumpingRows).toOption.any
        fun bytes => bytes.length < 4 + 0xfffffff0) = true := by decide +kernel
  obtain ⟨program, hdecode, hwritten⟩ := Outcome.exists_of_any_toOption hwritten
  obtain ⟨hfiles, hencoded⟩ := of_decide_eq_true hwritten
  obtain ⟨bytes, hencode, hshort⟩ := Outcome.exists_of_any_toOption hencoded
  exact ⟨program, bytes, hdecode, hencode, of_decide_eq_true hshort, hfiles,
    encode_keeps_files hdecode hencode (of_decide_eq_true hshort)⟩

end DwarfLines
