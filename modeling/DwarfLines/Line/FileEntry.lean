import DwarfLines.Leb128
import DwarfLines.Text.Path
import DwarfLines.Text.Utf8

/-!
# Source files

A unit names its source files by entries of a file table, each pointing into a table of directories.
Both tables end with an empty name.
-/

namespace DwarfLines

/-- An entry of a file table. -/
structure FileEntry where
  name : String
  /-- The directory of the file: 0 for that of the compilation, otherwise a place in the directory
  table, counted from 1. -/
  directoryIndex : Nat
  /-- When the file was last modified, 0 if it is not known. -/
  modified : Nat
  /-- The size of the file, 0 if it is not known. -/
  size : Nat
  deriving DecidableEq, Repr

/-- Reads the name of a directory; an empty name ends the table. -/
def decodeDirectory : Decoder (Option String) := do
  let name ← Decoder.cstring
  return if name.isEmpty then none else some (Utf8.decodeLossy name)

theorem decodeDirectory_shortens : decodeDirectory.Shortens := by
  intro bytes a rest h
  obtain ⟨name, rest', h', h⟩ := Decoder.bind_eq_some_iff.mp h
  obtain ⟨-, rfl⟩ := Decoder.pure_eq_some_iff.mp h
  exact Decoder.length_lt_of_cstring h'

namespace FileEntry

/-- Reads an entry; an empty name ends the table and is not followed by numbers. -/
def decodeItem : Decoder (Option FileEntry) := do
  let name ← Decoder.cstring
  if name.isEmpty then return none
  let directoryIndex ← Leb128.unsigned
  let modified ← Leb128.unsigned
  let size ← Leb128.unsigned
  return some { name := Utf8.decodeLossy name, directoryIndex, modified, size }

theorem decodeItem_shortens : decodeItem.Shortens := by
  intro bytes a rest h
  obtain ⟨name, rest₁, h₁, h⟩ := Decoder.bind_eq_some_iff.mp h
  have := Decoder.length_lt_of_cstring h₁
  split at h
  · obtain ⟨-, rfl⟩ := Decoder.pure_eq_some_iff.mp h
    assumption
  · obtain ⟨directoryIndex, rest₂, h₂, h⟩ := Decoder.bind_eq_some_iff.mp h
    obtain ⟨modified, rest₃, h₃, h⟩ := Decoder.bind_eq_some_iff.mp h
    obtain ⟨size, rest₄, h₄, h⟩ := Decoder.bind_eq_some_iff.mp h
    obtain ⟨-, rfl⟩ := Decoder.pure_eq_some_iff.mp h
    have := Leb128.length_lt_of_unsigned h₂
    have := Leb128.length_lt_of_unsigned h₃
    have := Leb128.length_lt_of_unsigned h₄
    omega

/-- Whether the entry's directory is missing from the table. -/
def isMisplaced (entry : FileEntry) (directories : List String) : Bool :=
  directories.length < entry.directoryIndex

/-- The path of the file: absolute, with relative directories taken from `current`, if there is such a
directory. A file whose directory is missing keeps its bare name. -/
def path (entry : FileEntry) (current : Option String) (directories : List String) : String :=
  match entry.directoryIndex with
  | 0 => Path.resolve current entry.name
  | index + 1 =>
    match directories[index]? with
    | some directory => Path.resolve current (Path.join directory entry.name)
    | none => entry.name

end FileEntry

/-- The item with a given number, counted from 1. -/
def numbered? {α : Type} (items : List α) : Nat → Option α
  | 0 => none
  | index + 1 => items[index]?

end DwarfLines
