import DwarfLines.Info.Form

/-!
# Abbreviation tables

An entry of debugging information names an abbreviation, which declares the entry's tag and the
names and forms of its attributes. A table is a run of declarations that a zero code ends; of two
declarations with one code, the later counts.
-/

namespace DwarfLines

/-- The name of an attribute and the form of its value. -/
structure AttributeSpec where
  name : Nat
  form : Form
  deriving DecidableEq, Repr

/-- One declaration of a table. -/
structure Abbreviation where
  /-- The number that entries name the declaration by. -/
  code : Nat
  tag : Nat
  /-- Whether entries declared so own other entries. -/
  hasChildren : Bool
  /-- The attributes in the order in which their values are stored. -/
  attributes : List AttributeSpec
  deriving DecidableEq, Repr

namespace AttributeSpec

/-- Reads the name and form of an attribute; two zeros end the list. -/
def decodeItem : Decoder (Option AttributeSpec) := do
  let name ← Leb128.unsigned
  let form ← Leb128.unsigned
  if name = 0 ∧ form = 0 then return none
  return some ⟨name, .ofCode form⟩

theorem decodeItem_shortens : decodeItem.Shortens := by
  intro bytes a rest h
  obtain ⟨name, rest₁, h₁, h⟩ := Decoder.bind_eq_some_iff.mp h
  obtain ⟨form, rest₂, h₂, h⟩ := Decoder.bind_eq_some_iff.mp h
  have hrest : rest₂ = rest := by
    split at h <;> exact (Decoder.pure_eq_some_iff.mp h).2
  subst hrest
  have := Leb128.length_lt_of_unsigned h₁
  have := Leb128.length_lt_of_unsigned h₂
  omega

end AttributeSpec

namespace Abbreviation

/-- Reads a declaration; a zero code ends the table. -/
def decodeItem : Decoder (Option Abbreviation) := do
  let code ← Leb128.unsigned
  if code = 0 then return none
  let tag ← Leb128.unsigned
  let children ← Decoder.byte
  let attributes ← Decoder.table AttributeSpec.decodeItem AttributeSpec.decodeItem_shortens
  return some ⟨code, tag, children != 0, attributes⟩

theorem decodeItem_shortens : decodeItem.Shortens := by
  intro bytes a rest h
  obtain ⟨code, rest₁, h₁, h⟩ := Decoder.bind_eq_some_iff.mp h
  have := Leb128.length_lt_of_unsigned h₁
  split at h
  · obtain ⟨-, rfl⟩ := Decoder.pure_eq_some_iff.mp h
    assumption
  · obtain ⟨tag, rest₂, h₂, h⟩ := Decoder.bind_eq_some_iff.mp h
    obtain ⟨children, rest₃, h₃, h⟩ := Decoder.bind_eq_some_iff.mp h
    obtain ⟨attributes, rest₄, h₄, h⟩ := Decoder.bind_eq_some_iff.mp h
    obtain ⟨-, rfl⟩ := Decoder.pure_eq_some_iff.mp h
    have := Leb128.length_lt_of_unsigned h₂
    have := Decoder.length_lt_of_byte h₃
    have := Decoder.length_lt_of_table h₄
    omega

end Abbreviation

/-- The declarations of a table, one for each code. -/
structure AbbreviationTable where
  entries : List Abbreviation
  deriving DecidableEq, Repr

namespace AbbreviationTable

/-- The table that declares nothing. -/
def empty : AbbreviationTable := ⟨[]⟩

/-- Adds a declaration in place of any other with its code. -/
def insert (table : AbbreviationTable) (a : Abbreviation) : AbbreviationTable :=
  ⟨a :: table.entries.filter fun b => b.code != a.code⟩

/-- The declaration with a given code. -/
def get? (table : AbbreviationTable) (code : Nat) : Option Abbreviation :=
  table.entries.find? fun a => a.code == code

/-- The number of codes declared. -/
def size (table : AbbreviationTable) : Nat := table.entries.length

/-- Whether nothing is declared. -/
def isEmpty (table : AbbreviationTable) : Bool := table.entries.isEmpty

/-- The table of a list of declarations. -/
def ofList (declarations : List Abbreviation) : AbbreviationTable :=
  declarations.foldl insert empty

/-- Reads the table that starts at `offset`. -/
def read? (data : Bytes) (offset : Nat) : Option AbbreviationTable := do
  guard (offset ≤ data.length)
  let (declarations, _) ←
    Decoder.table Abbreviation.decodeItem Abbreviation.decodeItem_shortens (data.drop offset)
  return ofList declarations

end AbbreviationTable

end DwarfLines
