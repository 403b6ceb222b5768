import DwarfLines.Proofs.DebugFile
import DwarfLines.Proofs.Line.Section
import DwarfLines.Proofs.Paragraph

/-!
# Programs of a line section

The programs of a line section follow each other without gaps (`Program.Tile`), and there is only one
way in which programs can fill a section. A listing holds a paragraph for each of them
(`Listing.HasParagraphs`), marked unless a compile unit refers to it.
-/

namespace DwarfLines

open Outcome

namespace Program

/-- Whether programs follow each other without gaps in a line section, from the offset `start` up to
`stop`: each is the unit at its offset, which is as long as its length field says. -/
def Tile (line : Bytes) : Nat → List (UInt32 × Program) → Nat → Prop
  | start, [], stop => start = stop
  | start, (offset, program) :: items, stop => offset.toNat = start ∧
    ∃ unit, unitAt line offset = .ok unit ∧ IsUnit unit ∧ decode unit = .ok program ∧
      Tile line (start + unit.length) items stop

variable {line : Bytes} {start stop : Nat} {items : List (UInt32 × Program)}

/-- Programs that fill a section start with one at the first offset, unless there is no more of the
section. -/
theorem Tile.exists_head (h : Tile line start items line.length) (hlt : start < line.length) :
    ∃ offset unit program others, items = (offset, program) :: others ∧ offset.toNat = start ∧
      unitAt line offset = .ok unit ∧ decode unit = .ok program ∧
      Tile line (start + unit.length) others line.length := by
  cases items with
  | nil => exact absurd h (Nat.ne_of_lt hlt)
  | cons item items =>
    obtain ⟨offset, program⟩ := item
    obtain ⟨hoffset, unit, hunit, -, hprogram, hrest⟩ := h
    exact ⟨offset, unit, program, items, rfl, hoffset, hunit, hprogram, hrest⟩

/-- Programs do not fill what is left of a section where nothing is left. -/
theorem Tile.eq_nil (h : Tile line line.length items stop) : items = [] := by
  cases items with
  | nil => rfl
  | cons item items =>
    obtain ⟨hoffset, unit, hunit, hisUnit, -⟩ := h
    have hstop := stop_le_of_unitAt hunit
    have hpositive := hisUnit.length_pos
    omega

/-- The programs that fill a section are determined by it: each starts where the one before it ends. -/
theorem Tile.unique {others : List (UInt32 × Program)} (h : Tile line start items line.length)
    (hothers : Tile line start others line.length) : items = others := by
  induction items generalizing start others with
  | nil =>
    obtain rfl : start = line.length := h
    exact hothers.eq_nil.symm
  | cons item items ih =>
    obtain ⟨offset, program⟩ := item
    obtain ⟨rfl, unit, hunit, hisUnit, hprogram, hrest⟩ := h
    have hstop := stop_le_of_unitAt hunit
    have hpositive := hisUnit.length_pos
    obtain ⟨offset', unit', program', rest', rfl, hoffset, hunit', hprogram', hrest'⟩ :=
      hothers.exists_head (by omega)
    obtain rfl := UInt32.toNat_inj.mp hoffset
    obtain rfl := Except.ok.inj (hunit.symm.trans hunit')
    obtain rfl := Except.ok.inj (hprogram.symm.trans hprogram')
    rw [ih hrest hrest']

end Program

namespace Listing

/-- Whether a text is made of the paragraphs of programs at their offsets. A program is marked unless one
of the references is to it. -/
def HasParagraphs (current : Option String) (references : List StatementList)
    (items : List (UInt32 × Program)) (text : String) : Prop :=
  ∃ paragraphs, text = String.join paragraphs ∧
    List.Forall₂ (fun item paragraph => item.2.IsParagraph current
      (∃ reference ∈ references, reference.lineOffset = item.1) item.1.toNat paragraph)
      items paragraphs

theorem hasParagraphs_nil (current : Option String) (references : List StatementList) :
    HasParagraphs current references [] "" :=
  ⟨[], rfl, .nil⟩

theorem contains_lineOffset (references : List StatementList) (offset : UInt32) :
    (references.map StatementList.lineOffset).contains offset =
      decide (∃ reference ∈ references, reference.lineOffset = offset) := by
  rw [List.contains_eq_mem]
  exact decide_eq_decide.mpr List.mem_map

/-- The paragraph of a program stands in front of those of the programs behind it. -/
theorem HasParagraphs.cons {current : Option String} {references : List StatementList}
    {items : List (UInt32 × Program)} {text : String}
    (h : HasParagraphs current references items text) (offset : UInt32) (program : Program) :
    HasParagraphs current references ((offset, program) :: items)
      (program.listing current ((references.map StatementList.lineOffset).contains offset)
        offset.toNat ++ text) := by
  obtain ⟨paragraphs, rfl, hparagraphs⟩ := h
  rw [contains_lineOffset]
  exact ⟨_, String.join_cons.symm, .cons (program.isParagraph_listing current offset.toNat)
    hparagraphs⟩

/-- What is found of a file that is opened: its line section, and the offsets that are referred to if
the walk over its compile units reaches the end. -/
theorem result_lineSection {data : Bytes} {file : DebugFile}
    (hfile : (DebugFile.ofBytes data).result = .ok file) :
    (lineSection data).result =
      match statementLists file.info file.abbreviations with
      | (_, some e) => .error ⟨[.walkingUnits], .debug e⟩
      | (references, none) => .ok (file.line, references.map StatementList.lineOffset) := by
  unfold lineSection statementLists
  rw [Traced.result_bind, hfile]
  dsimp only [bind, Except.bind]
  generalize walk file.info file.abbreviations = found
  obtain ⟨visits, stopped⟩ := found
  cases stopped <;> rfl

end Listing

end DwarfLines
