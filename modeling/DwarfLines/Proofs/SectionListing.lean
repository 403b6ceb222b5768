import DwarfLines.Proofs.Guarded.Listing
import DwarfLines.Proofs.Listing
import DwarfLines.Proofs.Shrink.Success

/-!
# How far a section is listed

Units are taken from a line section one behind the other, as long as each is there and is a program.
All of them are listed, with all that they have, and nothing is listed of what stops the listing.
-/

namespace DwarfLines

open Outcome Elf

namespace Listing

/-- How a listing ends that has listed the units up to an offset. -/
inductive Ends (line : Bytes) : Nat → Except Failure Unit → Prop where
  /-- The section is over. -/
  | whole : Ends line line.length (.ok ())
  /-- There is no unit at the offset. -/
  | noUnit {offset : UInt32} {e : DebugError} : offset.toNat < line.length →
      unitAt line offset = .error e → Ends line offset.toNat (.error ⟨[], .debug e⟩)
  /-- The unit at the offset is no program. -/
  | noProgram {offset : UInt32} {unit : Bytes} {e : DebugError} : offset.toNat < line.length →
      unitAt line offset = .ok unit → Program.decode unit = .error e →
      Ends line offset.toNat (.error ⟨[.decodingProgram offset.toNat], .debug e⟩)

variable {line : Bytes} {start stop : Nat} {items all : List (UInt32 × Program)}
  {result : Except Failure Unit}

/-- Where programs fill the rest of a section nothing stops the listing. -/
theorem Ends.eq_ok_of_tile (h : Ends line start result)
    (hall : Program.Tile line start all line.length) : result = .ok () := by
  cases h with
  | whole => rfl
  | noUnit hlt hunit =>
    obtain ⟨offset', unit', program', others, rfl, hoffset, hunit', -⟩ := hall.exists_head hlt
    rw [UInt32.toNat_inj.mp hoffset, hunit] at hunit'
    cases hunit'
  | noProgram hlt hunit hprogram =>
    obtain ⟨offset', unit', program', others, rfl, hoffset, hunit', hprogram', -⟩ :=
      hall.exists_head hlt
    rw [UInt32.toNat_inj.mp hoffset, hunit] at hunit'
    cases hunit'
    rw [hprogram] at hprogram'
    cases hprogram'

/-- If programs fill a section at all, they are those that are listed, and the listing succeeds. -/
theorem Ends.eq_ok (h : Ends line stop result) (htile : Program.Tile line start items stop)
    (hall : Program.Tile line start all line.length) : result = .ok () := by
  induction items generalizing start all with
  | nil =>
    obtain rfl : start = stop := htile
    exact h.eq_ok_of_tile hall
  | cons item items ih =>
    obtain ⟨offset, program⟩ := item
    obtain ⟨rfl, unit, hunit, hisUnit, -, htile⟩ := htile
    have hstop := stop_le_of_unitAt hunit
    have hpositive := hisUnit.length_pos
    obtain ⟨offset', unit', _, others, rfl, hoffset, hunit', -, hothers⟩ :=
      hall.exists_head (by omega)
    obtain rfl := UInt32.toNat_inj.mp hoffset
    obtain rfl := Except.ok.inj (hunit.symm.trans hunit')
    exact ih htile hothers

/-- Whether a listing has one paragraph for each of the programs that follow each other in a line
section from an offset on, up to where there is no more of them, and ends as it has to there. A program
is marked unless one of the references is to it. -/
def CoversFrom (current : Option String) (references : List StatementList) (line : Bytes) (start : Nat)
    (listing : Listing) : Prop :=
  ∃ items stop, Program.Tile line start items stop ∧ Ends line stop listing.outcome.result ∧
    HasParagraphs current references items listing.text

theorem covers_ofUnits (hline : line.length < 2 ^ 32) (current : Option String)
    (references : List StatementList) (hstart : start ≤ line.length) :
    CoversFrom current references line start
      (ofUnits current (references.map StatementList.lineOffset)
        (unitsFrom start (line.drop start))) := by
  generalize hbytes : line.drop start = bytes
  -- the cases are those of the cut into units: no bytes, a bad unit, a unit and the rest
  fun_induction unitsFrom start bytes with
  | case1 start bytes hempty =>
    rw [← hbytes, List.isEmpty_iff, List.drop_eq_nil_iff] at hempty
    obtain rfl : start = line.length := Nat.le_antisymm hstart hempty
    rw [ofUnits]
    exact ⟨[], _, rfl, .whole, hasParagraphs_nil _ _⟩
  | case2 start bytes hne e htake =>
    have hlt : start < line.length := by
      rw [← hbytes, List.isEmpty_iff, List.drop_eq_nil_iff] at hne
      omega
    have hoffset : (UInt32.ofNat start).toNat = start :=
      UInt32.toNat_ofNat_of_lt' (Nat.lt_of_le_of_lt hstart hline)
    have hunit : unitAt line (UInt32.ofNat start) = .error e := by
      rw [unitAt, hoffset, hbytes, htake]
    rw [ofUnits]
    exact ⟨[], _, hoffset.symm, .noUnit (by rwa [hoffset]) hunit, hasParagraphs_nil _ _⟩
  | case3 start bytes hne unit htake units stopped hunits ih =>
    have hoffset : (UInt32.ofNat start).toNat = start :=
      UInt32.toNat_ofNat_of_lt' (Nat.lt_of_le_of_lt hstart hline)
    have hunit : unitAt line (UInt32.ofNat start) = .ok unit := by
      rw [unitAt, hoffset, hbytes, htake]
    obtain ⟨hisUnit, -⟩ := takeUnit_eq_ok_iff.mp htake
    have hstop := stop_le_of_unitAt hunit
    have hpositive := hisUnit.length_pos
    rw [hoffset] at hstop
    rw [ofUnits]
    -- the program has to decode before its paragraph is written
    cases hdecode : Program.decode unit with
    | error e =>
      exact ⟨[], _, hoffset.symm, .noProgram (by omega) hunit hdecode, hasParagraphs_nil _ _⟩
    | ok program =>
      obtain ⟨items, stop, htile, hends, htext⟩ := ih hstop (by rw [← hbytes, List.drop_drop])
      rw [hunits] at hends htext
      refine ⟨(UInt32.ofNat start, program) :: items, stop,
        ⟨hoffset, unit, hunit, hisUnit, hdecode, htile⟩, ?_, htext.cons _ program⟩
      dsimp only
      rwa [Traced.result_bind, Traced.result_tell]

end Listing

/-! ## Files -/

/-- What it comes to to open a file: to open its container and to find its debug sections. -/
theorem DebugFile.result_ofBytes (data : Bytes) :
    (ofBytes data).result =
      match Container.ofBytes data with
      | .error e => .error ⟨[.openingContainer], .elf e⟩
      | .ok container =>
        match DebugSections.ofContainer container with
        | .error cause => .error ⟨[], cause⟩
        | .ok sections => .ok (ofSections container sections) := by
  cases hcontainer : Container.ofBytes data with
  | error e =>
    unfold ofBytes
    rw [hcontainer]
    rfl
  | ok container =>
    cases hsections : DebugSections.ofContainer container with
    | error cause =>
      unfold ofBytes
      rw [hcontainer, Traced.result_bind]
      dsimp only [Traced.during, Traced.ofElf, Traced.result_pure, Except.mapError, bind, Except.bind]
      rw [hsections]
      rfl
    | ok sections =>
      dsimp only
      rw [hsections]
      exact result_ofBytes_eq_ok_iff_ofSections.mpr
        ⟨container, sections, hcontainer, hsections, rfl⟩

namespace Listing

theorem result_lineSection_of_error {data : Bytes} {failure : Failure}
    (h : (DebugFile.ofBytes data).result = .error failure) :
    (lineSection data).result = .error failure := by
  rw [lineSection, Traced.result_bind, h]
  rfl

/-- Whether nothing is listed, for the given reason. -/
def IsBlank (failure : Failure) (listing : Listing) : Prop :=
  listing.text = "" ∧ listing.outcome.result = .error failure

theorem isBlank_ofFile {data : Bytes} {failure : Failure}
    (h : (lineSection data).result = .error failure) (current : Option String) :
    (ofFile current data).IsBlank failure := by
  unfold ofFile
  dsimp only
  rw [h]
  exact ⟨rfl, rfl⟩

/-- A file with complete references is listed as far as its line section goes. -/
theorem covers_ofFile {data line : Bytes} {references : List StatementList}
    (h : (lineSection data).result = .ok (line, references.map StatementList.lineOffset))
    (current : Option String) : CoversFrom current references line 0 (ofFile current data) := by
  have hcovers := covers_ofUnits (length_lt_of_lineSection h) current references (Nat.zero_le _)
  rw [List.drop_zero] at hcovers
  unfold ofFile
  dsimp only
  rw [h]
  exact hcovers

/-- A listing succeeds exactly if programs fill the section. -/
theorem CoversFrom.result_eq_ok_iff {current : Option String} {references : List StatementList}
    {listing : Listing} (h : CoversFrom current references line start listing) :
    listing.outcome.result = .ok () ↔ ∃ items, Program.Tile line start items line.length := by
  obtain ⟨items, stop, htile, hends, -⟩ := h
  constructor
  · intro hok
    rw [hok] at hends
    cases hends
    exact ⟨items, htile⟩
  · rintro ⟨all, hall⟩
    exact hends.eq_ok htile hall

/-- Every file whose compile units can be walked is listed as far as its line section is made of units
that are programs, each with all that it has and marked if it is not referred to, and the listing
succeeds exactly if these fill the section. Nothing is listed of any other file. -/
theorem ofFile_covers (current : Option String) (data : Bytes) :
    match Container.ofBytes data with
    | .error e => (ofFile current data).IsBlank ⟨[.openingContainer], .elf e⟩
    | .ok container =>
      match DebugSections.ofContainer container with
      | .error cause => (ofFile current data).IsBlank ⟨[], cause⟩
      | .ok sections =>
        let file := DebugFile.ofSections container sections
        match statementLists file.info file.abbreviations with
        | (_, some e) => (ofFile current data).IsBlank ⟨[.walkingUnits], .debug e⟩
        | (references, none) =>
          CoversFrom current references file.line 0 (ofFile current data) ∧
            ((ofFile current data).outcome.result = .ok () ↔
              ∃ items, Program.Tile file.line 0 items file.line.length) := by
  have hopen := DebugFile.result_ofBytes data
  -- the three ways to fail before anything is written, and then the units
  cases hcontainer : Container.ofBytes data with
  | error e =>
    rw [hcontainer] at hopen
    exact isBlank_ofFile (result_lineSection_of_error hopen) current
  | ok container =>
    rw [hcontainer] at hopen
    dsimp only at hopen ⊢
    cases hsections : DebugSections.ofContainer container with
    | error cause =>
      rw [hsections] at hopen
      exact isBlank_ofFile (result_lineSection_of_error hopen) current
    | ok sections =>
      rw [hsections] at hopen
      have hfound := result_lineSection hopen
      dsimp only
      split
      · rename_i e hreferences
        rw [hreferences] at hfound
        exact isBlank_ofFile hfound current
      · rename_i references hreferences
        rw [hreferences] at hfound
        have hcovers := covers_ofFile hfound current
        exact ⟨hcovers, hcovers.result_eq_ok_iff⟩

end Listing

end DwarfLines
