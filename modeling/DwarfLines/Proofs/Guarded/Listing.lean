import DwarfLines.Listing
import DwarfLines.Proofs.Guarded.Shrink

/-!
# Listing within bounds

A listing goes from unit to unit of the line section until it is over. Its offsets stay within the
section, and the files of a program can be numbered, since its tables hold them all. What was listed
when a unit cannot be read stays listed, so a failure comes with the text before it.
-/

namespace DwarfLines

open Guarded

/-! ## References -/

namespace Listing

/-- The line section of a file, and the offsets in it that compile units refer to. -/
def lineSectionWithin (data : Bytes) : Guarded Failure (Bytes × List UInt32) := do
  let file ← DebugFile.readWithin data
  let referenced ← (ReferenceIterator.start file.info file.abbreviations).forEach
    (fun offsets reference => return offsets ++ [reference.lineOffset]) []
  return (file.line, referenced)

/-- The offsets that an iteration yields are those of the units of the walk. -/
theorem foldlM_offsets (visits : List UnitVisit) (stopped : Option DebugError)
    (offsets : List UInt32) :
    (ReferenceIterator.itemsOf (visits, stopped)).foldlM (ReferenceIterator.forItems
      fun offsets reference => .ok (offsets ++ [reference.lineOffset])) offsets =
      match stopped with
      | some e => .error (.during .walkingUnits (.ofCause (.debug e)))
      | none => .ok (offsets ++ (visits.filterMap UnitVisit.statementList?).map (·.lineOffset)) := by
  rw [ReferenceIterator.itemsOf]
  induction visits.filterMap UnitVisit.statementList? generalizing offsets with
  | nil =>
    cases stopped with
    | none => exact congrArg Except.ok (List.append_nil _).symm
    | some e => rfl
  | cons reference references ih =>
    rw [List.map_cons, List.cons_append, List.foldlM_cons, List.map_cons, List.append_cons]
    exact ih _

/-- The line section and its references are found within bounds. -/
theorem agrees_lineSectionWithin (data : Bytes) :
    Agrees Eq (lineSectionWithin data) (lineSection data).result := by
  unfold lineSectionWithin lineSection
  simp only [Traced.result_bind]
  refine (DebugFile.agrees_readWithin data).bind ?_
  rintro file _ hfile rfl
  obtain ⟨hinfo, habbreviations, -⟩ := DebugFile.lengths_lt hfile
  have hoffsets := ReferenceIterator.agrees_forEach (R := fun _ s t => s = t)
    (f := fun offsets reference => return offsets ++ [reference.lineOffset])
    (g := fun offsets reference => .ok (offsets ++ [reference.lineOffset])) (s := [])
    (ReferenceIterator.sound_start file.info file.abbreviations)
    (Nat.lt_trans hinfo (by decide)) (Nat.lt_trans habbreviations (by decide))
    (by
      rintro n s _ reference - - rfl
      exact .pure rfl) rfl
  -- what is ahead of a new iterator is the walk from the start
  have hwalk :
      ReferenceIterator.itemsOf (ReferenceIterator.start file.info file.abbreviations).ahead =
        ReferenceIterator.itemsOf (walk file.info file.abbreviations) := rfl
  rw [hwalk] at hoffsets
  generalize walk file.info file.abbreviations = found at hoffsets ⊢
  obtain ⟨visits, stopped⟩ := found
  rw [foldlM_offsets] at hoffsets
  cases stopped with
  | some e =>
    rw [hoffsets.eq_throw]
    exact .throw _
  | none =>
    obtain ⟨_, hoffsets, -, -, rfl⟩ := hoffsets
    rw [hoffsets, pure_bind]
    exact .pure rfl

/-- The line section of a file is shorter than 2 ^ 32. -/
theorem length_lt_of_lineSection {data line : Bytes} {referenced : List UInt32}
    (h : (lineSection data).result = .ok (line, referenced)) : line.length < 2 ^ 32 := by
  simp only [lineSection, Traced.result_bind, Outcome.bind_eq_ok_iff] at h
  obtain ⟨file, hfile, -, -, h⟩ := h
  split at h
  · exact absurd (Outcome.result_during_eq_ok_iff.mp h) Outcome.result_fail_ne_ok
  · cases h
    exact (DebugFile.lengths_lt hfile).2.2

end Listing

/-! ## Programs -/

/-- At most one item is read for each byte. -/
theorem Decoder.length_items_le {α : Type} {item : Decoder (Option α)} (shortens : item.Shortens)
    (bytes : Bytes) : (items item shortens bytes).1.length ≤ bytes.length := by
  fun_induction items item shortens bytes with
  | case1 => exact Nat.zero_le _
  | case2 => exact Nat.zero_le _
  | case3 bytes a rest hitem tail rest' hrest ih =>
    rw [hrest] at ih
    dsimp only at ih
    have hshorter := shortens _ _ _ hitem
    rw [List.length_cons]
    omega

/-- A table holds at most one item for each byte. -/
theorem Decoder.length_le_of_table {α : Type} {item : Decoder (Option α)} {shortens : item.Shortens}
    {bytes rest : Bytes} {values : List α} (h : table item shortens bytes = some (values, rest)) :
    values.length ≤ bytes.length := by
  have hlength := length_items_le shortens bytes
  simp only [table] at h
  split at h
  · rename_i hitems
    cases h
    rwa [hitems] at hlength
  · cases h

/-- The tables of a program hold its files, so that these are not more than twice as many as its unit
has bytes. -/
theorem Program.length_files_le {unit : Bytes} {program : Program} (h : decode unit = .ok program) :
    program.files.length ≤ 2 * unit.length + 1 := by
  have htables := (sizes h).2
  obtain ⟨operandCounts, bytes, hcounts, hread⟩ :=
    Decoder.bind_eq_some_iff.mp (reads_tables h).whole
  obtain ⟨directories, bytes', hdirectories, hread⟩ := Decoder.bind_eq_some_iff.mp hread
  obtain ⟨files, rest, hfiles, hread⟩ := Decoder.bind_eq_some_iff.mp hread
  have heq := congrArg Tables.files (Decoder.pure_eq_some_iff.mp hread).1
  have hcounts := Decoder.length_take_le hcounts
  have hdirectories := Decoder.length_lt_of_table hdirectories
  have hlength := Decoder.length_le_of_table hfiles
  dsimp only at heq
  rw [← heq]
  omega

namespace Program

/-- The paragraph of a unit that starts at `offset`. Its files are numbered from 1. -/
def listingWithin {ε : Type} (current : Option String) (referenced : Bool) (offset : Nat)
    (program : Program) : Guarded ε String := do
  let _numbers ← program.files.zipIdx.mapM fun (_, index) => add 64 index 1
  return program.listing current referenced offset

/-- A program is listed within bounds: file numbers do not overflow. -/
theorem listingWithin_eq {ε : Type} {program : Program} (h : program.files.length < 2 ^ 64)
    (current : Option String) (referenced : Bool) (offset : Nat) :
    (program.listingWithin current referenced offset : Guarded ε String) =
      pure (program.listing current referenced offset) := by
  rw [listingWithin, mapM_eq_pure (g := fun item => item.2 + 1), pure_bind]
  rintro ⟨file, index⟩ hitem
  have hindex := (List.mem_zipIdx' hitem).1
  exact add_eq (by omega)

end Program

/-! ## Listings -/

namespace Listing

/-- A failure, with what was listed before. -/
def after {α : Type} (text : String) (x : Guarded Failure α) : Guarded (String × Failure) α :=
  ExceptT.adapt (fun e => (text, e)) x

/-- Lists the unit at an offset behind what was listed before, unless the section is over. -/
def unitWithin (current : Option String) (referenced : List UInt32) (line : Bytes) :
    UInt32 × String → Guarded (String × Failure) (UInt32 × String ⊕ String)
  | (offset, text) => do
    if line.length ≤ offset.toNat then return .inr text
    let unit ← after text (withCause .debug (lineUnit line offset))
    let program ← after text (during (.decodingProgram offset.toNat)
      (withCause .debug (Program.scan unit)))
    let paragraph ← program.listingWithin current (referenced.contains offset) offset.toNat
    let stop ← add 32 offset.toNat unit.length
    return .inl (UInt32.ofNat stop, text ++ paragraph)

/-- Lists the units of a line section one after the other, and fails if the section does not end with
them. -/
def unitsWithin (current : Option String) (referenced : List UInt32) (line : Bytes) :
    Guarded (String × Failure) String :=
  loop (unitWithin current referenced line) (line.length + 1) (0, "")

/-- Lists the line section of a file. -/
def ofFileWithin (current : Option String) (data : Bytes) : Guarded (String × Failure) String := do
  let (line, referenced) ← after "" (lineSectionWithin data)
  unitsWithin current referenced line

/-- What there is to see of a listing behind a text: all of it, and how it ended. -/
def writtenAfter (text : String) (listing : Listing) : Except (String × Failure) String :=
  match listing.outcome.result with
  | .ok () => .ok (text ++ listing.text)
  | .error e => .error (text ++ listing.text, e)

/-- A failed outcome fails behind whatever text was written before it. -/
theorem writtenAfter_ofOutcome {outcome : Traced Unit} {e : Failure} (h : outcome.result = .error e)
    (text : String) : (ofOutcome outcome).writtenAfter text = .error (text, e) := by
  rw [writtenAfter, ofOutcome, h]
  exact congrArg (fun text => Except.error (text, e)) String.append_empty

/-- A listing behind a paragraph. -/
theorem writtenAfter_behind (text front : String) (events : List Event) (rest : Listing) :
    writtenAfter text ⟨front ++ rest.text, do Traced.tell events; rest.outcome⟩ =
      rest.writtenAfter (text ++ front) := by
  unfold writtenAfter
  rw [Traced.result_bind, Traced.result_tell, ← String.append_assoc]
  rfl

/-- The units of a section are listed within bounds. -/
theorem agrees_unitsWithin {line : Bytes} (hline : line.length < 2 ^ 32) (current : Option String)
    (referenced : List UInt32) : Agrees Eq (unitsWithin current referenced line)
      ((ofUnits current referenced (unitsOf line)).writtenAfter "") := by
  -- the loop writes the text of the units behind what it has written, from any offset on
  refine loop_induction (P := fun (s : UInt32 × String) x => s.1.toNat ≤ line.length →
      Agrees Eq x ((ofUnits current referenced
        (unitsFrom s.1.toNat (line.drop s.1.toNat))).writtenAfter s.2))
    (fun s => line.length - s.1.toNat) (fun (offset, text) next ih hoffset => ?_) (0, "")
    (Nat.lt_succ_self _) (Nat.zero_le _)
  dsimp only at ih hoffset ⊢
  rw [unitWithin, unitsFrom, UInt32.ofNat_toNat]
  by_cases hend : line.length ≤ offset.toNat
  · have hempty : (line.drop offset.toNat).isEmpty = true := by
      rw [List.drop_of_length_le hend, List.isEmpty_nil]
    rw [if_pos hempty, if_pos hend, pure_bind, ofUnits]
    exact .pure String.append_empty.symm
  -- a unit starts here: it may not be complete, not decode, or be written
  have hrest : ¬ (line.drop offset.toNat).isEmpty = true := by
    rw [List.isEmpty_iff, List.drop_eq_nil_iff]
    exact hend
  have hunit := agrees_lineUnit line offset
  rw [unitAt] at hunit
  rw [if_neg hrest, if_neg hend]
  split
  · rename_i e htake
    rw [htake] at hunit
    rw [hunit.eq_throw, ofUnits, writtenAfter_ofOutcome rfl]
    exact .throw _
  · rename_i unit htake
    rw [htake] at hunit
    obtain ⟨_, back, hback⟩ := takeUnit_eq_ok_iff.mp htake
    have hlength := congrArg List.length hback
    rw [List.length_drop, List.length_append] at hlength
    -- the offset grows by at least the four bytes of the length field
    have hpositive := four_le_length_of_takeUnit htake
    have hprogram : Agrees Eq (Program.scan unit) (Program.decode unit) :=
      Program.agrees_scan (by omega)
    have hreturn {α : Type} (a : α) : after text (withCause .debug (pure a)) = pure a := rfl
    rw [hunit.eq_pure, hreturn, pure_bind, ofUnits]
    cases hdecode : Program.decode unit with
    | error e =>
      rw [hdecode] at hprogram
      rw [hprogram.eq_throw]
      dsimp only
      rw [writtenAfter_ofOutcome rfl]
      exact .throw _
    | ok program =>
      rw [hdecode] at hprogram
      have hfiles := Program.length_files_le hdecode
      -- the next offset is at most the length of the section, so the word does not wrap
      have hstop : (UInt32.ofNat (offset.toNat + unit.length)).toNat =
          offset.toNat + unit.length := by
        rw [UInt32.toNat_ofNat', Nat.mod_eq_of_lt (by omega)]
      have hnext := ih (UInt32.ofNat (offset.toNat + unit.length),
        text ++ program.listing current (referenced.contains offset) offset.toNat)
      rw [hstop] at hnext
      have hreturn (activity : Activity) : after text (during activity
          (withCause .debug (pure program))) = pure program := rfl
      rw [hprogram.eq_pure, hreturn, pure_bind, Program.listingWithin_eq (by omega), pure_bind,
        add_eq (by omega), pure_bind, pure_bind]
      dsimp only
      rw [writtenAfter_behind, List.drop_drop]
      exact hnext (by omega) (by omega)

/-- Any file is listed within bounds. -/
theorem agrees_ofFileWithin (current : Option String) (data : Bytes) :
    Agrees Eq (ofFileWithin current data) ((ofFile current data).writtenAfter "") := by
  have hsection := agrees_lineSectionWithin data
  unfold ofFileWithin ofFile
  dsimp only
  cases hfound : (lineSection data).result with
  | error e =>
    rw [hfound] at hsection
    rw [hsection.eq_throw]
    exact .throw _
  | ok found =>
    obtain ⟨line, referenced⟩ := found
    have hline := length_lt_of_lineSection hfound
    have hreturn : after "" (pure (line, referenced)) = pure (line, referenced) := rfl
    rw [hfound] at hsection
    rw [hsection.eq_pure, hreturn, pure_bind]
    exact agrees_unitsWithin hline current referenced

end Listing

/-! ## Whole runs -/

/-- Whatever bytes a file has, shrinking it and listing it stop at no fault: every index and every
range is there, every number fits its width, no divisor is zero, and every loop ends. Both come to what
they come to without bounds, be it a result or an error. -/
theorem shrink_and_list_within_bounds (data : Bytes) (current : Option String) :
    (shrinkWithin data).run = .ok (shrink data).result ∧
      (Listing.ofFileWithin current data).run = .ok ((Listing.ofFile current data).writtenAfter "") :=
  ⟨agrees_eq_iff.mp (agrees_shrinkWithin data),
    agrees_eq_iff.mp (Listing.agrees_ofFileWithin current data)⟩

end DwarfLines
