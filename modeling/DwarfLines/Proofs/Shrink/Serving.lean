import DwarfLines.Proofs.Elf.Arrangement
import DwarfLines.Proofs.Info.Walk
import DwarfLines.Proofs.Shrink.Stages
import Mathlib.Algebra.GroupWithZero.Nat

/-!
# Serving compile units

The compile units are served in the order of the walk. What was done so far is told by two lists: the
programs that were written, each line offset once, in the order of first reference, and the words that
were stored in place of the references. `Records` ties them to the output, and serving one more unit
extends them.
-/

namespace DwarfLines

open Outcome

/-- Whether a program is the one at an offset of a line section, without its redundant rows. -/
structure ShrunkProgram.Of (line : Bytes) (lineOffset : UInt32) (shrunk : ShrunkProgram) : Prop where
  unit : unitAt line lineOffset = .ok shrunk.unit
  program : Program.decode shrunk.unit = .ok shrunk.program
  rows : shrunk.rows = reduce shrunk.program.rows
  bytes : shrunk.program.encode shrunk.rows = .ok shrunk.bytes

/-- The outcome of shrinking one program: it decodes, and its reduced rows encode. -/
theorem result_shrinkProgram_eq_ok_iff {line : Bytes} {unitOffset : Nat} {lineOffset : UInt32}
    {shrunk : ShrunkProgram} :
    (shrinkProgram line unitOffset lineOffset).result = .ok shrunk ↔ shrunk.Of line lineOffset := by
  unfold shrinkProgram
  simp only [Traced.result_bind, bind_eq_ok_iff, result_during_eq_ok_iff, result_ofDebug_eq_ok_iff,
    Traced.result_tell, Traced.result_pure, Except.ok.injEq]
  constructor
  · rintro ⟨unit, hunit, -, -, program, hprogram, bytes, hbytes, rfl⟩
    exact ⟨hunit, hprogram, rfl, hbytes⟩
  · obtain ⟨unit, program, rows, bytes⟩ := shrunk
    rintro ⟨hunit, hprogram, hrows, hbytes⟩
    dsimp only at hunit hprogram hrows hbytes
    subst hrows
    exact ⟨unit, hunit, (), trivial, program, hprogram, bytes, hbytes, rfl⟩

theorem exists_of_forall₂_of_mem {α β : Type} {R : α → β → Prop} {xs : List α} {ys : List β}
    (h : List.Forall₂ R xs ys) {x : α} (hx : x ∈ xs) : ∃ y ∈ ys, R x y := by
  induction h with
  | nil => cases hx
  | @cons a b xs ys hfirst _ ih =>
    rcases List.mem_cons.mp hx with rfl | hx
    · exact ⟨b, List.mem_cons_self, hfirst⟩
    · obtain ⟨y, hy, hr⟩ := ih hx
      exact ⟨y, List.mem_cons_of_mem _ hy, hr⟩

/-- One more element at the end is dropped exactly where it stands before. -/
theorem eraseDups_concat {α : Type} [BEq α] [LawfulBEq α] (xs : List α) (x : α) :
    (xs ++ [x]).eraseDups = if xs.contains x then xs.eraseDups else xs.eraseDups ++ [x] := by
  rw [List.eraseDups_append, List.cons_removeAll]
  cases xs.contains x <;> simp [List.eraseDups_cons]

/-- The line section that some programs make up. -/
def lineSection (programs : List (UInt32 × ShrunkProgram)) : Bytes :=
  programs.flatMap fun (_, shrunk) => shrunk.bytes

/-- The bytes of more programs follow those of the first ones. -/
theorem lineSection_append (front back : List (UInt32 × ShrunkProgram)) :
    lineSection (front ++ back) = lineSection front ++ lineSection back := List.flatMap_append

/-- The bytes of a program stand before those of the next. -/
theorem lineSection_cons (p : UInt32 × ShrunkProgram) (programs : List (UInt32 × ShrunkProgram)) :
    lineSection (p :: programs) = p.2.bytes ++ lineSection programs := rfl

/-- The section of one program is its bytes. -/
@[simp]
theorem lineSection_singleton (lineOffset : UInt32) (shrunk : ShrunkProgram) :
    lineSection [(lineOffset, shrunk)] = shrunk.bytes := by simp [lineSection]

namespace LineOutput

/-- The output after a program was added that ends at `stop`. -/
def added (places : Places) (output : LineOutput) (lineOffset : UInt32) (shrunk : ShrunkProgram)
    (stop : UInt32) : LineOutput where
  layout := output.layout.writeAt output.stop.toNat shrunk.bytes
  stop
  moved := (lineOffset, output.stop - places.start) :: output.moved
  units := output.units + 1
  rowsDecoded := output.rowsDecoded + shrunk.program.rows.length
  rowsKept := output.rowsKept + shrunk.rows.length

/-- The output after a reference was changed. -/
def redirected (places : Places) (output : LineOutput) (valueOffset : Nat) (relative : UInt32) :
    LineOutput :=
  { output with
    layout := output.layout.writeAt (places.info.toNat + valueOffset) (bytesOfWord32 relative) }

/-- How a program is provided for a reference: it was added before, or is added now. -/
inductive Provides (places : Places) (output : LineOutput) (lineOffset : UInt32) :
    UInt32 → LineOutput → Prop where
  | shared {relative : UInt32} : output.moved.lookup lineOffset = some relative →
    Provides places output lineOffset relative output
  | added {shrunk : ShrunkProgram} {stop : UInt32} : output.moved.lookup lineOffset = none →
    shrunk.Of places.line lineOffset →
    Elf.advance? output.stop shrunk.bytes.length = some stop →
    Provides places output lineOffset (output.stop - places.start)
      (output.added places lineOffset shrunk stop)

/-- Serving a unit passes over it, or provides the program that it refers to and changes the
reference. -/
theorem result_serve_eq_ok_iff {places : Places} {output output' : LineOutput} {visit : UnitVisit} :
    (serve places output visit).result = .ok output' ↔
      (visit.statementList? = none ∧ output' = output) ∨
        ∃ reference relative between, visit.statementList? = some reference ∧
          Provides places output reference.lineOffset relative between ∧
          output' = between.redirected places reference.valueOffset relative := by
  unfold serve UnitVisit.statementList?
  split
  case h_1 | h_2 =>
    rename_i hroot
    rw [hroot]
    constructor
    · intro h
      cases h
      exact .inl ⟨rfl, rfl⟩
    · rintro (⟨-, rfl⟩ | ⟨_, _, _, ⟨⟩, -⟩)
      rfl
  case h_3 valueOffset lineOffset hroot =>
    rw [hroot]
    -- a program written before is shared, any other is shrunk and added at the end
    cases hlookup : output.moved.lookup lineOffset with
    | some relative =>
      constructor
      · intro h
        cases h
        exact .inr ⟨_, relative, output, rfl, .shared hlookup, rfl⟩
      · rintro (⟨hnone, -⟩ | ⟨_, _, _, ⟨⟩, hprovides, rfl⟩)
        · cases hnone
        · cases hprovides with
          | shared hlookup' =>
            obtain rfl := Option.some.inj (hlookup.symm.trans hlookup')
            rfl
          | added hnone =>
            rw [hlookup] at hnone
            cases hnone
    | none =>
      simp only [add, Traced.result_bind, bind_eq_ok_iff, result_shrinkProgram_eq_ok_iff,
        result_orFail_eq_ok_iff, Traced.result_tell, Traced.result_pure, Except.ok.injEq]
      constructor
      · rintro ⟨shrunk, hshrunk, _, ⟨stop, hstop, -, -, rfl⟩, rfl⟩
        exact .inr ⟨_, _, _, rfl, .added hlookup hshrunk hstop, rfl⟩
      · rintro (⟨hnone, -⟩ | ⟨_, _, _, ⟨⟩, hprovides, rfl⟩)
        · cases hnone
        · cases hprovides with
          | shared hsome =>
            rw [hlookup] at hsome
            cases hsome
          | added _ hshrunk hstop =>
            exact ⟨_, hshrunk, _, ⟨_, hstop, (), trivial, rfl⟩, rfl⟩

/-- Whether serving references one after the other leads from one output to another. -/
inductive Serves (places : Places) : LineOutput → List StatementList → LineOutput → Prop where
  | nil {output : LineOutput} : Serves places output [] output
  | cons {output between after : LineOutput} {reference : StatementList} {relative : UInt32}
      {references : List StatementList} :
    Provides places output reference.lineOffset relative between →
    Serves places (between.redirected places reference.valueOffset relative) references after →
    Serves places output (reference :: references) after

/-- Serving the units of a walk is serving the references that they have. -/
theorem result_serveAll_eq_ok_iff {places : Places} {output after : LineOutput}
    {visits : List UnitVisit} {stopped : Option DebugError} :
    (output.serveAll places (visits, stopped)).result = .ok after ↔
      stopped = none ∧ Serves places output (visits.filterMap UnitVisit.statementList?) after := by
  simp only [serveAll, Traced.result_bind, bind_eq_ok_iff]
  cases stopped with
  | some e =>
    simp only [reduceCtorEq, false_and, iff_false, not_exists, not_and]
    exact fun _ _ h => result_fail_ne_ok (result_during_eq_ok_iff.mp h)
  | none =>
    simp only [Traced.result_pure, Except.ok.injEq, exists_eq_right, true_and]
    -- visit by visit: only the ones with a statement list change the output
    induction visits generalizing output with
    | nil =>
      constructor
      · intro h
        cases h
        exact .nil
      · intro h
        cases h
        rfl
    | cons visit visits ih =>
      rw [List.foldlM_cons, Traced.result_bind, bind_eq_ok_iff]
      simp only [ih, result_serve_eq_ok_iff]
      cases hvisit : visit.statementList? with
      | none => simp [hvisit]
      | some reference =>
        rw [List.filterMap_cons_some hvisit]
        constructor
        · rintro ⟨_, ⟨hnone, -⟩ | ⟨_, relative, between, ⟨⟩, hprovides, rfl⟩, hserves⟩
          · cases hnone
          · exact .cons hprovides hserves
        · intro h
          cases h with
          | cons hprovides hserves =>
            exact ⟨_, .inr ⟨reference, _, _, rfl, hprovides, rfl⟩, hserves⟩

/-! ## Records -/

/-- Whether an output has the programs that the references name, each once, in the order of first
reference, and the edits that change these references to where the programs went. -/
structure Records (places : Places) (references : List StatementList)
    (programs : List (UInt32 × ShrunkProgram)) (edits : List (Nat × UInt32))
    (output : LineOutput) : Prop where
  keys : programs.map Prod.fst = (references.map StatementList.lineOffset).eraseDups
  shrunk : ∀ p ∈ programs, p.2.Of places.line p.1
  stop_eq : output.stop.toNat = places.start.toNat + (lineSection programs).length
  moved : ∀ lineOffset relative, output.moved.lookup lineOffset = some relative ↔
    ∃ front shrunk back, programs = front ++ (lineOffset, shrunk) :: back ∧
      relative.toNat = (lineSection front).length
  edited : List.Forall₂ (fun reference edit => edit.1 = reference.valueOffset ∧
    output.moved.lookup reference.lineOffset = some edit.2) references edits
  units_eq : output.units = programs.length
  rowsDecoded_eq : output.rowsDecoded = (programs.map fun p => p.2.program.rows.length).sum
  rowsKept_eq : output.rowsKept = (programs.map fun p => p.2.rows.length).sum

namespace Records

variable {places : Places} {references : List StatementList}
  {programs : List (UInt32 × ShrunkProgram)} {edits : List (Nat × UInt32)} {output : LineOutput}

/-- At the start no reference is served and no program written. -/
theorem start (places : Places) (layout : Elf.Layout) :
    Records places [] [] [] (.start layout places.start) where
  keys := rfl
  shrunk := List.forall_mem_nil _
  stop_eq := rfl
  moved := by simp [LineOutput.start]
  edited := .nil
  units_eq := rfl
  rowsDecoded_eq := rfl
  rowsKept_eq := rfl

/-- A new program is found at the offset where it is written; the others stay where they were. -/
theorem lookup_added (places : Places) (output : LineOutput) (lineOffset : UInt32)
    (shrunk : ShrunkProgram) (stop key : UInt32) :
    (output.added places lineOffset shrunk stop).moved.lookup key =
      if key = lineOffset then some (output.stop - places.start) else output.moved.lookup key := by
  show List.lookup key (_ :: _) = _
  rw [List.lookup_cons]
  split <;> simp_all

/-- Changing references does not change what is recorded. -/
theorem redirected (h : Records places references programs edits output) (valueOffset : Nat)
    (relative : UInt32) :
    Records places references programs edits (output.redirected places valueOffset relative) :=
  ⟨h.keys, h.shrunk, h.stop_eq, h.moved, h.edited, h.units_eq, h.rowsDecoded_eq, h.rowsKept_eq⟩

/-- Every reference that is served has its program in the output. -/
theorem lookup_of_mem (h : Records places references programs edits output)
    {reference : StatementList} (hmem : reference ∈ references) :
    ∃ relative, output.moved.lookup reference.lineOffset = some relative := by
  obtain ⟨edit, -, -, hlookup⟩ := exists_of_forall₂_of_mem h.edited hmem
  exact ⟨edit.2, hlookup⟩

/-- A program that is there is provided again. -/
theorem provides_shared (h : Records places references programs edits output)
    {reference : StatementList} {relative : UInt32}
    (hlookup : output.moved.lookup reference.lineOffset = some relative) :
    Records places (references ++ [reference]) programs
      (edits ++ [(reference.valueOffset, relative)]) output where
  __ := h
  keys := by
    obtain ⟨front, shrunk, back, hprograms, -⟩ := (h.moved _ _).mp hlookup
    have hmem : reference.lineOffset ∈ programs.map Prod.fst := by simp [hprograms]
    rw [h.keys, List.mem_eraseDups] at hmem
    rw [h.keys, List.map_append, List.map_singleton, eraseDups_concat,
      if_pos (List.contains_iff_mem.mpr hmem)]
  edited := List.rel_append h.edited (.cons ⟨rfl, hlookup⟩ .nil)

/-- Behind the programs that are there, a new one starts where they end. -/
theorem lookup_added_eq_some_iff (h : Records places references programs edits output)
    {lineOffset : UInt32} (hlookup : output.moved.lookup lineOffset = none)
    (hrelative : (output.stop - places.start).toNat = (lineSection programs).length)
    (shrunk : ShrunkProgram) (stop key relative : UInt32) :
    (output.added places lineOffset shrunk stop).moved.lookup key = some relative ↔
      ∃ front old back, programs ++ [(lineOffset, shrunk)] = front ++ (key, old) :: back ∧
        relative.toNat = (lineSection front).length := by
  rw [lookup_added]
  constructor
  · intro hfound
    split at hfound
    · rename_i hkey
      cases hfound
      exact ⟨programs, shrunk, [], by rw [hkey], hrelative⟩
    · obtain ⟨front, old, back, rfl, hlength⟩ := (h.moved _ _).mp hfound
      exact ⟨front, old, back ++ [(lineOffset, shrunk)], by simp, hlength⟩
  · rintro ⟨front, old, back, hprograms, hlength⟩
    -- The program that is looked up is the new one, or it was there before.
    rcases List.eq_nil_or_concat back with rfl | ⟨back, last, rfl⟩
    · obtain ⟨rfl, hlast⟩ := List.append_inj' hprograms rfl
      cases hlast
      rw [if_pos rfl, ← UInt32.toNat_inj.mp (hlength.trans hrelative.symm)]
    · rw [List.concat_eq_append, ← List.cons_append, ← List.append_assoc] at hprograms
      obtain ⟨hprograms, -⟩ := List.append_inj' hprograms rfl
      have hfound := (h.moved key relative).mpr ⟨front, old, back, hprograms, hlength⟩
      rw [if_neg, hfound]
      rintro rfl
      rw [hlookup] at hfound
      cases hfound

/-- A program that is not there is added. -/
theorem provides_added (h : Records places references programs edits output)
    {reference : StatementList} {shrunk : ShrunkProgram} {stop : UInt32}
    (hlookup : output.moved.lookup reference.lineOffset = none)
    (hshrunk : shrunk.Of places.line reference.lineOffset)
    (hstop : Elf.advance? output.stop shrunk.bytes.length = some stop) :
    Records places (references ++ [reference]) (programs ++ [(reference.lineOffset, shrunk)])
      (edits ++ [(reference.valueOffset, output.stop - places.start)])
      (output.added places reference.lineOffset shrunk stop) := by
  have hstop := Elf.advance?_eq_some_iff.mp hstop
  have hrelative : (output.stop - places.start).toNat = (lineSection programs).length := by
    have hle : places.start ≤ output.stop := by
      rw [UInt32.le_iff_toNat_le, h.stop_eq]
      omega
    rw [UInt32.toNat_sub_of_le _ _ hle, h.stop_eq]
    omega
  -- A reference that was served before would have provided the program.
  have hnew : ∀ other ∈ references, other.lineOffset ≠ reference.lineOffset := by
    intro other hmem heq
    obtain ⟨relative, hrelative⟩ := h.lookup_of_mem hmem
    rw [heq, hlookup] at hrelative
    cases hrelative
  refine ⟨?_, ?_, ?_, ?_, ?_, ?_, ?_, ?_⟩
  · have hmem : ¬ (references.map StatementList.lineOffset).contains reference.lineOffset := by
      rw [List.contains_iff_mem, List.mem_map]
      rintro ⟨other, hother, heq⟩
      exact hnew other hother heq
    rw [List.map_append, List.map_append, List.map_singleton, List.map_singleton, eraseDups_concat,
      if_neg hmem, h.keys]
  · rw [List.forall_mem_append, List.forall_mem_singleton]
    exact ⟨h.shrunk, hshrunk⟩
  · rw [lineSection_append, lineSection_singleton, List.length_append, ← Nat.add_assoc, ← h.stop_eq]
    exact hstop
  · exact h.lookup_added_eq_some_iff hlookup hrelative shrunk stop
  · refine List.rel_append (h.edited.imp fun other edit hedit => ⟨hedit.1, ?_⟩)
      (.cons ⟨rfl, by rw [lookup_added, if_pos rfl]⟩ .nil)
    rw [lookup_added, if_neg, hedit.2]
    intro hkey
    rw [hkey, hlookup] at hedit
    cases hedit.2
  · rw [List.length_append, List.length_singleton, ← h.units_eq]
    rfl
  · rw [List.map_append, List.sum_append, ← h.rowsDecoded_eq]
    simp [added]
  · rw [List.map_append, List.sum_append, ← h.rowsKept_eq]
    simp [added]

end Records

end LineOutput

end DwarfLines
