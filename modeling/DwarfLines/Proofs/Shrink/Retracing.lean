import DwarfLines.Proofs.Elf.RetracedSteps
import DwarfLines.Proofs.Line.Reduced
import DwarfLines.Proofs.Line.Restatement
import DwarfLines.Proofs.Shrink.Refinement

/-!
# Serving compile units again

The references of an output are to programs that are reduced already. Serving them again provides the
same programs at the same places and writes the same words.
-/

namespace DwarfLines

open Outcome Elf

namespace LineOutput

variable {places places' : Places} {output between after : LineOutput}

theorem Provides.lookup_eq {lineOffset relative : UInt32}
    (h : Provides places output lineOffset relative between) :
    between.moved.lookup lineOffset = some relative := by
  cases h with
  | shared hlookup => exact hlookup
  | added hlookup hshrunk hstop => rw [Records.lookup_added, if_pos rfl]

/-- A program that is there stays where it is. -/
theorem Provides.lookup_of_lookup {lineOffset relative key found : UInt32}
    (h : Provides places output lineOffset relative between)
    (hfound : output.moved.lookup key = some found) : between.moved.lookup key = some found := by
  cases h with
  | shared hlookup => exact hfound
  | added hlookup hshrunk hstop =>
    rw [Records.lookup_added, if_neg, hfound]
    rintro rfl
    rw [hlookup] at hfound
    cases hfound

theorem Serves.lookup_of_lookup {references : List StatementList}
    (h : Serves places output references after) {key found : UInt32}
    (hfound : output.moved.lookup key = some found) : after.moved.lookup key = some found := by
  induction h with
  | nil => exact hfound
  | cons hprovides _ ih => exact ih (hprovides.lookup_of_lookup hfound)

/-- Whether serving the compile units of the output, which is opened as `again`, has come as far as
serving those of the file. -/
structure Echoes (again : Container) (line : Nat) (start : UInt32) (first second : LineOutput) :
    Prop where
  layout : first.layout.Retraces again line second.layout
  stop_eq : second.stop = first.stop
  moved : ∀ relative found, second.moved.lookup relative = some found ↔
    found = relative ∧ ∃ key, first.moved.lookup key = some relative
  start_le : start.toNat ≤ first.stop.toNat
  before : ∀ key relative, first.moved.lookup key = some relative →
    start.toNat + relative.toNat < first.stop.toNat
  units_eq : second.units = first.units
  rowsDecoded_eq : second.rowsDecoded = first.rowsKept
  rowsKept_eq : second.rowsKept = first.rowsKept

/-- Whether a reference to a line program is to the same program, at the place `relative`, in the
output, where it has no more redundant rows. -/
structure Stable (places places' : Places) (lineOffset relative : UInt32) : Prop where
  info_eq : places'.info = places.info
  exists_shrunk : ∀ shrunk : ShrunkProgram, shrunk.Of places.line lineOffset →
    0 < shrunk.bytes.length ∧ ∃ shrunk' : ShrunkProgram, shrunk'.Of places'.line relative ∧
      shrunk'.bytes = shrunk.bytes ∧ shrunk'.program.rows = shrunk.rows ∧
      shrunk'.rows = shrunk.rows

variable {again : Container} {line : Nat} {output' : LineOutput}

theorem lookup_added_eq_some_iff {lineOffset : UInt32}
    (hlookup : output.moved.lookup lineOffset = none) (shrunk : ShrunkProgram)
    (stop key relative : UInt32) :
    (output.added places lineOffset shrunk stop).moved.lookup key = some relative ↔
      (key = lineOffset ∧ relative = output.stop - places.start) ∨
        output.moved.lookup key = some relative := by
  rw [Records.lookup_added]
  split
  · rename_i hkey
    subst hkey
    simp [hlookup, eq_comm]
  · rename_i hkey
    simp [hkey]

namespace Echoes

theorem toNat_relative (h : Echoes again line places.start output output') :
    (output.stop - places.start).toNat = output.stop.toNat - places.start.toNat :=
  UInt32.toNat_sub_of_le _ _ (UInt32.le_iff_toNat_le.mpr h.start_le)

/-- All programs that were provided start before the next one. -/
theorem lookup_eq_none (h : Echoes again line places.start output output') :
    output'.moved.lookup (output.stop - places.start) = none := by
  rw [Option.eq_none_iff_forall_ne_some]
  intro found hfound
  obtain ⟨-, key, hkey⟩ := (h.moved _ _).mp hfound
  have hbefore := h.before key _ hkey
  rw [h.toNat_relative] at hbefore
  omega

/-- A program that is added to one section is added to the other one, where it counts as placed at its
own offset. -/
theorem added (h : Echoes again line places.start output output')
    (hstart : places'.start = places.start) {lineOffset stop : UInt32} {shrunk shrunk' : ShrunkProgram}
    (hlookup : output.moved.lookup lineOffset = none)
    (hstop : Elf.advance? output.stop shrunk.bytes.length = some stop)
    (hpos : 0 < shrunk.bytes.length) (hbytes : shrunk'.bytes = shrunk.bytes)
    (hprogram : shrunk'.program.rows = shrunk.rows) (hrows : shrunk'.rows = shrunk.rows) :
    Echoes again line places.start (output.added places lineOffset shrunk stop)
      (output'.added places' (output.stop - places.start) shrunk' stop) := by
  have hstop := Elf.advance?_eq_some_iff.mp hstop
  have hrelative := h.toNat_relative
  have hle := h.start_le
  refine ⟨?layout, rfl, ?moved, ?start_le, ?before, congrArg (· + 1) h.units_eq, ?rowsDecoded,
    ?rowsKept⟩
  case layout =>
    show Layout.Retraces again line (output.layout.writeAt output.stop.toNat shrunk.bytes)
      (output'.layout.writeAt output'.stop.toNat shrunk'.bytes)
    rw [h.stop_eq, hbytes]
    exact h.layout.writeAt _ _
  case moved =>
    intro key found
    -- the new program is found at its old offset by the first run and at its new one by the second
    rw [lookup_added_eq_some_iff h.lookup_eq_none, h.moved, h.stop_eq, hstart]
    simp only [lookup_added_eq_some_iff hlookup]
    constructor
    · rintro (⟨rfl, rfl⟩ | ⟨rfl, key, hkey⟩)
      · exact ⟨rfl, lineOffset, .inl ⟨rfl, rfl⟩⟩
      · exact ⟨rfl, key, .inr hkey⟩
    · rintro ⟨rfl, key, ⟨-, rfl⟩ | hkey⟩
      · exact .inl ⟨rfl, rfl⟩
      · exact .inr ⟨rfl, key, hkey⟩
  case start_le =>
    show places.start.toNat ≤ stop.toNat
    omega
  case before =>
    intro key relative hkey
    show places.start.toNat + relative.toNat < stop.toNat
    rcases (lookup_added_eq_some_iff hlookup _ _ _ _).mp hkey with ⟨-, rfl⟩ | hkey
    · omega
    · have := h.before key relative hkey
      omega
  case rowsDecoded =>
    show output'.rowsDecoded + shrunk'.program.rows.length = output.rowsKept + shrunk.rows.length
    rw [h.rowsDecoded_eq, hprogram]
  case rowsKept =>
    show output'.rowsKept + shrunk'.rows.length = output.rowsKept + shrunk.rows.length
    rw [h.rowsKept_eq, hrows]

/-- A reference is changed to what it is. -/
theorem redirected (h : Echoes again line places.start output output')
    (hinfo : places'.info = places.info) (valueOffset : Nat) (relative : UInt32) :
    Echoes again line places.start (output.redirected places valueOffset relative)
      (output'.redirected places' valueOffset relative) where
  __ := h
  layout := by
    unfold LineOutput.redirected
    rw [hinfo]
    exact h.layout.writeAt _ _

end Echoes

/-- A program is provided where it was. -/
theorem echoes_provides (hstart : places'.start = places.start) {lineOffset relative : UInt32}
    (hstable : Stable places places' lineOffset relative)
    (hprovides : Provides places output lineOffset relative between)
    (h : Echoes again line places.start output output') :
    ∃ between', Provides places' output' relative relative between' ∧
      Echoes again line places.start between between' := by
  cases hprovides with
  | shared hlookup => exact ⟨output', .shared ((h.moved _ _).mpr ⟨rfl, _, hlookup⟩), h⟩
  | @added shrunk stop hlookup hshrunk hstop =>
    obtain ⟨hpos, shrunk', hshrunk', hbytes, hprogram, hrows⟩ := hstable.exists_shrunk shrunk hshrunk
    have hadded : Provides places' output' (output.stop - places.start)
        (output'.stop - places'.start)
        (output'.added places' (output.stop - places.start) shrunk' stop) :=
      .added h.lookup_eq_none hshrunk' (by rw [h.stop_eq, hbytes, hstop])
    rw [h.stop_eq, hstart] at hadded
    exact ⟨_, hadded, h.added hstart hlookup hstop hpos hbytes hprogram hrows⟩

/-- Serving the references of the output echoes serving those of the file. -/
theorem echoes_serves {moveTo : UInt32 → UInt32} (hstart : places'.start = places.start)
    {references : List StatementList} (hserves : Serves places output references after)
    (hmove : ∀ key relative, after.moved.lookup key = some relative → moveTo key = relative)
    (hstable : ∀ reference ∈ references,
      Stable places places' reference.lineOffset (moveTo reference.lineOffset))
    (h : Echoes again line places.start output output') :
    ∃ after', Serves places' output' (references.map (StatementList.retarget moveTo)) after' ∧
      Echoes again line places.start after after' := by
  induction hserves generalizing output' with
  | nil => exact ⟨output', .nil, h⟩
  | @cons output between after reference relative references hprovides hserves ih =>
    rw [List.forall_mem_cons] at hstable
    have hlookup := hserves.lookup_of_lookup hprovides.lookup_eq
    -- the offset of a reference is the one found at the end, since programs never move once written
    have hmoved := hmove _ _ hlookup
    have hreference := hstable.1
    rw [hmoved] at hreference
    obtain ⟨between', hprovides', hbetween⟩ := echoes_provides hstart hreference hprovides h
    obtain ⟨after', hserves', hafter⟩ := ih hmove hstable.2
      (hbetween.redirected hreference.info_eq reference.valueOffset relative)
    refine ⟨after', .cons ?_ hserves', hafter⟩
    show Provides places' output' (moveTo reference.lineOffset) _ _
    rw [hmoved]
    exact hprovides'

end LineOutput

end DwarfLines
