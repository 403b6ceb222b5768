import DwarfLines.Proofs.Elf.Placing

/-!
# Runs of laying out sections

After the fixed part of a file was copied, its sections may be placed in any order: copied one by one
or all together, or given contents that are generated, any number of times. `Laid` is what every such
run keeps: each section that has its place shows its contents there, and those that were placed since
the fixed part was copied come behind it, apart from one another.
-/

namespace DwarfLines.Elf

open Outcome

/-- A multiple of an alignment is what aligning gives. -/
theorem dvd_of_alignUp? {offset alignment result : UInt32}
    (h : alignUp? offset alignment = some result) :
    max alignment.toNat 1 ∣ result.toNat := by
  rw [alignUp?_eq_some_iff.mp h]
  exact Nat.dvd_mul_left _ _

/-- No section is aligned to zero: the header's zero is taken as one. -/
theorem SectionHeader.alignment_pos (header : SectionHeader) : 1 ≤ header.alignment.toNat := by
  have hmax := toNat_max header.addressAlignment 1
  rw [alignment, hmax]
  exact Nat.le_max_right _ _

/-- Where a section's header says that its contents are. -/
def SectionHeader.range (header : SectionHeader) : Span :=
  ⟨header.offset.toNat, header.offset.toNat + header.size.toNat⟩

/-! ## Steps and runs -/

/-- A step of laying out sections. -/
inductive Step where
  /-- Copies a section, unless it has its place. -/
  | copy (index : Nat)
  /-- Copies all sections that have no place. -/
  | copyAll
  /-- Gives a section contents that are generated. -/
  | generate (index : Nat) (bytes : Bytes)
  deriving DecidableEq, Repr

namespace Step

/-- Takes a step at an offset, and returns the offset of the next step. -/
def place (offset : UInt32) : Step → Placing UInt32
  | copy index => Placing.copySection offset index
  | copyAll => Placing.copySections offset
  | generate index bytes => do
    modify fun layout => layout.writeAt offset.toNat bytes
    Placing.markPlaced index offset
    Placing.setSize index (UInt32.ofNat bytes.length)
    Placing.orInvalidOffset (advance? offset bytes.length)

/-- Whether a step may be taken: contents are generated only for a section that has no place. -/
def Allowed (layout : Layout) : Step → Prop
  | copy _ | copyAll => True
  | generate index _ => ∀ s ∈ layout.container.sections[index]?, s.placed = false

/-- The contents that a step generates for the section with number `k`. -/
def generated? (k : Nat) : Step → Option Bytes
  | copy _ | copyAll => none
  | generate index bytes => if index = k then some bytes else none

end Step

/-- Whether steps, each with the offset it returned, lead from a layout to another, each beginning at
the offset that the one before it returned. -/
inductive Run (start : UInt32) (first : Layout) : List (Step × UInt32) → UInt32 → Layout → Prop where
  | nil : Run start first [] start first
  | snoc {steps : List (Step × UInt32)} {step : Step} {offset next : UInt32} {before after : Layout} :
      Run start first steps offset before → step.Allowed before →
      step.place offset before = .ok next after →
      Run start first (steps ++ [(step, next)]) next after

/-- The contents that steps generate for the section with number `k`. -/
def generated? (steps : List (Step × UInt32)) (k : Nat) : Option Bytes :=
  steps.findSome? fun taken => taken.1.generated? k

/-- Whether a section of a layout has its place there and had none in the layout `first`. -/
structure Layout.PlacedSince (first layout : Layout) (k : Nat) (s : Section) : Prop where
  getElem? : layout.container.sections[k]? = some s
  placed : s.placed = true
  before : ∀ old ∈ first.container.sections[k]?, old.placed = false

/-! ## What runs keep -/

/-- Whether each section that has its place shows its contents there: those in `generated`, if there
are any, and else those of the layout `first`. The sections placed since then lie between `start` and
`stop`, and all others end before `stop`. -/
structure Layout.Laid (first : Layout) (start : Nat) (generated : Nat → Option Bytes)
    (layout : Layout) (stop : Nat) : Prop where
  start_le : start ≤ stop
  data_eq : layout.container.data = first.container.data
  pending : ∀ k s, layout.container.sections[k]? = some s → s.placed = false →
    first.container.sections[k]? = some s ∧ generated k = none
  holds : ∀ k s, layout.container.sections[k]? = some s → s.placed = true →
    s.header.size.toNat = ((generated k).getD (first.container.held k)).length ∧
      s.header.range.stop ≤ stop ∧
      layout.image.Holds s.header.offset.toNat ((generated k).getD (first.container.held k))
  since : ∀ k s, first.PlacedSince layout k s → start ≤ s.header.offset.toNat ∧
    (generated k = none → s.header.alignment.toNat ∣ s.header.offset.toNat)
  apart : ∀ j k s t, j ≠ k → first.PlacedSince layout j s → first.PlacedSince layout k t →
    s.header.range.Apart t.header.range

/-- A section that was given contents of some size at `offset`. -/
def Section.filledAt (s : Section) (offset size : UInt32) : Section :=
  { s with header := { s.header with offset, size }, placed := true }

/-- A section placed by replacing one is that one, or was placed before. -/
theorem Layout.PlacedSince.of_setSection {first layout : Layout} {index k : Nat}
    {found new s : Section} (hfound : layout.container.sections[index]? = some found)
    (h : first.PlacedSince (layout.setSection index new) k s) :
    k = index ∧ s = new ∨ k ≠ index ∧ first.PlacedSince layout k s := by
  have hs := h.getElem?
  rw [getElem?_setSection hfound] at hs
  split at hs
  · exact .inl ⟨‹_›, (Option.some.inj hs).symm⟩
  · exact .inr ⟨‹_›, hs, h.placed, h.before⟩

namespace Layout.Laid

variable {first layout : Layout} {start stop : Nat} {generated : Nat → Option Bytes}

/-- A section that has no place may be given one past everything. -/
theorem setPlace (h : first.Laid start generated layout stop) {index : Nat} {found : Section}
    (hfound : layout.container.sections[index]? = some found) {offset size : UInt32}
    (hoffset : stop ≤ offset.toNat) (contents? : Option Bytes) {bytes : Bytes}
    (hbytes : contents?.getD (first.container.held index) = bytes)
    (hsize : size.toNat = bytes.length)
    (haligned : contents? = none → found.header.alignment.toNat ∣ offset.toNat) {stop' : Nat}
    (hstop : offset.toNat + size.toNat ≤ stop') :
    first.Laid start (Function.update generated index contents?)
      ((layout.writeAt offset.toNat bytes).setSection index (found.filledAt offset size)) stop' := by
  have hget := @getElem?_setSection (layout.writeAt offset.toNat bytes) index found hfound
    (found.filledAt offset size)
  have hsince {k : Nat} {s : Section} := @PlacedSince.of_setSection first
    (layout.writeAt offset.toNat bytes) index k found (found.filledAt offset size) s hfound
  -- What was placed before ends before the new place.
  have hbehind : ∀ k s, first.PlacedSince (layout.writeAt offset.toNat bytes) k s →
      s.header.range.stop ≤ offset.toNat := fun k s hs =>
    Nat.le_trans (h.holds k s hs.getElem? hs.placed).2.1 hoffset
  have hstart := h.start_le
  refine ⟨by omega, h.data_eq, ?_, ?_, ?_, ?_⟩
  · intro k s hs hplaced
    rw [hget] at hs
    split at hs
    · cases hs
      cases hplaced
    · rename_i hk
      rw [Function.update_of_ne hk]
      exact h.pending k s hs hplaced
  · intro k s hs hplaced
    rw [hget] at hs
    split at hs
    · rename_i hk
      cases hs
      rw [hk, Function.update_self, hbytes]
      exact ⟨hsize, hstop, .of_writeAt _ _ _⟩
    · rename_i hk
      rw [Function.update_of_ne hk]
      obtain ⟨hlength, hrange, hholds⟩ := h.holds k s hs hplaced
      simp only [SectionHeader.range] at hrange ⊢
      exact ⟨hlength, by omega, hholds.writeAt (Span.apart_of_le (by dsimp only; omega))⟩
  · intro k s hs
    rcases hsince hs with ⟨rfl, rfl⟩ | ⟨hk, hs⟩
    · rw [Function.update_self]
      exact ⟨Nat.le_trans hstart hoffset, haligned⟩
    · rw [Function.update_of_ne hk]
      exact h.since k s ⟨hs.getElem?, hs.placed, hs.before⟩
  · intro j k s t hjk hs ht
    rcases hsince hs with ⟨rfl, rfl⟩ | ⟨hj, hs'⟩
    · rcases hsince ht with ⟨rfl, rfl⟩ | ⟨hk, ht'⟩
      · exact absurd rfl hjk
      · exact (Span.apart_of_le (hbehind k t ht')).symm
    · rcases hsince ht with ⟨rfl, rfl⟩ | ⟨hk, ht'⟩
      · exact Span.apart_of_le (hbehind j s hs')
      · exact h.apart j k s t hjk ⟨hs'.getElem?, hs'.placed, hs'.before⟩
          ⟨ht'.getElem?, ht'.placed, ht'.before⟩

end Layout.Laid

namespace Placing

variable {first before after : Layout} {start : Nat} {generated : Nat → Option Bytes}
  {dest stop : UInt32} {index : Nat} {found : Section}

/-- A section that has no place is to hold what it held at first. -/
theorem contents_of_pending (h : first.Laid start generated before dest.toNat)
    (hfound : before.container.sections[index]? = some found) (hunplaced : found.placed = false) :
    first.container.held index = before.container.contents found := by
  obtain ⟨hold, -⟩ := h.pending index found hfound hunplaced
  rw [Container.held_eq hold, Container.contents, Container.contents, h.data_eq]

section Steps

variable (hsources : ∀ s ∈ first.container.sections,
  sourceOf? first.container.data.length s.header = some s.source)

include hsources

/-- Copying a section keeps what was laid out. -/
theorem laid_copySection (hbefore : first.Laid start generated before dest.toNat)
    (h : copySection dest index before = .ok stop after) :
    first.Laid start generated after stop.toNat ∧ dest ≤ stop := by
  obtain ⟨found, hfound, h⟩ := copySection_eq_ok_iff.mp h
  split at h
  · obtain ⟨rfl, rfl⟩ := h
    exact ⟨hbefore, UInt32.le_refl _⟩
  · rename_i hmove
    obtain ⟨offset, last, hoffset, hlast, hstop, rfl⟩ := h
    obtain ⟨hunplaced, hdata⟩ : found.placed = false ∧ found.header.hasFileData = true := by
      simpa using hmove
    obtain ⟨hold, hnone⟩ := hbefore.pending index found hfound hunplaced
    obtain ⟨hsource, hinside⟩ := sourceOf?_eq_some_of_hasFileData
      (hsources found (List.mem_of_getElem? hold)) hdata
    have hlength : found.source.length = found.header.size.toNat := by
      rw [hsource]
      exact Nat.add_sub_cancel_left _ _
    have hcontents : (before.container.contents found).length = found.header.size.toNat := by
      rw [Container.contents, hbefore.data_eq, Span.length_slice hinside, hlength]
    have hdest := le_of_alignUp? hoffset
    have hlast := advance?_eq_some_iff.mp hlast
    have hle := le_of_alignUp? hstop
    have haligned : found.header.alignment.toNat ∣ offset.toNat := by
      have hdvd := dvd_of_alignUp? hoffset
      rwa [Nat.max_eq_left found.header.alignment_pos] at hdvd
    have hplaced : first.Laid start (Function.update generated index none)
        (before.move index found offset) stop.toNat :=
      hbefore.setPlace hfound hdest none (contents_of_pending hbefore hfound hunplaced)
        hcontents.symm (fun _ => haligned) (by omega)
    -- Nothing is generated for the section, before the step or by it.
    rw [← hnone, Function.update_eq_self] at hplaced
    exact ⟨hplaced, UInt32.le_iff_toNat_le.mpr (by omega)⟩

/-- Copying all sections keeps what was laid out. -/
theorem laid_copySections (hbefore : first.Laid start generated before dest.toNat)
    (h : copySections dest before = .ok stop after) :
    first.Laid start generated after stop.toNat ∧ dest ≤ stop := by
  unfold copySections at h
  simp only [state_bind_eq_ok_iff, state_get_eq_ok_iff] at h
  obtain ⟨_, _, ⟨rfl, rfl⟩, h⟩ := h
  exact state_foldlM_induction h
    (motive := fun _ stop layout => first.Laid start generated layout stop.toNat ∧ dest ≤ stop)
    ⟨hbefore, UInt32.le_refl _⟩ fun _ index offset between next after ⟨hlaid, hle⟩ hstep =>
      have ⟨hlaid, hle'⟩ := laid_copySection hsources hlaid hstep
      ⟨hlaid, UInt32.le_trans hle hle'⟩

end Steps

end Placing

namespace Step

variable {first before after : Layout} {start : Nat} {generated : Nat → Option Bytes}
  {offset next : UInt32} {index : Nat} {bytes : Bytes}

/-- Generated contents are written at the offset, and the section is moved there and gets their
size. -/
theorem place_generate_eq_ok_iff :
    (generate index bytes).place offset before = .ok next after ↔
      ∃ found, before.container.sections[index]? = some found ∧
        next.toNat = offset.toNat + bytes.length ∧
        after = (before.writeAt offset.toNat bytes).setSection index
          (found.filledAt offset (UInt32.ofNat bytes.length)) := by
  unfold place
  simp only [state_bind_eq_ok_iff, state_modify_eq_ok_iff, Placing.markPlaced_eq_ok_iff,
    Placing.setSize_eq_ok_iff, Placing.orInvalidOffset_eq_ok_iff, advance?_eq_some_iff]
  constructor
  -- the section is marked and then sized: two updates of one entry, taken together
  · rintro ⟨_, _, rfl, _, _, ⟨found, hfound, rfl⟩, _, _, ⟨marked, hmarked, rfl⟩, hnext, rfl⟩
    rw [Layout.getElem?_setSection hfound, if_pos rfl] at hmarked
    cases hmarked
    refine ⟨found, hfound, hnext, ?_⟩
    simp only [Layout.setSection, List.set_set]
    rfl
  · rintro ⟨found, hfound, hnext, rfl⟩
    have hwritten : (before.writeAt offset.toNat bytes).container.sections[index]? = some found :=
      hfound
    refine ⟨(), _, rfl, (), _, ⟨found, hfound, rfl⟩, (), _, ⟨found.placedAt offset, ?_, rfl⟩,
      hnext, ?_⟩
    · rw [Layout.getElem?_setSection hwritten, if_pos rfl]
      rfl
    · simp only [Layout.setSection, List.set_set]
      rfl

/-- A step that generates contents keeps what was laid out before, and adds them to it. -/
theorem laid_generate (hbefore : first.Laid start generated before offset.toNat)
    (h : (generate index bytes).place offset before = .ok next after) :
    first.Laid start (Function.update generated index (some bytes)) after next.toNat ∧
      offset ≤ next := by
  obtain ⟨found, hfound, hnext, rfl⟩ := place_generate_eq_ok_iff.mp h
  have hsize : (UInt32.ofNat bytes.length).toNat = bytes.length := by
    have := next.toNat_lt
    rw [UInt32.toNat_ofNat', Nat.mod_eq_of_lt (by omega)]
  refine ⟨hbefore.setPlace hfound (Nat.le_refl _) (some bytes) rfl hsize nofun (by omega), ?_⟩
  exact UInt32.le_iff_toNat_le.mpr (by omega)

end Step

/-! ## Whole runs -/

/-- A step that generates no contents leaves the generated contents as they were. -/
theorem generated?_snoc_of_none {steps : List (Step × UInt32)} {step : Step} {next : UInt32}
    (h : ∀ k, step.generated? k = none) :
    generated? (steps ++ [(step, next)]) = generated? steps := by
  funext k
  simp [generated?, List.findSome?_append, h k]

/-- Generating a section records its contents. -/
theorem generated?_snoc_generate {steps : List (Step × UInt32)} {index : Nat} {bytes : Bytes}
    {next : UInt32} (hnone : generated? steps index = none) :
    generated? (steps ++ [(.generate index bytes, next)]) =
      Function.update (generated? steps) index (some bytes) := by
  funext k
  rw [generated?, List.findSome?_append]
  by_cases hk : k = index
  · subst hk
    rw [generated?] at hnone
    rw [Function.update_self, hnone]
    simp [Step.generated?]
  · rw [Function.update_of_ne hk]
    simp [generated?, Step.generated?, Ne.symm hk]

namespace Run

variable {start stop : UInt32} {first last : Layout} {steps : List (Step × UInt32)}

/-- A run keeps what was laid out, and its offsets never go back. -/
theorem laid (hsources : ∀ s ∈ first.container.sections,
      sourceOf? first.container.data.length s.header = some s.source)
    (hfirst : first.Laid start.toNat (fun _ => none) first start.toNat)
    (hrun : Run start first steps stop last) :
    first.Laid start.toNat (generated? steps) last stop.toNat ∧
      (∀ offset ∈ start :: steps.map Prod.snd, offset ≤ stop) ∧
      (start :: steps.map Prod.snd).Pairwise (· ≤ ·) := by
  induction hrun with
  | nil => exact ⟨hfirst, by simp, by simp⟩
  | snoc hrun hallowed hstep ih =>
    rename_i steps step offset next before after
    obtain ⟨hlaid, hle, hpairwise⟩ := ih
    have hkept : first.Laid start.toNat (generated? (steps ++ [(step, next)])) after next.toNat ∧
        offset ≤ next := by
      cases step with
      | copy index =>
        rw [generated?_snoc_of_none fun _ => rfl]
        exact Placing.laid_copySection hsources hlaid hstep
      | copyAll =>
        rw [generated?_snoc_of_none fun _ => rfl]
        exact Placing.laid_copySections hsources hlaid hstep
      | generate index bytes =>
        obtain ⟨found, hfound, -⟩ := Step.place_generate_eq_ok_iff.mp hstep
        -- The section has no place yet, so these are the first contents generated for it.
        obtain ⟨-, hnone⟩ := hlaid.pending index found hfound (hallowed found hfound)
        rw [generated?_snoc_generate hnone]
        exact Step.laid_generate hlaid hstep
    have hnext : ∀ o ∈ start :: steps.map Prod.snd, o ≤ next :=
      fun o ho => UInt32.le_trans (hle o ho) hkept.2
    refine ⟨hkept.1, ?_, ?_⟩
    · rw [List.map_append, ← List.cons_append, List.forall_mem_append]
      exact ⟨hnext, by simp⟩
    · rw [List.map_append, ← List.cons_append, List.pairwise_append]
      exact ⟨hpairwise, by simp, by simpa using hnext⟩

end Run

/-- Copying the fixed part lays out the sections that start in it. -/
theorem Placing.laid_copyFixed {container : Container} (hfresh : container.Fresh) {start : UInt32}
    {first : Layout} (h : copyFixed (.start container) = .ok start first) :
    first.Laid start.toNat (fun _ => none) first start.toNat := by
  obtain ⟨rfl, -, hlength, hsources⟩ := eq_of_copyFixed hfresh h
  refine ⟨Nat.le_refl _, rfl, fun k s hs _ => ⟨hs, rfl⟩, ?_, ?_, ?_⟩
  -- the sections of the fixed part hold what they held, where they stood
  · intro k s hs hplaced
    rw [Option.getD_none, Container.held_eq hs]
    rw [List.getElem?_map] at hs
    obtain ⟨old, hold, rfl⟩ := Option.map_eq_some_iff.mp hs
    have hmem := List.mem_of_getElem? hold
    have hisFixed := (Section.placed_settle (hfresh.unplaced old hmem)).mp hplaced
    obtain ⟨hsource, hstop⟩ := hfresh.source_eq hmem hisFixed.1
    have hle := hsources old hmem hisFixed
    have hcontents := hfresh.length_contents hmem hisFixed.1
    have hstart : old.source.start = old.header.offset.toNat := by rw [hsource]
    have hrange : old.source.stop = old.header.range.stop := by rw [hsource]; rfl
    rw [Section.header_settle, Container.contents, Section.source_settle, ← hrange, ← hstart]
    refine ⟨hcontents.symm, hle, fun i hi => ?_⟩
    rw [Span.length_slice hstop, Span.length] at hi
    rw [List.getElem?_take_of_lt (by omega), Span.getElem?_slice hi]
  -- nothing is placed between a layout and itself
  · intro k s hs
    have := hs.before s hs.getElem?
    rw [hs.placed] at this
    cases this
  · intro j k s t _ hs
    have := hs.before s hs.getElem?
    rw [hs.placed] at this
    cases this

/-- However the sections of a file are laid out after its fixed part was copied, the offsets never go
back. The sections that were placed since then are apart and behind the fixed part, and those of them
that were copied are aligned. In the end each section that has its place shows its contents there. -/
theorem run_lays_out {data : Bytes} {container : Container} {start stop : UInt32}
    {first last : Layout} {steps : List (Step × UInt32)} (hopen : Container.ofBytes data = .ok container)
    (hfixed : Placing.copyFixed (.start container) = .ok start first)
    (hrun : Run start first steps stop last) :
    (start :: steps.map Prod.snd).Pairwise (· ≤ ·) ∧
      (∀ j k s t, j ≠ k → first.PlacedSince last j s → first.PlacedSince last k t →
        s.header.range.Apart t.header.range) ∧
      (∀ k s, first.PlacedSince last k s → start ≤ s.header.offset ∧
        (generated? steps k = none → s.header.alignment.toNat ∣ s.header.offset.toNat)) ∧
      ∀ k s, last.container.sections[k]? = some s → s.placed = true →
        s.header.size.toNat = ((generated? steps k).getD (container.held k)).length ∧
          last.image.Holds s.header.offset.toNat
            ((generated? steps k).getD (container.held k)) := by
  have hfresh := Container.fresh_of_ofBytes hopen
  have hfirst := Placing.laid_copyFixed hfresh hfixed
  obtain ⟨rfl, -, -, -⟩ := Placing.eq_of_copyFixed hfresh hfixed
  have hsources : ∀ s ∈ container.sections.map (Section.settle container.fixedStop),
      sourceOf? container.data.length s.header = some s.source := by
    simp only [List.forall_mem_map, Section.header_settle, Section.source_settle]
    exact hfresh.source
  -- the run keeps the layout laid out; the claims are read off at its end
  obtain ⟨hlaid, -, hoffsets⟩ := hrun.laid hsources hfirst
  have hheld (k : Nat) : Container.held { container with
      sections := container.sections.map (Section.settle container.fixedStop) } k =
        container.held k := by
    simp only [Container.held, List.getElem?_map, Option.map_map]
    congr 2
    funext s
    simp [Container.contents]
  refine ⟨hoffsets, hlaid.apart, ?_, ?_⟩
  · intro k s hs
    obtain ⟨hstart, haligned⟩ := hlaid.since k s hs
    exact ⟨UInt32.le_iff_toNat_le.mpr hstart, haligned⟩
  · intro k s hs hplaced
    obtain ⟨hsize, -, hholds⟩ := hlaid.holds k s hs hplaced
    rw [hheld] at hsize hholds
    exact ⟨hsize, hholds⟩

/-- The table of sections of `mixedFile`: one that starts in the fixed part and reaches past it, one
with an alignment that is no power of two, one without contents, an empty one, and one to be
generated. -/
def mixedHeaders : List SectionHeader :=
  let header (type offset size addressAlignment : UInt32) : SectionHeader :=
    { name := 0, type, flags := 0, address := 0, offset, size, link := 0, info := 0,
      addressAlignment, entrySize := 0 }
  [header 1 40 20 4, header 1 60 5 3, header SectionHeader.noBits 0 9 1, header 1 65 0 16,
    header 1 65 3 1]

/-- A file with these sections and without segments. -/
def mixedFile : Bytes :=
  [127, 69, 76, 70, 1, 1, 1, 0, 0, 0, 0, 0, 0, 0, 0, 0, 2, 0, 40, 0, 1, 0, 0, 0, 0, 0, 0, 0, 52, 0,
   0, 0, 68, 0, 0, 0, 0, 0, 0, 0, 52, 0, 32, 0, 0, 0, 40, 0, 5, 0, 0, 0] ++
  [1, 2, 3, 4, 5, 6, 7, 8, 9, 10, 11, 12, 13, 14, 15, 16] ++
  mixedHeaders.flatMap SectionHeader.bytes

/-- What `mixedFile` is opened as. -/
def mixedContainer : Container :=
  { data := mixedFile, segments := [], fixedStop := 52
    header :=
      { type := 2, machine := 40, entry := 0, segmentOffset := 52, sectionOffset := 68,
        headerSize := 52, segmentSize := 32, segmentCount := 0, sectionSize := 40,
        sectionCount := 5, nameSection := 0 }
    sections := List.zipWith (fun header source => { header, name := "4", source, placed := false })
      mixedHeaders [⟨40, 60⟩, ⟨60, 65⟩, ⟨0, 0⟩, ⟨65, 65⟩, ⟨65, 68⟩] }

/-- Steps that copy a section twice and generate one before the rest is copied. -/
def mixedSteps : List (Step × UInt32) :=
  [(.copy 1, 66), (.generate 4 [1, 2, 3, 4, 5, 6, 7], 73), (.copy 1, 73), (.copyAll, 80)]

/-- The theorem at a run that copies, generates and skips. -/
theorem run_lays_out_mixedSteps :
    Container.ofBytes mixedFile = .ok mixedContainer ∧
      ∃ first last, Placing.copyFixed (.start mixedContainer) = .ok 60 first ∧
        Run 60 first mixedSteps 80 last ∧
        (60 :: mixedSteps.map Prod.snd).Pairwise (· ≤ ·) ∧
        (∀ j k s t, j ≠ k → first.PlacedSince last j s → first.PlacedSince last k t →
          s.header.range.Apart t.header.range) ∧
        (∀ k s, first.PlacedSince last k s → 60 ≤ s.header.offset ∧
          (generated? mixedSteps k = none → s.header.alignment.toNat ∣ s.header.offset.toNat)) ∧
        ∀ k s, last.container.sections[k]? = some s → s.placed = true →
          s.header.size.toNat =
            ((generated? mixedSteps k).getD (mixedContainer.held k)).length ∧
          last.image.Holds s.header.offset.toNat
            ((generated? mixedSteps k).getD (mixedContainer.held k)) := by
  have hopen : Container.ofBytes mixedFile = .ok mixedContainer := by decide +kernel
  have hrun : ∃ first last, Placing.copyFixed (.start mixedContainer) = .ok 60 first ∧
      Run 60 first ([] ++ [(.copy 1, 66)] ++ [(.generate 4 [1, 2, 3, 4, 5, 6, 7], 73)] ++
        [(.copy 1, 73)] ++ [(.copyAll, 80)]) 80 last :=
    ⟨_, _, rfl, .snoc (.snoc (.snoc (.snoc .nil trivial rfl) (by rintro s ⟨⟩; rfl) rfl) trivial rfl)
      trivial rfl⟩
  obtain ⟨first, last, hfixed, hrun⟩ := hrun
  exact ⟨hopen, first, last, hfixed, hrun, run_lays_out hopen hfixed hrun⟩

end DwarfLines.Elf
