import DwarfLines.Proofs.Elf.Placing
import DwarfLines.Proofs.Shrink.Serving

/-!
# The layout while compile units are served

Serving compile units adds programs behind everything and changes references where the compile units
are, which is in the front or in a section of their own. The layout stays arranged all the time, and
what it shows is told by the records of the run.
-/

namespace DwarfLines

/-- The front of a layout, after edits of the compile units if these are there. -/
def frontWith (fixedStop : UInt32) (info : Elf.Section) (front : Bytes)
    (edits : List (Nat × UInt32)) : Bytes :=
  if info.header.offset < fixedStop then
    ((Elf.Image.mk front).writeWords
      (edits.map fun edit => (info.header.offset.toNat + edit.1, edit.2))).bytes
  else front

/-- What the sections of a layout hold, after edits of the compile units if these are not in the
front. -/
def heldWith (fixedStop : UInt32) (info : Elf.Section) (held : Nat → Bytes) (index : Nat)
    (edits : List (Nat × UInt32)) : Nat → Bytes :=
  if info.header.offset < fixedStop then held
  else Function.update held index ((Elf.Image.mk (held index)).writeWords edits).bytes

theorem frontWith_nil (fixedStop : UInt32) (info : Elf.Section) (front : Bytes) :
    frontWith fixedStop info front [] = front := by
  unfold frontWith
  split <;> rfl

theorem heldWith_nil (fixedStop : UInt32) (info : Elf.Section) (held : Nat → Bytes) (index : Nat) :
    heldWith fixedStop info held index [] = held := by
  unfold heldWith
  split
  · rfl
  · exact Function.update_eq_self index held

/-- What holds of the section of compile units in a layout, and of its edits so far. -/
structure Patchable (layout : Elf.Layout) (front : Bytes) (held : Nat → Bytes) (index : Nat)
    (info : Elf.Section) : Prop where
  find : layout.container.sections[index]? = some info
  placed : info.header.hasFileData = true → info.placed = true
  hasFileData : held index ≠ [] → info.header.hasFileData = true
  inFront : info.header.offset < layout.container.fixedStop →
    info.header.offset.toNat + (held index).length ≤ front.length

variable {layout : Elf.Layout} {front : Bytes} {held : Nat → Bytes} {index line : Nat}
  {info : Elf.Section}

theorem length_frontWith (hinfo : Patchable layout front held index info)
    {edits : List (Nat × UInt32)} (hedits : ∀ edit ∈ edits, edit.1 + 4 ≤ (held index).length) :
    (frontWith layout.container.fixedStop info front edits).length = front.length := by
  unfold frontWith
  split
  · rename_i hfixed
    have hinFront := hinfo.inFront hfixed
    refine Elf.Image.length_writeWords ?_
    rw [List.forall_mem_map]
    intro edit hedit
    have := hedits edit hedit
    simp only [Elf.Image.length]
    omega
  · rfl

/-- A changed reference shows in the front or in what the section of compile units holds. -/
theorem arranged_redirect (hinfo : Patchable layout front held index info) (hne : index ≠ line)
    {edits : List (Nat × UInt32)} {bytes : Bytes} {stop : Nat}
    (h : layout.Arranged (frontWith layout.container.fixedStop info front edits)
      (Function.update (heldWith layout.container.fixedStop info held index edits) line bytes) stop)
    (hedits : ∀ edit ∈ edits, edit.1 + 4 ≤ (held index).length) {place : Nat}
    (hplace : place + 4 ≤ (held index).length) (word : UInt32) :
    (layout.writeAt (info.header.offset.toNat + place) (bytesOfWord32 word)).Arranged
      (frontWith layout.container.fixedStop info front (edits ++ [(place, word)]))
      (Function.update (heldWith layout.container.fixedStop info held index
        (edits ++ [(place, word)])) line bytes) stop := by
  have hlength := length_frontWith hinfo hedits
  unfold frontWith at hlength
  unfold frontWith heldWith at h ⊢
  -- The word goes into the front in the fixed part, and else into what the section holds.
  by_cases hfixed : info.header.offset < layout.container.fixedStop
  · have hinFront := hinfo.inFront hfixed
    simp only [hfixed, if_true] at h hlength ⊢
    rw [List.map_append, List.map_singleton, Elf.Image.writeWords_concat]
    refine h.writeAt_front _ ?_
    rw [hlength, length_bytesOfWord32]
    omega
  · have hdata := hinfo.hasFileData (List.ne_nil_of_length_pos (by omega))
    have hmoved : info.HasMoved layout.container.fixedStop :=
      ⟨hinfo.placed hdata, hdata, UInt32.not_lt.mp hfixed⟩
    simp only [hfixed, if_false] at h ⊢
    have hheld : ((Elf.Image.mk (held index)).writeWords edits).bytes.length =
        (held index).length := Elf.Image.length_writeWords hedits
    have hwritten := h.writeWord32_moved hinfo.find hmoved word (by
      rwa [Function.update_of_ne hne, Function.update_self, hheld])
    rwa [Function.update_of_ne hne, Function.update_self, Function.update_comm hne.symm,
      Function.update_idem, ← Elf.Image.writeWords_concat _ _ (place, word)] at hwritten

theorem Patchable.of_container_eq (hinfo : Patchable layout front held index info)
    {other : Elf.Layout} (h : other.container = layout.container) :
    Patchable other front held index info := by
  obtain ⟨hfind, hplaced, hdata, hinFront⟩ := hinfo
  rw [← h] at hfind hinFront
  exact ⟨hfind, hplaced, hdata, hinFront⟩

namespace LineOutput

open Elf

/-- What is known of an output while compile units are served: its programs, the edits of the
references, and that its layout shows both. -/
structure Serving (places : Places) (layout : Layout) (front : Bytes) (held : Nat → Bytes)
    (index line : Nat) (info : Section) (references : List StatementList)
    (programs : List (UInt32 × ShrunkProgram)) (edits : List (Nat × UInt32))
    (output : LineOutput) : Prop where
  records : Records places references programs edits output
  container : output.layout.container = layout.container
  inside : ∀ edit ∈ edits, edit.1 + 4 ≤ (held index).length
  arranged : output.layout.Arranged (frontWith layout.container.fixedStop info front edits)
    (Function.update (heldWith layout.container.fixedStop info held index edits) line
      (lineSection programs)) output.stop.toNat

variable {places : Places} {lineSec : Section} {references : List StatementList}
  {programs : List (UInt32 × ShrunkProgram)} {edits : List (Nat × UInt32)} {output : LineOutput}

/-- A program that is added shows behind everything. -/
theorem arranged_added (hline : layout.container.sections[line]? = some lineSec)
    (hplaced : lineSec.placed = true) (hstart : lineSec.header.offset = places.start)
    (h : Serving places layout front held index line info references programs edits output)
    (lineOffset : UInt32) {stop : UInt32} {shrunk : ShrunkProgram}
    (hstop : advance? output.stop shrunk.bytes.length = some stop) :
    (output.added places lineOffset shrunk stop).layout.Arranged
      (frontWith layout.container.fixedStop info front edits)
      (Function.update (heldWith layout.container.fixedStop info held index edits) line
        (lineSection (programs ++ [(lineOffset, shrunk)]))) stop.toNat := by
  have hstop := advance?_eq_some_iff.mp hstop
  have hfound : output.layout.container.sections[line]? = some lineSec := by
    rw [h.container]
    exact hline
  have hlast : (lineSec.place (Function.update (heldWith layout.container.fixedStop info held index
      edits) line (lineSection programs) line)).stop = output.stop.toNat := by
    rw [Function.update_self, h.records.stop_eq, Section.place, hstart]
  have hgrown := h.arranged.append hfound hplaced hlast shrunk.bytes
  rw [Function.update_self, Function.update_idem, ← hstop] at hgrown
  rw [lineSection_append, lineSection_singleton]
  exact hgrown

/-- Providing a program for a reference and changing the reference. -/
theorem serving_provides (hinfo : Patchable layout front held index info) (hne : index ≠ line)
    (hplaces : places.info = info.header.offset)
    (hline : layout.container.sections[line]? = some lineSec) (hplaced : lineSec.placed = true)
    (hstart : lineSec.header.offset = places.start) {reference : StatementList}
    (hinside : reference.valueOffset + 4 ≤ (held index).length)
    (h : Serving places layout front held index line info references programs edits output)
    {relative : UInt32} {between : LineOutput}
    (hprovides : Provides places output reference.lineOffset relative between) :
    ∃ programs' edits', Serving places layout front held index line info (references ++ [reference])
      programs' edits' (between.redirected places reference.valueOffset relative) := by
  have hinside' : ∀ edit ∈ edits ++ [(reference.valueOffset, relative)],
      edit.1 + 4 ≤ (held index).length := by
    rw [List.forall_mem_append, List.forall_mem_singleton]
    exact ⟨h.inside, hinside⟩
  -- A program that is shared is there already. One that is added is written behind everything
  -- before the reference is changed.
  cases hprovides with
  | shared hlookup =>
    refine ⟨programs, _, (h.records.provides_shared hlookup).redirected _ _, h.container, hinside',
      ?_⟩
    have hredirect := arranged_redirect (hinfo.of_container_eq h.container) hne
      (by rw [h.container]; exact h.arranged) h.inside hinside relative
    rw [h.container, ← hplaces] at hredirect
    exact hredirect
  | @added shrunk stop hlookup hshrunk hstop =>
    refine ⟨_, _, (h.records.provides_added hlookup hshrunk hstop).redirected _ _, h.container,
      hinside', ?_⟩
    have hadded := arranged_added hline hplaced hstart h reference.lineOffset hstop
    have hcontainer : (output.added places reference.lineOffset shrunk stop).layout.container =
        layout.container := h.container
    have hredirect := arranged_redirect (hinfo.of_container_eq hcontainer) hne
      (by rw [hcontainer]; exact hadded) h.inside hinside (output.stop - places.start)
    rw [hcontainer, ← hplaces] at hredirect
    exact hredirect

/-- Serving references one after the other. -/
theorem serving_serves (hinfo : Patchable layout front held index info) (hne : index ≠ line)
    (hplaces : places.info = info.header.offset)
    (hline : layout.container.sections[line]? = some lineSec) (hplaced : lineSec.placed = true)
    (hstart : lineSec.header.offset = places.start) {served : List StatementList}
    {after : LineOutput} (hserves : Serves places output served after)
    (hinside : ∀ reference ∈ served, reference.valueOffset + 4 ≤ (held index).length)
    (h : Serving places layout front held index line info references programs edits output) :
    ∃ programs' edits', Serving places layout front held index line info (references ++ served)
      programs' edits' after := by
  induction hserves generalizing references programs edits with
  | nil =>
    rw [List.append_nil]
    exact ⟨programs, edits, h⟩
  | @cons output between after reference relative served hprovides hserves ih =>
    rw [List.forall_mem_cons] at hinside
    obtain ⟨programs', edits', h'⟩ := serving_provides hinfo hne hplaces hline hplaced hstart
      hinside.1 h hprovides
    have hrest := ih hinside.2 h'
    rwa [List.append_assoc] at hrest

/-- Serving all units. -/
theorem serving_serveAll (hinfo : Patchable layout front held index info) (hne : index ≠ line)
    (hplaces : places.info = info.header.offset)
    (hline : layout.container.sections[line]? = some lineSec) (hplaced : lineSec.placed = true)
    (hstart : lineSec.header.offset = places.start)
    (harranged : layout.Arranged front (Function.update held line []) places.start.toNat)
    {visits : List UnitVisit} {stopped : Option DebugError}
    (hinside : ∀ reference ∈ visits.filterMap UnitVisit.statementList?,
      reference.valueOffset + 4 ≤ (held index).length)
    (h : ((LineOutput.start layout places.start).serveAll places (visits, stopped)).result =
      .ok output) :
    stopped = none ∧ ∃ programs edits, Serving places layout front held index line info
      (visits.filterMap UnitVisit.statementList?) programs edits output := by
  obtain ⟨hstopped, hserves⟩ := result_serveAll_eq_ok_iff.mp h
  have hbefore : Serving places layout front held index line info [] [] []
      (.start layout places.start) := by
    refine ⟨.start places layout, rfl, List.forall_mem_nil _, ?_⟩
    rw [frontWith_nil, heldWith_nil]
    exact harranged
  exact ⟨hstopped, serving_serves hinfo hne hplaces hline hplaced hstart hserves hinside hbefore⟩

end LineOutput

end DwarfLines
