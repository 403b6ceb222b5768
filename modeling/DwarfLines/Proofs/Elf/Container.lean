import DwarfLines.Elf.Container
import DwarfLines.Proofs.Outcomes
import Mathlib.Data.List.Forall2

/-!
# What an opened file is

Opening a file reads its header, its two tables and the places of its contents one after the other.
Whatever was opened is *fresh*: its sections are where the file has them, and the part that keeps its
layout lies within the file and covers the header and the table of segments.
-/

namespace DwarfLines.Elf

open Outcome

/-- The sources of the sections are found exactly where each header has one. -/
theorem sourcesFrom_eq_ok_iff {length index : Nat} {headers : List SectionHeader}
    {sources : List Span} :
    sourcesFrom length index headers = .ok sources ↔
      List.Forall₂ (fun header source => sourceOf? length header = some source) headers sources := by
  induction headers generalizing index sources with
  | nil => simp [sourcesFrom, eq_comm]
  | cons header headers ih =>
    unfold sourcesFrom
    rw [List.forall₂_cons_left_iff]
    -- the first header has a source or ends the reading
    split
    · rename_i source hsource
      simp only [bind_eq_ok_iff, pure_eq_ok_iff, ih]
      constructor
      · rintro ⟨sources, hsources, rfl⟩
        exact ⟨source, sources, hsource, hsources, rfl⟩
      · rintro ⟨_, sources, hsource', hsources, rfl⟩
        obtain rfl := Option.some.inj (hsource.symm.trans hsource')
        exact ⟨sources, hsources, rfl⟩
    · rename_i hnone
      constructor
      · intro h
        cases h
      · rintro ⟨source, _, hsource, -⟩
        exact absurd hsource (hnone source)

namespace Container

/-- The name of a section, looked up in the contents of the section of names. -/
def nameIn (names : Option Bytes) (header : SectionHeader) : String :=
  (names.bind fun names => nameAt? names header.name).getD ""

/-- The sections of a freshly opened file. -/
def freshSections (data : Bytes) (nameSection : UInt16) (headers : List SectionHeader)
    (sources : List Span) : List Section :=
  List.zipWith (fun header source =>
    { header
      name := nameIn (sources[nameSection.toNat]?.map fun source => source.slice data) header
      source
      placed := false }) headers sources

/-- A file is opened exactly when its header, its tables and its contents are all there. -/
theorem ofBytes_eq_ok_iff {data : Bytes} {container : Container} :
    ofBytes data = .ok container ↔
      ∃ header segments headers sources fixedStop, FileHeader.read data = .ok header ∧
        readSegments data header = .ok segments ∧
        readSectionHeaders data header = .ok headers ∧
        List.Forall₂ (fun header source => sourceOf? data.length header = some source)
          headers sources ∧
        fixedStop.toNat =
          max (coveredStop segments) (max header.segmentsStop Part.fileHeader.size) ∧
        fixedStop.toNat ≤ data.length ∧
        container =
          { data, header, segments, fixedStop,
            sections := freshSections data header.nameSection headers sources } := by
  unfold ofBytes
  simp only [bind_eq_ok_iff, sourcesFrom_eq_ok_iff, throw_bind, ite_throw_eq_ok_iff]
  -- the conditions come in the order of the checks
  constructor
  · rintro ⟨header, hheader, segments, hsegments, headers, hheaders, sources, hsources, hlength, h⟩
    split at h
    · rename_i fixedStop hstop
      cases h
      have hstop := word32?_eq_some_iff.mp hstop
      exact ⟨header, segments, headers, sources, fixedStop, hheader, hsegments, hheaders, hsources,
        hstop, by omega, rfl⟩
    · cases h
  · rintro ⟨header, segments, headers, sources, fixedStop, hheader, hsegments, hheaders, hsources,
      hstop, hlength, rfl⟩
    refine ⟨header, hheader, segments, hsegments, headers, hheaders, sources, hsources, ?_, ?_⟩
    · omega
    · rw [word32?_eq_some_iff.mpr hstop]
      rfl

/-- A container keeps the bytes it was opened from. -/
theorem data_of_ofBytes {data : Bytes} {container : Container} (h : ofBytes data = .ok container) :
    container.data = data := by
  obtain ⟨_, _, _, _, _, -, -, -, -, -, -, rfl⟩ := ofBytes_eq_ok_iff.mp h
  rfl

/-- What every freshly opened file satisfies. -/
structure Fresh (container : Container) : Prop where
  unplaced : ∀ s ∈ container.sections, s.placed = false
  source : ∀ s ∈ container.sections,
    sourceOf? container.data.length s.header = some s.source
  header_le : Part.fileHeader.size ≤ container.fixedStop.toNat
  segments_le : container.header.segmentsStop ≤ container.fixedStop.toNat
  fixed_le : container.fixedStop.toNat ≤ container.data.length

/-- In a container just opened no section is placed and each source is that of its header. -/
theorem fresh_of_ofBytes {data : Bytes} {container : Container}
    (h : ofBytes data = .ok container) : container.Fresh := by
  obtain ⟨header, segments, headers, sources, fixedStop, -, -, -, hsources, hstop, hlength, rfl⟩ :=
    ofBytes_eq_ok_iff.mp h
  -- the sections are made from headers and sources side by side
  have hsections : ∀ s ∈ freshSections data header.nameSection headers sources,
      s.placed = false ∧ sourceOf? data.length s.header = some s.source := by
    unfold freshSections
    generalize sources[header.nameSection.toNat]?.map (fun source => source.slice data) = names
    clear hstop hlength h
    induction hsources with
    | nil => simp
    | cons hfirst _ ih =>
      rw [List.zipWith_cons_cons, List.forall_mem_cons]
      exact ⟨⟨rfl, hfirst⟩, ih⟩
  refine ⟨fun s hs => (hsections s hs).1, fun s hs => (hsections s hs).2, ?_, ?_, hlength⟩
  · dsimp only
    omega
  · dsimp only
    omega

end Container

/-- The source of a stored section is the range its header names, inside the data. -/
theorem sourceOf?_eq_some_of_hasFileData {length : Nat} {header : SectionHeader} {source : Span}
    (h : sourceOf? length header = some source) (hdata : header.hasFileData = true) :
    source = ⟨header.offset.toNat, header.offset.toNat + header.size.toNat⟩ ∧
      source.stop ≤ length := by
  unfold sourceOf? at h
  rw [if_pos hdata] at h
  dsimp only at h
  split at h
  · cases h
    exact ⟨rfl, ‹_›⟩
  · cases h

/-- A section without contents always has a source, which shows nothing. -/
theorem exists_sourceOf?_of_not_hasFileData (length : Nat) {header : SectionHeader}
    (hdata : header.hasFileData = false) :
    ∃ source, sourceOf? length header = some source ∧ ∀ data, source.slice data = [] := by
  unfold sourceOf?
  rw [if_neg (by simp [hdata])]
  refine ⟨_, rfl, fun data => ?_⟩
  rw [Span.slice, Span.length, Nat.sub_self, List.take_zero]

namespace Container.Fresh

variable {container : Container} {s : Section}

/-- A section without file contents holds no bytes. -/
theorem contents_eq_nil (hfresh : container.Fresh) (hs : s ∈ container.sections)
    (hdata : s.header.hasFileData = false) : container.contents s = [] := by
  obtain ⟨source, hsource, hslice⟩ := exists_sourceOf?_of_not_hasFileData container.data.length hdata
  obtain rfl := Option.some.inj ((hfresh.source s hs).symm.trans hsource)
  exact hslice container.data

/-- The source of a stored section is the range its header names. -/
theorem source_eq (hfresh : container.Fresh) (hs : s ∈ container.sections)
    (hdata : s.header.hasFileData = true) :
    s.source = ⟨s.header.offset.toNat, s.header.offset.toNat + s.header.size.toNat⟩ ∧
      s.source.stop ≤ container.data.length :=
  sourceOf?_eq_some_of_hasFileData (hfresh.source s hs) hdata

/-- A stored section holds as many bytes as its header says. -/
theorem length_contents (hfresh : container.Fresh) (hs : s ∈ container.sections)
    (hdata : s.header.hasFileData = true) :
    (container.contents s).length = s.header.size.toNat := by
  obtain ⟨hsource, hstop⟩ := hfresh.source_eq hs hdata
  rw [contents, Span.length_slice hstop, hsource]
  exact Nat.add_sub_cancel_left _ _

end Container.Fresh

end DwarfLines.Elf
