import DwarfLines.Proofs.Elf.Tables

/-!
# Opening a file again

A file that has the header and the segments of another, a table of sections of its own, and bytes for
each of these sections is opened, too, and its sections have these bytes. If the names of the sections
are among the bytes that stay, each section is found by the same name.
-/

namespace DwarfLines.Elf

open Outcome

namespace Container

theorem getElem?_freshSections {data : Bytes} {nameSection : UInt16} {headers : List SectionHeader}
    {sources : List Span} {k : Nat} {s : Section} :
    (freshSections data nameSection headers sources)[k]? = some s ↔
      ∃ header source, headers[k]? = some header ∧ sources[k]? = some source ∧
        s = { header
              name := nameIn (sources[nameSection.toNat]?.map fun source => source.slice data) header
              source
              placed := false } := by
  unfold freshSections
  rw [List.getElem?_zipWith_eq_some]
  simp only [eq_comm]

theorem length_freshSections {data : Bytes} {nameSection : UInt16} {headers : List SectionHeader}
    {sources : List Span} (hlength : headers.length = sources.length) :
    (freshSections data nameSection headers sources).length = headers.length := by
  rw [freshSections, List.length_zipWith, ← hlength, Nat.min_self]

theorem getElem?_freshSections_slice {data : Bytes} {nameSection : UInt16}
    {headers : List SectionHeader} {sources : List Span} (hlength : headers.length = sources.length)
    (k : Nat) :
    (freshSections data nameSection headers sources)[k]?.map (fun s => s.source.slice data) =
      sources[k]?.map fun source => source.slice data := by
  unfold freshSections
  rw [List.getElem?_zipWith]
  by_cases hk : k < sources.length
  · rw [List.getElem?_eq_getElem (hlength ▸ hk), List.getElem?_eq_getElem hk]
    rfl
  · rw [List.getElem?_eq_none (by omega), List.getElem?_eq_none (by omega)]
    rfl

/-- The contents of the section of names, if it is there. -/
def nameBytes (container : Container) : Option Bytes :=
  container.sections[container.header.nameSection.toNat]?.map container.contents

/-- Each section of an opened file has its name from the section of names. -/
theorem name_of_ofBytes {data : Bytes} {container : Container} (h : ofBytes data = .ok container)
    {s : Section} (hs : s ∈ container.sections) : s.name = nameIn container.nameBytes s.header := by
  obtain ⟨header, segments, headers, sources, fixedStop, -, -, -, hsources, -, -, rfl⟩ :=
    ofBytes_eq_ok_iff.mp h
  obtain ⟨k, hk⟩ := List.mem_iff_getElem?.mp hs
  obtain ⟨_, _, -, -, rfl⟩ := getElem?_freshSections.mp hk
  exact congrArg (fun names => nameIn names _)
    (getElem?_freshSections_slice hsources.length_eq header.nameSection.toNat).symm

/-- The sources of sections that have one. -/
def sourcesOf (length : Nat) (sections : List Section) : List Span :=
  sections.map fun s => (sourceOf? length s.header).getD ⟨0, 0⟩

/-- Whether a file comes from an opened one by giving its sections other headers and bytes, which
are told by `sections` and `held`. -/
structure Rewritten (container : Container) (sections : List Section) (held : Nat → Bytes)
    (table : UInt32) (out : Bytes) : Prop where
  header : ∀ i < Part.fileHeader.size, i ∉ sectionOffsetPlace → out[i]? = container.data[i]?
  segments : ∀ i ∈ container.header.segmentTable, out[i]? = container.data[i]?
  fixed_le : container.fixedStop.toNat ≤ out.length
  place : (Image.mk out).Holds sectionOffsetField (bytesOfWord32 table)
  holds_table : (Image.mk out).Holds table.toNat (sections.flatMap fun s => s.header.bytes)
  table_le : table.toNat + sections.length * Part.section.size ≤ out.length
  count : sections.length = container.sections.length
  source : ∀ (k : Nat) (s : Section), sections[k]? = some s →
    ∃ source, sourceOf? out.length s.header = some source ∧ source.slice out = held k

/-- A rewritten file is opened, and its sections are those that it was rewritten with. -/
theorem Rewritten.exists_ofBytes {data out : Bytes} {container : Container}
    {sections : List Section} {held : Nat → Bytes} {table : UInt32}
    (hopen : ofBytes data = .ok container) (h : Rewritten container sections held table out) :
    ∃ container', ofBytes out = .ok container' ∧
      container'.header = { container.header with sectionOffset := table } ∧
      container'.fixedStop = container.fixedStop ∧
      container'.sections.length = container.sections.length ∧
      ∀ (k : Nat) (s : Section), sections[k]? = some s → ∃ s', container'.sections[k]? = some s' ∧
        s'.header = s.header ∧ container'.contents s' = held k := by
  obtain ⟨header, segments, headers, sources, fixedStop, hheader, hsegments, hheaders, hsources,
    hstop, hlength, rfl⟩ := ofBytes_eq_ok_iff.mp hopen
  obtain ⟨hsame, hsegmentsSame, hfixed, hplace, htable, htableStop, hcount, hsource⟩ := h
  dsimp only at hsame hsegmentsSame hfixed hcount
  obtain ⟨-, rest, htimes⟩ := readTable_eq_ok_iff.mp hheaders
  have hheadersLength : headers.length = header.sectionCount.toNat := Decoder.length_of_times htimes
  have hcount' : sections.length = header.sectionCount.toNat := by
    rw [hcount, length_freshSections hsources.length_eq, hheadersLength]
  have hsectionsStop :
      table.toNat + header.sectionCount.toNat * Part.section.size ≤ out.length :=
    hcount' ▸ htableStop
  have hsegmentsStop : header.segmentsStop ≤ out.length := by omega
  -- Everything that opening the file reads is read from the other one in turn.
  have hheader' := FileHeader.read_of_same hheader hsame hplace hsegmentsStop hsectionsStop
  have hsegments' : readSegments out { header with sectionOffset := table } = .ok segments :=
    readTable_of_same Segment.local_decode Segment.takes_decode hsegments hsegmentsStop
      fun i hstart hstop => hsegmentsSame i ⟨hstart, hstop⟩
  have hheaders' : readSectionHeaders out { header with sectionOffset := table } =
      .ok (sections.map Section.header) := readSectionHeaders_of_holds hcount' hsectionsStop htable
  have hsources' : List.Forall₂ (fun header source => sourceOf? out.length header = some source)
      (sections.map Section.header) (sourcesOf out.length sections) := by
    rw [sourcesOf, List.forall₂_map_left_iff, List.forall₂_map_right_iff, List.forall₂_same]
    intro s hs
    obtain ⟨k, hk⟩ := List.mem_iff_getElem?.mp hs
    obtain ⟨source, hsource, -⟩ := hsource k s hk
    rw [hsource]
    rfl
  refine ⟨_, ofBytes_eq_ok_iff.mpr ⟨_, _, _, _, fixedStop, hheader', hsegments', hheaders',
    hsources', hstop, hfixed, rfl⟩, rfl, rfl, ?_, ?_⟩
  · show (freshSections out _ _ _).length = _
    rw [length_freshSections hsources'.length_eq, List.length_map, hcount]
  · intro k s hs
    obtain ⟨source, hsource, hslice⟩ := hsource k s hs
    have hfresh : (freshSections out header.nameSection (sections.map Section.header)
        (sourcesOf out.length sections))[k]? = some _ :=
      getElem?_freshSections.mpr ⟨s.header, source, by simp [hs], by simp [sourcesOf, hs, hsource],
        rfl⟩
    exact ⟨_, hfresh, rfl, hslice⟩

/-- A rewritten file has the segments that it had. -/
theorem Rewritten.segments_eq {data out : Bytes} {container container' : Container}
    {sections : List Section} {held : Nat → Bytes} {table : UInt32}
    (hopen : ofBytes data = .ok container) (h : Rewritten container sections held table out)
    (hopen' : ofBytes out = .ok container') : container'.segments = container.segments := by
  obtain ⟨again, hagain, hheader, -⟩ := h.exists_ofBytes hopen
  obtain rfl := Except.ok.inj (hopen'.symm.trans hagain)
  obtain ⟨header, segments, headers, sources, fixedStop, -, hsegments, -, -, hstop, -, rfl⟩ :=
    ofBytes_eq_ok_iff.mp hopen
  obtain ⟨header', segments', _, _, _, -, hsegments', -, -, -, -, rfl⟩ :=
    ofBytes_eq_ok_iff.mp hopen'
  -- The table is where it was, since the place of the other table is all that is new in the header.
  dsimp only at hheader
  subst hheader
  have hfixed := h.fixed_le
  dsimp only at hfixed
  have hsame : readSegments out { header with sectionOffset := table } = .ok segments :=
    readTable_of_same Segment.local_decode Segment.takes_decode hsegments
      (show header.segmentsStop ≤ out.length by omega)
      fun i hstart hend => h.segments i ⟨hstart, hend⟩
  exact Except.ok.inj (hsegments'.symm.trans hsame)

/-- What a rewritten file has to keep for its sections to be found by name: the places and the bytes
of the names, and what kind of section each is. -/
structure KeepsNames (container : Container) (sections : List Section) (held : Nat → Bytes) :
    Prop where
  section_eq : ∀ (k : Nat) (s : Section), sections[k]? = some s →
    ∃ old, container.sections[k]? = some old ∧ s.header.name = old.header.name ∧
      s.header.type = old.header.type
  names : ∀ names, container.sections[container.header.nameSection.toNat]? = some names →
    held container.header.nameSection.toNat = container.contents names

/-- A rewritten file that keeps the names has each section under the name that it had. -/
theorem Rewritten.exists_ofBytes_names {data out : Bytes} {container : Container}
    {sections : List Section} {held : Nat → Bytes} {table : UInt32}
    (hopen : ofBytes data = .ok container) (h : Rewritten container sections held table out)
    (hnames : KeepsNames container sections held) :
    ∃ container', ofBytes out = .ok container' ∧
      ∀ (k : Nat) (old : Section), container.sections[k]? = some old →
        ∃ new, container'.sections[k]? = some new ∧ new.name = old.name ∧
          new.header.type = old.header.type ∧ container'.contents new = held k := by
  obtain ⟨container', hopen', hheader, -, hlength, hsections⟩ := h.exists_ofBytes hopen
  have hsection : ∀ (k : Nat) (old : Section), container.sections[k]? = some old →
      ∃ new, container'.sections[k]? = some new ∧ new.header.name = old.header.name ∧
        new.header.type = old.header.type ∧ container'.contents new = held k := by
    intro k old hold
    have hk : k < sections.length := by
      rw [h.count]
      exact (List.getElem?_eq_some_iff.mp hold).1
    obtain ⟨new, hnew, hheader, hcontents⟩ := hsections k _ (List.getElem?_eq_getElem hk)
    obtain ⟨old', hold', hname, htype⟩ := hnames.section_eq k _ (List.getElem?_eq_getElem hk)
    obtain rfl := Option.some.inj (hold.symm.trans hold')
    exact ⟨new, hnew, hheader ▸ hname, hheader ▸ htype, hcontents⟩
  -- The names are themselves the contents of a section, which may not be there.
  have hbytes : container'.nameBytes = container.nameBytes := by
    unfold nameBytes
    rw [hheader]
    dsimp only
    cases hold : container.sections[container.header.nameSection.toNat]? with
    | none =>
      rw [List.getElem?_eq_none_iff] at hold
      rw [List.getElem?_eq_none (by omega)]
      rfl
    | some old =>
      obtain ⟨new, hnew, -, -, hcontents⟩ := hsection _ old hold
      rw [hnew, Option.map_some, Option.map_some, hcontents, hnames.names old hold]
  refine ⟨container', hopen', fun k old hold => ?_⟩
  obtain ⟨new, hnew, hname, htype, hcontents⟩ := hsection k old hold
  refine ⟨new, hnew, ?_, htype, hcontents⟩
  rw [name_of_ofBytes hopen' (List.mem_of_getElem? hnew),
    name_of_ofBytes hopen (List.mem_of_getElem? hold), hbytes, nameIn, nameIn, hname]

/-- A section is found at the same place among sections of the same names. -/
theorem find?_of_same_names {container container' : Container}
    (hsections : ∀ (k : Nat) (old : Section), container.sections[k]? = some old →
      ∃ new, container'.sections[k]? = some new ∧ new.name = old.name)
    {name : String} {info : SectionInfo} (h : container.find? name = some info) :
    ∃ new, container'.sections[info.index]? = some new ∧
      container'.find? name = some (infoOf info.index new) := by
  obtain ⟨old, hold, hname, -, hbefore⟩ := find?_eq_some_iff.mp h
  obtain ⟨new, hnew, hnew'⟩ := hsections _ old hold
  refine ⟨new, hnew, find?_eq_some_iff.mpr ⟨new, hnew, hnew'.trans hname, rfl, ?_⟩⟩
  intro j hj s hs
  have hlength := (List.getElem?_eq_some_iff.mp hold).1
  have holdj := List.getElem?_eq_getElem (Nat.lt_trans hj hlength)
  obtain ⟨s', hs', hsame⟩ := hsections j _ holdj
  obtain rfl := Option.some.inj (hs.symm.trans hs')
  rw [hsame]
  exact hbefore j hj _ holdj

end Container

end DwarfLines.Elf

namespace DwarfLines

open Outcome Elf

/-- A debug section is picked again from a rewritten file, with the bytes that it was rewritten
with. -/
theorem DebugSections.exists_pick {container container' : Container} {held : Nat → Bytes}
    (hsections : ∀ (k : Nat) (old : Section), container.sections[k]? = some old →
      ∃ new, container'.sections[k]? = some new ∧ new.name = old.name ∧
        new.header.type = old.header.type ∧ container'.contents new = held k)
    {name : String} {info : SectionInfo} (h : pick container name = .ok info) :
    ∃ info', pick container' name = .ok info' ∧ info'.index = info.index ∧
      container'.contents? info'.index = .ok (held info.index) := by
  obtain ⟨hfind, htype⟩ := pick_eq_ok_iff.mp h
  obtain ⟨old, hold, -, hinfo, -⟩ := Container.find?_eq_some_iff.mp hfind
  obtain ⟨new, hnew, hfind'⟩ := Container.find?_of_same_names
    (fun k old hold => let ⟨new, hnew, hname, _⟩ := hsections k old hold; ⟨new, hnew, hname⟩) hfind
  obtain ⟨new', hnew', -, htype', hcontents⟩ := hsections _ old hold
  obtain rfl := Option.some.inj (hnew.symm.trans hnew')
  refine ⟨_, pick_eq_ok_iff.mpr ⟨hfind', ?_⟩, rfl,
    Container.contents?_eq_ok_iff.mpr ⟨new, hnew, hcontents.symm⟩⟩
  rw [hinfo] at htype
  exact fun h => htype (htype'.symm.trans h)

/-- A rewritten file has its debug sections where they were. -/
theorem DebugFile.exists_ofBytes_of_rewritten {data out : Bytes} {file : DebugFile}
    {sections : List Section} {held : Nat → Bytes} {table : UInt32}
    (hopen : (ofBytes data).result = .ok file)
    (h : Container.Rewritten file.container sections held table out)
    (hnames : Container.KeepsNames file.container sections held) :
    ∃ file', (ofBytes out).result = .ok file' ∧
      file'.sections.info.index = file.sections.info.index ∧
      file'.sections.abbreviations.index = file.sections.abbreviations.index ∧
      file'.sections.line.index = file.sections.line.index ∧
      file'.info = held file.sections.info.index ∧
      file'.abbreviations = held file.sections.abbreviations.index ∧
      file'.line = held file.sections.line.index := by
  obtain ⟨hcontainer, hdebug, -, -, -⟩ := result_ofBytes_eq_ok_iff.mp hopen
  obtain ⟨hinfo, habbreviations, hline⟩ := DebugSections.ofContainer_eq_ok_iff.mp hdebug
  obtain ⟨container', hcontainer', hsections⟩ := h.exists_ofBytes_names hcontainer hnames
  obtain ⟨info', hinfo', hindex, hcontents⟩ := DebugSections.exists_pick hsections hinfo
  obtain ⟨abbreviations', habbreviations', hindex', hcontents'⟩ :=
    DebugSections.exists_pick hsections habbreviations
  obtain ⟨line', hline', hindex'', hcontents''⟩ := DebugSections.exists_pick hsections hline
  refine ⟨⟨container', ⟨info', abbreviations', line'⟩, _, _, _⟩, ?_, hindex, hindex', hindex'', rfl,
    rfl, rfl⟩
  exact result_ofBytes_eq_ok_iff.mpr ⟨hcontainer', DebugSections.ofContainer_eq_ok_iff.mpr
    ⟨hinfo', habbreviations', hline'⟩, hcontents, hcontents', hcontents''⟩

end DwarfLines
