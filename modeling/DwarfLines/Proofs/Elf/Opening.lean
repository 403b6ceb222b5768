import DwarfLines.Proofs.Elf.Fields
import DwarfLines.Proofs.Elf.Runs

/-!
# What is checked when a file is opened

A file is opened if it passes a list of checks, and the first check that fails decides which error is
reported. The checks read the fields of the file in their places: those of its header come first, then
the sections, and the segments last.
-/

namespace DwarfLines.Elf

open Outcome

/-! ## Checks -/

/-- A condition on a file, and the error that reports where it is not met. -/
structure Check where
  passes : Bool
  error : Error
  deriving DecidableEq, Repr

namespace Check

variable {α β : Type} {check : Check} {checks later : List Check} {x y : Except Error α}

/-- An outcome that is reached if all checks pass, and else the error of the first that fails. -/
def guarding (checks : List Check) (x : Except Error α) : Except Error α :=
  match checks.find? (!·.passes) with
  | some check => .error check.error
  | none => x

/-- The first check decides before the others. -/
theorem guarding_cons :
    guarding (check :: checks) x = if check.passes then guarding checks x else .error check.error := by
  unfold guarding
  rw [List.find?_cons]
  cases check.passes <;> rfl

/-- Checks may be made in two parts. -/
theorem guarding_append : guarding (checks ++ later) x = guarding checks (guarding later x) := by
  unfold guarding
  rw [List.find?_append]
  cases checks.find? (!·.passes) <;> rfl

/-- What comes after the checks may be more than one step. -/
theorem guarding_bind (f : α → Except Error β) :
    guarding checks x >>= f = guarding checks (x >>= f) := by
  unfold guarding
  cases checks.find? (!·.passes) <;> rfl

/-- What comes after checks may take for granted that they pass. -/
theorem guarding_congr (h : (∀ check ∈ checks, check.passes = true) → x = y) :
    guarding checks x = guarding checks y := by
  unfold guarding
  cases hfind : checks.find? (!·.passes) with
  | some check => rfl
  | none => exact h (by simpa using hfind)

end Check

open Check

/-- The checks of a file's header. Entry sizes count only where there are entries. -/
def FileHeader.checks (data : Bytes) : List Check :=
  let header := stored data
  [⟨Part.fileHeader.size ≤ data.length, .truncated⟩,
    ⟨data.take 4 = magic, .badMagic⟩,
    ⟨data[4]? = some 1, .unsupportedClass⟩,
    ⟨data[5]? = some 1, .unsupportedEncoding⟩,
    ⟨header.headerSize.toNat = Part.fileHeader.size,
      .malformedContainer .fileHeader header.headerSize⟩,
    ⟨0 < header.segmentCount → header.segmentSize.toNat = Part.segment.size,
      .malformedContainer .segment header.segmentSize⟩,
    ⟨0 < header.sectionCount → header.sectionSize.toNat = Part.section.size,
      .malformedContainer .section header.sectionSize⟩,
    ⟨header.segmentsStop ≤ data.length ∧ header.sectionsStop ≤ data.length, .invalidOffset⟩]

/-- The check of a section with contents in the file. -/
def SectionHeader.check (length index : Nat) (header : SectionHeader) : Check :=
  ⟨header.hasFileData → header.range.stop ≤ length, .sectionOutOfBounds index⟩

/-- The check of a segment with bytes in the file. -/
def Segment.check (length : Nat) (segment : Segment) : Check :=
  ⟨0 < segment.fileSize → segment.fileStop ≤ length, .invalidOffset⟩

/-- All checks of a file, in the order in which they are made. -/
def Container.checks (data : Bytes) : List Check :=
  FileHeader.checks data ++
    (SectionHeader.table data).mapIdx (SectionHeader.check data.length) ++
    (Segment.table data).map (Segment.check data.length)

/-! ## Headers -/

/-- A size that is not the expected one is reported with the part that it is of. -/
theorem checkSize_bind {α : Type} (part : Part) (found : UInt16) (f : Unit → Except Error α) :
    FileHeader.checkSize part found >>= f =
      if found.toNat = part.size then f () else .error (.malformedContainer part found) := by
  unfold FileHeader.checkSize
  split <;> rfl

/-- A check that is made only where it applies. -/
theorem ite_ite_eq_ite_imp {α : Type} (applies passes : Prop) [Decidable applies]
    [Decidable passes] (x y : α) :
    (if applies then if passes then x else y else x) = if applies → passes then x else y := by
  by_cases h : applies <;> simp [h]

/-- The file header is what is stored, behind its checks. -/
theorem FileHeader.read_eq (data : Bytes) :
    read data = guarding (checks data) (.ok (stored data)) := by
  unfold read checks
  by_cases hshort : data.length < Part.fileHeader.size
  · rw [decode_of_lt hshort, guarding_cons, if_neg (by simpa using hshort)]
    rfl
  · rw [decode_of_le (Nat.le_of_not_lt hshort), guarding_cons, if_pos (by simpa using hshort)]
    simp only [guarding_cons, decide_eq_true_eq, ite_not, ne_eq, throw_bind, checkSize_bind,
      ite_ite_eq_ite_imp, ← not_or, ← Nat.not_lt]
    rfl

/-! ## Sections -/

/-- The bytes that hold a section's contents, if it passes its check. -/
def SectionHeader.source (length : Nat) (header : SectionHeader) : Span :=
  if header.hasFileData then header.range
  else ⟨min header.offset.toNat length, min header.offset.toNat length⟩

/-- The source of a section is its span of the file, behind its check. -/
theorem sourceOf?_eq (length index : Nat) (header : SectionHeader) :
    sourceOf? length header =
      if (header.check length index).passes then some (header.source length) else none := by
  unfold sourceOf? SectionHeader.check SectionHeader.source SectionHeader.range
  cases header.hasFileData <;> simp

/-- The sources are the spans of the sections, behind their checks in order. -/
theorem sourcesFrom_eq (length index : Nat) (headers : List SectionHeader) :
    sourcesFrom length index headers =
      guarding (headers.mapIdx fun i => SectionHeader.check length (index + i))
        (.ok (headers.map (SectionHeader.source length))) := by
  induction headers generalizing index with
  | nil => rfl
  | cons header headers ih =>
    -- the checks of the other headers are numbered from the next index on
    have hnext : (fun i => SectionHeader.check length (index + (i + 1))) =
        fun i => SectionHeader.check length (index + 1 + i) := by
      funext i
      rw [Nat.add_assoc, Nat.add_comm 1 i]
    have hsource := sourceOf?_eq length index header
    rw [List.mapIdx_cons, guarding_cons, hnext]
    dsimp only [Nat.add_zero]
    cases hpass : (header.check length index).passes with
    -- the first header that fails its check decides the error
    | true =>
      rw [hpass, if_pos rfl] at hsource
      rw [sourcesFrom, hsource, if_pos rfl, ih]
      exact guarding_bind _
    | false =>
      rw [hpass, if_neg Bool.false_ne_true] at hsource
      rw [sourcesFrom, hsource, if_neg Bool.false_ne_true]
      rfl

/-! ## Segments -/

/-- A greatest value is at most what all values are. -/
theorem foldl_max_le_iff {start n : Nat} {stops : List Nat} :
    stops.foldl max start ≤ n ↔ start ≤ n ∧ ∀ stop ∈ stops, stop ≤ n := by
  induction stops generalizing start with
  | nil => simp
  | cons stop stops ih =>
    rw [List.foldl_cons, ih, Nat.max_le, List.forall_mem_cons, and_assoc]

/-- The start of a greatest value may be added last. -/
theorem foldl_max_eq (start : Nat) (stops : List Nat) :
    stops.foldl max start = max (stops.foldl max 0) start := by
  induction stops generalizing start with
  | nil => simp
  | cons stop stops ih =>
    rw [List.foldl_cons, List.foldl_cons, ih, ih (max 0 stop)]
    omega

/-- The greatest of two values and others. -/
theorem max?_cons_cons (a b : Nat) (stops : List Nat) :
    (a :: b :: stops).max? = some (max (stops.foldl max 0) (max b a)) := by
  rw [List.max?_cons', List.foldl_cons, foldl_max_eq, Nat.max_comm a b]

/-- The segments end within a length if each that is not empty does. -/
theorem coveredStop_le_iff {n : Nat} {segments : List Segment} :
    coveredStop segments ≤ n ↔ ∀ s ∈ segments, 0 < s.fileSize → s.fileStop ≤ n := by
  rw [coveredStop, foldl_max_le_iff, List.forall_mem_map]
  simp [List.mem_filter]

/-- Segments pass their checks if the bytes that they cover lie within the file. -/
theorem guarding_segments {α : Type} (length : Nat) (segments : List Segment) (x : Except Error α) :
    guarding (segments.map (Segment.check length)) x =
      if coveredStop segments ≤ length then x else .error .invalidOffset := by
  unfold guarding
  cases hfind : (segments.map (Segment.check length)).find? (!·.passes) with
  | none =>
    have hpass : ∀ s ∈ segments, 0 < s.fileSize → s.fileStop ≤ length := by
      simpa [Segment.check] using hfind
    rw [if_pos (coveredStop_le_iff.mpr hpass)]
  | some check =>
    obtain ⟨s, hs, rfl⟩ := List.mem_map.mp (List.mem_of_find?_eq_some hfind)
    have hfail : 0 < s.fileSize ∧ length < s.fileStop := by
      simpa [Segment.check] using List.find?_some hfind
    rw [if_neg fun hcovered => Nat.not_lt.mpr (coveredStop_le_iff.mp hcovered s hs hfail.1) hfail.2]
    rfl

/-! ## Files -/

namespace Container

/-- What a file is opened as, if it passes its checks. -/
def opened (data : Bytes) : Container :=
  let header := FileHeader.stored data
  let segments := Segment.table data
  let headers := SectionHeader.table data
  { data, header, segments
    sections := freshSections data header.nameSection headers
      (headers.map (SectionHeader.source data.length))
    fixedStop := UInt32.ofNat
      (max (coveredStop segments) (max header.segmentsStop Part.fileHeader.size)) }

/-- A file is opened to what is stored, behind its checks. -/
theorem ofBytes_eq {data : Bytes} (hlength : data.length < 2 ^ 32) :
    ofBytes data = guarding (checks data) (.ok (opened data)) := by
  unfold ofBytes checks
  rw [FileHeader.read_eq, guarding_bind, guarding_append, guarding_append]
  -- every check that passed is at hand, so each part of the opening can be computed
  refine guarding_congr fun hpass => ?_
  have hsize : Part.fileHeader.size ≤ data.length := by simpa using hpass _ List.mem_cons_self
  have hstops : (FileHeader.stored data).segmentsStop ≤ data.length ∧
      (FileHeader.stored data).sectionsStop ≤ data.length := by
    simpa using hpass _ (List.mem_of_getElem? (show (FileHeader.checks data)[7]? = some _ from rfl))
  have hsegments : readSegments data (FileHeader.stored data) = .ok (Segment.table data) :=
    readTable_of_le (fun _ => Segment.decode_of_le) hstops.1
  have hsections : readSectionHeaders data (FileHeader.stored data) =
      .ok (SectionHeader.table data) :=
    readTable_of_le (fun _ => SectionHeader.decode_of_le) hstops.2
  have hsources : sourcesFrom data.length 0 (SectionHeader.table data) =
      guarding ((SectionHeader.table data).mapIdx (SectionHeader.check data.length))
        (.ok ((SectionHeader.table data).map (SectionHeader.source data.length))) := by
    rw [sourcesFrom_eq]
    simp only [Nat.zero_add]
  show readSegments data (FileHeader.stored data) >>= _ = _
  rw [hsegments, ok_bind, hsections, ok_bind, hsources, guarding_bind, guarding_segments, ok_bind]
  refine congrArg (guarding _) ?_
  dsimp only
  -- the last check: what the segments cover lies in the file
  by_cases hcovered : coveredStop (Segment.table data) ≤ data.length
  · have hstop : max (coveredStop (Segment.table data))
        (max (FileHeader.stored data).segmentsStop Part.fileHeader.size) ≤ data.length := by
      omega
    have hword : word32? (max (coveredStop (Segment.table data))
        (max (FileHeader.stored data).segmentsStop Part.fileHeader.size)) =
          some (opened data).fixedStop := by
      rw [word32?_eq_some_iff, opened, UInt32.toNat_ofNat', Nat.mod_eq_of_lt (by omega)]
    rw [if_neg (Nat.not_lt.mpr hstop), if_pos hcovered, hword]
    rfl
  · rw [if_pos (by omega), if_neg hcovered]
    rfl

/-- What the container of a file shows of it. -/
structure Shows (container : Container) (data : Bytes) : Prop where
  data_eq : container.data = data
  header_eq : container.header = FileHeader.stored data
  segments_eq : container.segments = Segment.table data
  headers_eq : container.sections.map Section.header = SectionHeader.table data
  /-- The fixed part ends where the header, the table of segments or the last segment ends. -/
  fixedStop_eq :
    (Part.fileHeader.size :: container.header.segmentsStop ::
      (container.segments.filter fun s => 0 < s.fileSize).map Segment.fileStop).max? =
        some container.fixedStop.toNat
  contents_eq : ∀ i header, (SectionHeader.table data)[i]? = some header →
    container.contents? i = .ok (if header.hasFileData then header.range.slice data else [])
  missing : ∀ i, (SectionHeader.table data).length ≤ i →
    container.contents? i = .error (.noSuchSection i)

/-- The sections of an opened file have the headers of the table. -/
theorem map_header_opened (data : Bytes) :
    (opened data).sections.map Section.header = SectionHeader.table data := by
  simp only [opened, freshSections, List.zipWith_map_right, List.zipWith_self, List.map_map]
  exact List.map_id _

/-- An opened file shows what is stored. -/
theorem shows_opened {data : Bytes} (h : ofBytes data = .ok (opened data)) :
    (opened data).Shows data := by
  have hfresh := fresh_of_ofBytes h
  have hstop : (opened data).fixedStop.toNat = max (coveredStop (opened data).segments)
      (max (opened data).header.segmentsStop Part.fileHeader.size) := by
    obtain ⟨_, _, _, _, _, -, -, -, -, hstop, -, heq⟩ := ofBytes_eq_ok_iff.mp h
    rw [heq]
    exact hstop
  -- header, segments and sections are those stored; what is left are the end of the fixed part and
  -- the contents
  refine ⟨rfl, rfl, rfl, map_header_opened data, ?_, ?_, ?_⟩
  · rw [max?_cons_cons, hstop]
    rfl
  · intro i header hheader
    rw [← map_header_opened, List.getElem?_map] at hheader
    obtain ⟨s, hs, rfl⟩ := Option.map_eq_some_iff.mp hheader
    have hmem := List.mem_of_getElem? hs
    refine contents?_eq_ok_iff.mpr ⟨s, hs, ?_⟩
    split
    · rename_i hdata
      rw [contents, (hfresh.source_eq hmem hdata).1]
      rfl
    · rename_i hdata
      exact (hfresh.contents_eq_nil hmem (by simpa using hdata)).symm
  · intro i hi
    rw [← map_header_opened, List.length_map] at hi
    rw [contents?, section?, List.getElem?_eq_none hi]
    rfl

/-- A file of less than 4 GiB is opened exactly if it passes all checks, and else the first check that
fails is reported. What is opened shows what is in the file. -/
theorem ofBytes_reports_first_failure {data : Bytes} (hlength : data.length < 2 ^ 32) :
    ((∃ container, ofBytes data = .ok container) ↔
        ∀ check ∈ checks data, check.passes = true) ∧
      (∀ check, (checks data).find? (!·.passes) = some check →
        ofBytes data = .error check.error) ∧
      ∀ container, ofBytes data = .ok container → container.Shows data := by
  have hopen := ofBytes_eq hlength
  unfold guarding at hopen
  have hpasses : (checks data).find? (!·.passes) = none ↔
      ∀ check ∈ checks data, check.passes = true := by
    simp
  rw [← hpasses]
  -- the first check that fails is the error; without one the container is opened
  cases hfind : (checks data).find? (!·.passes) with
  | none =>
    rw [hfind] at hopen
    refine ⟨⟨fun _ => rfl, fun _ => ⟨_, hopen⟩⟩, nofun, fun container hcontainer => ?_⟩
    obtain rfl := Except.ok.inj (hopen.symm.trans hcontainer)
    exact shows_opened hopen
  | some check =>
    rw [hfind] at hopen
    rw [hopen]
    exact ⟨⟨nofun, nofun⟩, fun _ hcheck => Option.some.inj hcheck ▸ rfl, nofun⟩

/-- With 255 bytes the section with number 1 of `mixedFile` reaches past the end of the file. -/
theorem ofBytes_reports_first_failure_mixedFile :
    mixedFile.length < 2 ^ 32 ∧
      (∃ container, ofBytes mixedFile = .ok container ∧ container.Shows mixedFile) ∧
      (mixedFile.set 128 255).length < 2 ^ 32 ∧
      ofBytes (mixedFile.set 128 255) = .error (.sectionOutOfBounds 1) := by
  have hlength : mixedFile.length < 2 ^ 32 := by decide +kernel
  have hlength' : (mixedFile.set 128 255).length < 2 ^ 32 := by rwa [List.length_set]
  obtain ⟨hopens, -, hshows⟩ := ofBytes_reports_first_failure hlength
  obtain ⟨-, hreports, -⟩ := ofBytes_reports_first_failure hlength'
  have hpass : ∀ check ∈ checks mixedFile, check.passes = true := by decide +kernel
  have hfail : (checks (mixedFile.set 128 255)).find? (!·.passes) =
      some ⟨false, .sectionOutOfBounds 1⟩ := by decide +kernel
  obtain ⟨container, hcontainer⟩ := hopens.mpr hpass
  exact ⟨hlength, ⟨container, hcontainer, hshows container hcontainer⟩, hlength', hreports _ hfail⟩

end Container

end DwarfLines.Elf
