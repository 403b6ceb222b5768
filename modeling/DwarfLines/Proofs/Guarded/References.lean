import DwarfLines.Proofs.Guarded.Section
import DwarfLines.Proofs.Info.References

/-!
# Iterating over references within bounds

A unit is read from where the one before it ended, at offsets that its own length and the lengths in
its root entry give. The iteration is at most as long as the section, since each unit takes some of
it.
-/

namespace DwarfLines

open Guarded

/-! ## Scans that track a reading -/

/-- Reading from a cursor moves it by what was read. -/
theorem outcome_read {α : Type} (d : Decoder α) (c : Cursor) : outcome (Cursor.read d) c =
    orTruncated (d c.rest) >>= fun (a, rest) =>
      .ok (a, ⟨c.position + (c.rest.length - rest.length), rest⟩) := by
  unfold outcome Cursor.read
  cases d c.rest <;> rfl

namespace Scan

variable {α β : Type}

/-- Whether a scan stops at no fault, does what a reading does, and keeps to its cursor. -/
def Tracks (scan : Scan α) (reading : Reading α) : Prop := ∀ r : Reader, r.Valid →
  Agrees (fun p q => p.1 = q.1 ∧ r.Leads p.2 q.2.rest ∧ p.2.cursor = q.2) (scan r)
    (outcome reading r.cursor)

/-- What is scanned as it is decoded tracks a cursor. -/
theorem Decodes.tracks {scan : Scan α} {d : Decoder α} (h : scan.Decodes d)
    (hlength : ∀ bytes a rest, d bytes = some (a, rest) → rest.length ≤ bytes.length) :
    scan.Tracks (Cursor.read d) := by
  intro r hr
  rw [outcome_read, ← bind_pure (scan r)]
  refine (h r hr).bind ?_
  rintro ⟨_, r'⟩ ⟨a, rest⟩ hq ⟨rfl, hleads⟩
  have hdecodes := Outcome.orTruncated_eq_ok_iff.mp hq
  exact .pure ⟨rfl, hleads, hleads.cursor_eq hr (hlength _ _ _ hdecodes)⟩

namespace Tracks

variable {scan : Scan α} {reading : Reading α}

/-- A value that takes no bytes is tracked. -/
theorem pure (a : α) : Tracks (Pure.pure a) (Pure.pure a) :=
  fun _ hr => .pure ⟨rfl, hr.leads, rfl⟩

/-- Both may fail alike. -/
theorem throw (e : DebugError) : Tracks (throw e : Scan α) (throw e) := fun _ _ => .throw e

/-- A failure is the end of both. -/
theorem throw_bind (e : DebugError) {f : α → Scan β} {g : α → Reading β} :
    Tracks (MonadExcept.throw e >>= f) (MonadExcept.throw e >>= g) := fun _ _ => .throw e

/-- Two parts that are tracked are tracked one behind the other. -/
theorem bind (h : scan.Tracks reading) {f : α → Scan β} {g : α → Reading β}
    (hf : ∀ a, (f a).Tracks (g a)) : (scan >>= f).Tracks (reading >>= g) := by
  intro r hr
  rw [outcome_bind]
  refine (h r hr).bind ?_
  rintro ⟨a, r'⟩ ⟨_, _⟩ - ⟨rfl, hleads, rfl⟩
  exact (hf a r' hleads.valid).mono fun _ _ _ h => ⟨h.1, hleads.trans h.2.1, h.2.2⟩

/-- Both may branch alike. -/
theorem ite {c : Prop} [Decidable c] {scan' : Scan α} {reading' : Reading α}
    (h : c → scan.Tracks reading) (h' : ¬ c → scan'.Tracks reading') :
    (if c then scan else scan').Tracks (if c then reading else reading') := by
  split
  · exact h ‹_›
  · exact h' ‹_›

/-- Both may ask where they are. -/
theorem position {f : Nat → Scan α} {g : Nat → Reading α} (h : ∀ n, (f n).Tracks (g n)) :
    Tracks (get >>= fun r => f r.position) (get >>= fun c => g c.position) :=
  fun r hr => h r.position r hr

end Tracks

/-! ## Abbreviation tables -/

/-- Reads the name and form of an attribute; two zeros end the list. -/
def attributeSpec : Scan (Option AttributeSpec) := do
  let name ← unsigned
  let form ← unsigned
  if name = 0 ∧ form = 0 then return none
  return some ⟨name, .ofCode form⟩

/-- Reads a declaration; a zero code ends the table. -/
def abbreviation : Scan (Option Abbreviation) := do
  let code ← unsigned
  if code = 0 then return none
  let tag ← unsigned
  let children ← byte
  let attributes ← table attributeSpec
  return some ⟨code, tag, children != 0, attributes⟩

/-- An attribute is scanned as it is decoded. -/
theorem decodes_attributeSpec : attributeSpec.Decodes AttributeSpec.decodeItem :=
  decodes_unsigned.bind fun _ => decodes_unsigned.bind fun _ =>
    .ite (fun _ => .pure _) fun _ => .pure _

/-- A declaration is scanned as it is decoded. -/
theorem decodes_abbreviation : abbreviation.Decodes Abbreviation.decodeItem := by
  refine decodes_unsigned.bind fun code => .ite (fun _ => .pure _) fun _ => ?_
  exact decodes_unsigned.bind fun tag => decodes_byte.bind fun children =>
    (decodes_attributeSpec.table AttributeSpec.decodeItem_shortens).bind fun _ => .pure _

/-! ## Values -/

/-- Follows indirect forms to the real one. -/
def resolve (form : Form) : Scan Form := fun r =>
  loop (fun (form, r) => do
    if form ≠ .indirect then return .inr (form, r)
    let (code, r) ← unsigned r
    return .inl (.ofCode code, r)) (r.remaining + 1) (form, r)

/-- The number of bytes of a value that are left behind what says how many there are. -/
def valueLength (layout : Form.Layout) : Form → Scan Nat
  | .flagPresent => return 0
  | .data1 | .ref1 | .flag => return 1
  | .data2 | .ref2 => return 2
  | .data4 | .ref4 | .strp | .secOffset => return 4
  | .data8 | .ref8 | .refSig8 => return 8
  | .addr => return layout.addressSize.toNat
  | .refAddr => return if layout.version = 2 then layout.addressSize.toNat else 4
  | .sdata => do
    let _ ← signed
    return 0
  | .udata | .refUdata => do
    let _ ← unsigned
    return 0
  | .string => do
    let _ ← cstring
    return 0
  | .block1 => do return (← byte).toNat
  | .block2 => do return (← word16).toNat
  | .block4 => do return (← word32).toNat
  | .block | .exprloc => unsigned
  | .indirect | .unknown _ => throw .truncated

/-- Passes over bytes. -/
def pass (count : Nat) : Scan Unit := do
  let _ ← bytes count
  return ()

/-- Passes over the value of an attribute. -/
def skipValue (layout : Form.Layout) (form : Form) : Scan Unit := do
  match ← resolve form with
  | .unknown code => throw (.unknownForm code)
  | form => pass (← valueLength layout form)

/-- Finds the first reference to a line program among attributes. -/
def rootEntryOf (layout : Form.Layout) : List AttributeSpec → Scan RootEntry
  | [] => return .withoutStatementList
  | spec :: specs =>
    if spec.name = statementListName then do
      let form ← resolve spec.form
      unless form = .data4 ∨ form = .secOffset do throw (.invalidHeader .statementListForm)
      let valueOffset := (← get).position
      return .statementList valueOffset (← word32)
    else do
      skipValue layout spec.form
      rootEntryOf layout specs

/-- An indirect form is resolved by the code that is stored before the value. -/
theorem resolve_eq (form : Form) (bytes : Bytes) : form.resolve bytes =
    if form = .indirect then
      (Leb128.unsigned bytes).bind fun (code, rest) => (Form.ofCode code).resolve rest
    else some (form, bytes) := by
  rw [Form.resolve]
  split
  · split <;> rename_i hcode <;> rw [hcode] <;> rfl
  · rfl

/-- Forms are resolved as they are decoded, within as many rounds as there are bytes. -/
theorem decodes_resolve (form : Form) : (resolve form).Decodes form.resolve := by
  intro r hr
  -- the loop ends because each indirect form takes at least one byte of the reader
  refine loop_induction (P := fun (s : Form × Reader) x => s.2.Valid →
      Agrees (fun (p : Form × Reader) q => p.1 = q.1 ∧ s.2.Leads p.2 q.2) x
        (orTruncated (s.1.resolve s.2.rest)))
    (fun s => s.2.remaining) (fun (form, r) next ih hr => ?_) (form, r) (Nat.lt_succ_self _) hr
  dsimp only at ih hr ⊢
  rw [resolve_eq]
  by_cases hform : form = .indirect
  · simp only [hform, ne_eq, not_true_eq_false, if_false, if_true, bind_assoc, pure_bind]
    rw [orTruncated_bind]
    refine decodes_unsigned.agrees_bind hr fun code r' hr' hdata hstop hcode => ?_
    -- the invariant of the loop: fewer bytes are left after the code of the next form
    have hshorter := Leb128.length_lt_of_unsigned hcode
    rw [hr.length_rest, hr'.length_rest] at hshorter
    have hleads : r.Leads r' r'.rest := ⟨hr', hdata, hstop, rfl⟩
    exact (ih (.ofCode code, r') hshorter hr').mono fun _ _ _ h => ⟨h.1, hleads.trans h.2⟩
  · simp only [ne_eq, hform, not_false_eq_true, if_true, if_false, pure_bind]
    exact .pure ⟨rfl, hr.leads⟩

/-- Passing over bytes is scanned as it is decoded. -/
theorem decodes_pass (count : Nat) : (pass count).Decodes (Form.value.skip count) :=
  (decodes_bytes count).map _

theorem decodes_pass_zero : (pass 0).Decodes (Pure.pure ()) := decodes_pass 0

/-- Bytes are passed over whose number is read in front of them. -/
theorem Decodes.pass {scan : Scan α} {d : Decoder α} {skip : α → Decoder Unit} (length : α → Nat)
    (h : scan.Decodes d) (hskip : ∀ a, (Scan.pass (length a)).Decodes (skip a)) :
    ((do return length (← scan)) >>= Scan.pass).Decodes (d >>= skip) := by
  rw [bind_assoc]
  refine h.bind fun a => ?_
  rw [pure_bind]
  exact hskip a

/-- The value of a form is passed over as it is decoded. -/
theorem decodes_value (layout : Form.Layout) (form : Form) :
    Decodes (valueLength layout form >>= pass) (form.value layout) := by
  -- every form is a fixed number of bytes, a number, or a length and as many bytes
  cases form with
  | flagPresent => exact decodes_pass_zero
  | sdata => exact decodes_signed.pass (fun _ => 0) fun _ => decodes_pass_zero
  | udata | refUdata => exact decodes_unsigned.pass (fun _ => 0) fun _ => decodes_pass_zero
  | string => exact decodes_cstring.pass (fun _ => 0) fun _ => decodes_pass_zero
  | block1 => exact decodes_byte.pass UInt8.toNat fun _ => decodes_pass _
  | block2 => exact decodes_word16.pass UInt16.toNat fun _ => decodes_pass _
  | block4 => exact decodes_word32.pass UInt32.toNat fun _ => decodes_pass _
  | block | exprloc => exact decodes_unsigned.bind decodes_pass
  | indirect | unknown => exact fun _ _ => .throw _
  | _ => exact decodes_pass _

/-- Skipping a value, which may fail for its form, is tracked. -/
theorem tracks_skipValue (layout : Form.Layout) (form : Form) :
    (skipValue layout form).Tracks (DwarfLines.skipValue layout form) := by
  refine ((decodes_resolve form).tracks ?_).bind fun form => ?_
  · exact fun _ _ _ h => ((Form.local_resolve form).suffix h).length_le
  · cases form with
    | unknown code => exact .throw _
    | _ =>
      exact (decodes_value layout _).tracks fun _ _ _ h =>
        ((Form.local_value layout _).suffix h).length_le

/-- The attributes of a root entry are gone through alike. -/
theorem tracks_rootEntryOf (layout : Form.Layout) (specs : List AttributeSpec) :
    (rootEntryOf layout specs).Tracks (RootEntry.ofAttributes layout specs) := by
  -- skipping an attribute leaves the reader on the same byte as the cursor
  induction specs with
  | nil => exact .pure _
  | cons spec specs ih =>
    unfold rootEntryOf RootEntry.ofAttributes
    refine .ite (fun _ => ?_) fun _ => (tracks_skipValue layout spec.form).bind fun _ => ih
    have hresolve := (decodes_resolve spec.form).tracks fun _ _ _ h =>
      ((Form.local_resolve spec.form).suffix h).length_le
    refine hresolve.bind fun form => .ite (fun _ => ?_) fun _ => .throw _
    refine .position fun valueOffset => Tracks.bind ?_ fun lineOffset => .pure _
    exact decodes_word32.tracks fun _ _ _ h => (Decoder.local_word32.suffix h).length_le

/-! ## Units -/

/-- Reads the header of a compile unit. -/
def unitHeader : Scan CompileUnitHeader := do
  let unitLength ← word32
  if wideFormatLength ≤ unitLength then throw .wideFormat
  let version ← word16
  unless supportedVersion version do throw (.unsupportedVersion version)
  let abbreviationOffset ← word32
  let addressSize ← byte
  return { unitLength, version, abbreviationOffset, addressSize }

/-- A word of 32 bits is tracked. -/
theorem tracks_word32 : word32.Tracks (Cursor.read Decoder.word32) :=
  decodes_word32.tracks fun _ _ _ h => (Decoder.local_word32.suffix h).length_le

/-- The header of a compile unit is read alike. -/
theorem tracks_unitHeader : unitHeader.Tracks CompileUnitHeader.read := by
  refine tracks_word32.bind fun unitLength => .ite (fun _ => .throw_bind _) fun _ => ?_
  refine Tracks.bind ?_ fun version => .ite (fun _ => ?_) fun _ => .throw_bind _
  · exact decodes_word16.tracks fun _ _ _ h => (Decoder.local_word16.suffix h).length_le
  · refine tracks_word32.bind fun abbreviationOffset => Tracks.bind ?_ fun addressSize => .pure _
    exact decodes_byte.tracks fun _ _ _ h => (Decoder.local_byte.suffix h).length_le

end Scan

/-- Reads the table that starts at `offset`. -/
def AbbreviationTable.readWithin (data : Bytes) (offset : Nat) :
    Guarded DebugError AbbreviationTable := do
  let r ← Reader.openAt data offset
  let (declarations, _) ← Scan.table Scan.abbreviation r
  return ofList declarations

/-- A table of abbreviations is read within bounds. -/
theorem AbbreviationTable.agrees_readWithin {data : Bytes} (hdata : data.length < 2 ^ 64)
    (offset : Nat) : Agrees Eq (readWithin data offset) (orTruncated (read? data offset)) := by
  -- the source opens a reader where the program drops bytes; past the end both are truncated
  have hread : orTruncated (read? data offset) =
      orTruncated (Cursor.at? data offset) >>= fun c =>
        orTruncated
            (Decoder.table Abbreviation.decodeItem Abbreviation.decodeItem_shortens c.rest) >>=
          fun p => .ok (ofList p.1) := by
    unfold read? Cursor.at?
    by_cases hoffset : offset ≤ data.length
    · have hguard : guard (offset ≤ data.length) = some () := if_pos hoffset
      rw [hguard, if_pos hoffset]
      show orTruncated ((Decoder.table _ _ _).bind _) = _
      rw [Scan.orTruncated_bind]
      rfl
    · have hguard : guard (offset ≤ data.length) = none := if_neg hoffset
      rw [hguard, if_neg hoffset]
      rfl
  rw [hread]
  refine (Reader.agrees_openAt hdata offset).bind ?_
  rintro r _ - ⟨hr, -, rfl⟩
  have htable := Scan.decodes_abbreviation.table Abbreviation.decodeItem_shortens
  exact htable.agrees_bind hr fun _ _ _ _ _ _ => .pure rfl

namespace KnownTables

/-- The table at an offset, which is read unless it is known. -/
def tableWithin (abbreviations : Bytes) (offset : UInt32) (known : KnownTables) :
    Guarded DebugError (AbbreviationTable × KnownTables) := do
  match known.lookup offset with
  | some table => return (table, known)
  | none => do
    let table ← AbbreviationTable.readWithin abbreviations offset.toNat
    return (table, (offset, table) :: known)

/-- Reads the root entry of a unit. -/
def rootEntryWithin (abbreviations : Bytes) (header : CompileUnitHeader) (unit : Reader)
    (known : KnownTables) : Guarded DebugError (RootEntry × KnownTables) := do
  let (_, r) ← Scan.bytes CompileUnitHeader.size unit
  let (code, r) ← Scan.unsigned r
  if code = 0 then return (.absent, known)
  let (table, known) ← tableWithin abbreviations header.abbreviationOffset known
  match table.get? code with
  | none => throw (.invalidHeader .unknownAbbreviation)
  | some abbreviation => do
    let (root, _) ← Scan.rootEntryOf header.layout abbreviation.attributes r
    return (root, known)

variable {abbreviations : Bytes}

/-- A table that was read before is looked up, another is read within bounds. -/
theorem agrees_tableWithin (habbreviations : abbreviations.length < 2 ^ 64) (offset : UInt32)
    (known : KnownTables) :
    Agrees Eq (tableWithin abbreviations offset known)
      (outcome (table abbreviations offset) known) := by
  -- a table seen before is reused, any other is read and remembered
  have htable : outcome (table abbreviations offset) known = match known.lookup offset with
      | some table => .ok (table, known)
      | none => orTruncated (AbbreviationTable.read? abbreviations offset.toNat) >>= fun table =>
        .ok (table, (offset, table) :: known) := by
    unfold outcome
    have hget : (EStateM.get : Search KnownTables) known = .ok known known := rfl
    simp only [table, Bind.bind, EStateM.bind, get, getThe, MonadStateOf.get, hget]
    cases known.lookup offset with
    | some table => rfl
    | none => cases AbbreviationTable.read? abbreviations offset.toNat <;> rfl
  rw [htable, tableWithin]
  cases known.lookup offset with
  | some table => exact .pure rfl
  | none =>
    refine (AbbreviationTable.agrees_readWithin habbreviations offset.toNat).bind ?_
    rintro table _ - rfl
    exact .pure rfl

/-- What is read at a cursor goes on where the cursor is left. -/
theorem outcome_readAt_bind {α β : Type} (reading : Reading α) (f : α × Cursor → Search β)
    (c : Cursor) (known : KnownTables) : outcome (readAt reading c >>= f) known =
      outcome reading c >>= fun p => outcome (f p) known := by
  unfold outcome readAt
  simp only [Bind.bind, EStateM.bind]
  cases reading c <;> rfl

/-- The root entry of a unit is read within bounds. -/
theorem agrees_rootEntryWithin (habbreviations : abbreviations.length < 2 ^ 64)
    (header : CompileUnitHeader) {unit : Reader} (hunit : unit.Valid) (known : KnownTables) :
    Agrees Eq (rootEntryWithin abbreviations header unit known)
      (outcome (rootEntry abbreviations header unit.cursor) known) := by
  unfold rootEntryWithin rootEntry
  rw [outcome_readAt_bind]
  -- neither the header nor the code is read past the end of the unit
  have hskip := (Scan.decodes_bytes CompileUnitHeader.size).tracks fun _ _ _ h =>
    ((Decoder.local_take _).suffix h).length_le
  have hcode :=
    Scan.decodes_unsigned.tracks fun _ _ _ h => (Leb128.local_unsigned.suffix h).length_le
  refine (hskip unit hunit).bind ?_
  rintro ⟨_, r⟩ ⟨_, _⟩ - ⟨-, hr, rfl⟩
  dsimp only
  rw [outcome_readAt_bind]
  refine (hcode r hr.valid).bind ?_
  rintro ⟨code, r'⟩ ⟨_, _⟩ - ⟨rfl, hr', rfl⟩
  dsimp only
  by_cases hzero : code = 0
  · rw [if_pos hzero, if_pos hzero]
    exact .pure rfl
  -- the table may be read here, so the known tables change from here on
  rw [if_neg hzero, if_neg hzero, outcome_bind]
  refine (agrees_tableWithin habbreviations header.abbreviationOffset known).bind ?_
  rintro ⟨table, known'⟩ _ - rfl
  dsimp only
  cases table.get? code with
  | none => exact .throw _
  | some abbreviation =>
    dsimp only
    rw [outcome_readAt_bind]
    refine (Scan.tracks_rootEntryOf header.layout abbreviation.attributes r' hr'.valid).bind ?_
    rintro ⟨root, _⟩ ⟨_, _⟩ - ⟨rfl, -, -⟩
    exact .pure rfl

end KnownTables

/-- The cursor of a reader ends where the reader does. -/
theorem Reader.Valid.stop_cursor {r : Reader} (h : r.Valid) : r.cursor.stop = r.stop := by
  have hposition := h.position_le
  show r.position + r.rest.length = r.stop
  rw [h.length_rest, Reader.remaining]
  omega

/-- Cursors and readers are bounded alike. -/
theorem Reader.Valid.agrees_bounded? {r : Reader} (h : r.Valid) (length : Nat) :
    Agrees (fun r' c => r'.Valid ∧ r'.cursor = c) (r.bounded length)
      (orTruncated (r.cursor.bounded? length)) := by
  rw [h.bounded_eq, Cursor.bounded?]
  by_cases hlength : length ≤ r.rest.length
  · obtain ⟨hvalid, hrest⟩ := h.narrow hlength
    rw [if_pos hlength, if_pos (show length ≤ r.cursor.rest.length from hlength)]
    exact .pure ⟨hvalid, congrArg (Cursor.mk r.position) hrest⟩
  · rw [if_neg hlength, if_neg (show ¬ length ≤ r.cursor.rest.length from hlength)]
    exact .throw _

namespace ReferenceIterator

/-- Reads the header of the next unit and finds its bytes. -/
def locateWithin (it : ReferenceIterator) : Guarded DebugError (CompileUnitHeader × Reader) := do
  let r ← Reader.openAt it.info it.offset
  let (header, _) ← Scan.unitHeader r
  let length ← add 64 4 header.unitLength.toNat
  let unit ← (← Reader.openAt it.info it.offset).bounded length
  return (header, unit)

/-- Reads the next unit. -/
def nextUnitWithin (it : ReferenceIterator) :
    Guarded DebugError (UnitVisit × ReferenceIterator) := do
  let (header, unit) ← locateWithin it
  let (root, known) ← KnownTables.rootEntryWithin it.abbreviations header unit it.known
  return (⟨it.offset, header, root⟩, { it with offset := unit.stop, known })

/-- Yields the next reference, passing over units that have none. -/
def nextWithin (it : ReferenceIterator) :
    Guarded DebugError (Option (StatementList × ReferenceIterator)) :=
  loop (fun it => do
    if it.info.length ≤ it.offset then return .inr none
    let (visit, it) ← nextUnitWithin it
    match visit.statementList? with
    | some reference => return .inr (some (reference, it))
    | none => return .inl it) (it.info.length - it.offset + 1) it

/-- Does something for each reference. -/
def forEach {σ : Type} (f : σ → StatementList → Guarded Failure σ) (it : ReferenceIterator)
    (s : σ) : Guarded Failure σ :=
  loop (fun (it, s) => do
    match ← during .walkingUnits (withCause .debug (nextWithin it)) with
    | none => return .inr s
    | some (reference, it) => return .inl (it, ← f s reference)) (it.info.length + 1) (it, s)

variable {it : ReferenceIterator}

/-- The next unit is located within bounds. -/
theorem agrees_locateWithin (hinfo : it.info.length < 2 ^ 64) :
    Agrees (fun p q => p.1 = q.1 ∧ p.2.Valid ∧ p.2.cursor = q.2) (locateWithin it) it.locate := by
  have hopen := Reader.agrees_openAt hinfo it.offset
  unfold locateWithin locate
  -- both sides fail where the offset lies past the section
  cases hat : Cursor.at? it.info it.offset with
  | none =>
    rw [hat] at hopen
    rw [hopen.eq_throw]
    exact .throw _
  | some c =>
    rw [hat] at hopen
    obtain ⟨r, hopen, hr, -, rfl⟩ := hopen
    have hvalue : CompileUnitHeader.read.value r.cursor =
        outcome CompileUnitHeader.read r.cursor >>= fun p => .ok p.1 := by
      unfold Reading.value outcome
      cases CompileUnitHeader.read r.cursor <;> rfl
    simp only [hopen, pure_bind]
    show Agrees _ _ (CompileUnitHeader.read.value r.cursor >>= fun header =>
      orTruncated (r.cursor.bounded? header.totalSize) >>= fun unit => .ok (header, unit))
    rw [hvalue, bind_assoc]
    refine (Scan.tracks_unitHeader r hr).bind ?_
    rintro ⟨header, _⟩ ⟨_, _⟩ - ⟨rfl, -, -⟩
    have hlength := header.unitLength.toNat_lt
    -- the length of a unit is below 2 ^ 32, so adding its four bytes does not overflow
    show Agrees _ (add 64 4 header.unitLength.toNat >>= fun length =>
        r.bounded length >>= fun unit => pure (header, unit))
      (orTruncated (r.cursor.bounded? header.totalSize) >>= fun unit => .ok (header, unit))
    rw [add_eq (by omega), pure_bind]
    exact (hr.agrees_bounded? _).bind fun unit c _ h => .pure ⟨rfl, h⟩

/-- The next unit is visited within bounds. -/
theorem agrees_nextUnitWithin (hinfo : it.info.length < 2 ^ 64)
    (habbreviations : it.abbreviations.length < 2 ^ 64) :
    Agrees (fun p visit => p = (visit, it.nextUnit.2)) (nextUnitWithin it) it.nextUnit.1 := by
  have hlocate := agrees_locateWithin hinfo
  unfold nextUnitWithin nextUnit
  -- an error of the header is found before anything else of the unit is read
  cases hlocated : it.locate with
  | error e =>
    rw [hlocated] at hlocate
    rw [hlocate.eq_throw]
    exact .throw _
  | ok found =>
    rw [hlocated] at hlocate
    obtain ⟨⟨header, r⟩, hlocate, hheader, hr, hcursor⟩ := hlocate
    obtain rfl : found = (header, r.cursor) := Prod.ext hheader.symm hcursor.symm
    have hroot := KnownTables.agrees_rootEntryWithin habbreviations header hr it.known
    rw [hlocate, pure_bind]
    dsimp only at hroot ⊢
    unfold outcome at hroot
    -- the iterator's failure state is not compared: it is the same on both sides
    cases hsearch : KnownTables.rootEntry it.abbreviations header r.cursor it.known with
    | error e known =>
      rw [hsearch] at hroot
      rw [hroot.eq_throw]
      exact .throw _
    | ok root known =>
      rw [hsearch] at hroot
      rw [hroot.eq_pure, pure_bind, hr.stop_cursor]
      exact .pure rfl

/-- Visiting a unit leaves the sections as they are. -/
theorem info_nextUnit (it : ReferenceIterator) :
    it.nextUnit.2.info = it.info ∧ it.nextUnit.2.abbreviations = it.abbreviations := by
  unfold nextUnit
  split
  · exact ⟨rfl, rfl⟩
  · split <;> exact ⟨rfl, rfl⟩

/-- Whether a computation yields the first thing that is ahead, with less ahead afterwards. -/
def Yields (it : ReferenceIterator)
    (x : Guarded DebugError (Option (StatementList × ReferenceIterator))) : Prop :=
  (itemsOf it.ahead = [] ∧ x = pure none) ∨
  (∃ e, itemsOf it.ahead = [.error e] ∧ x = throw e) ∨
  ∃ reference it', itemsOf it.ahead = .ok reference :: itemsOf it'.ahead ∧ it'.Sound ∧
    it'.info = it.info ∧ it'.abbreviations = it.abbreviations ∧ it.offset < it'.offset ∧
    x = pure (some (reference, it'))

/-- Within bounds, an iterator yields what it yields, and stays sound. -/
theorem yields_nextWithin (hit : it.Sound) (hinfo : it.info.length < 2 ^ 64)
    (habbreviations : it.abbreviations.length < 2 ^ 64) : it.Yields (nextWithin it) := by
  refine loop_induction (P := fun it x => it.Sound → it.info.length < 2 ^ 64 →
      it.abbreviations.length < 2 ^ 64 → it.Yields x) (fun it => it.info.length - it.offset)
    (fun it next ih hit hinfo habbreviations => ?_) it (Nat.lt_succ_self _) hit hinfo habbreviations
  -- the induction is on the bytes left, since a unit without a reference is passed over
  beta_reduce at ih
  by_cases hend : it.info.length ≤ it.offset
  · refine .inl ⟨?_, by rw [if_pos hend, pure_bind]⟩
    rw [hit.ahead_of_isOver (.inr hend)]
    rfl
  have hover : ¬ it.IsOver := by
    rw [IsOver, hit.unfailed]
    simpa using hend
  have hnext := agrees_nextUnitWithin hinfo habbreviations
  obtain ⟨hsame, hsame'⟩ := info_nextUnit it
  rw [if_neg hend]
  obtain ⟨e, it', hunit, hahead⟩ | ⟨visit, it', hunit, hsound, hahead⟩ := hit.nextUnit_ahead hover
  · rw [hunit] at hnext
    rw [hnext.eq_throw]
    refine .inr (.inl ⟨e, ?_, rfl⟩)
    rw [hahead]
    rfl
  · have hless := remaining_lt_of_nextUnit hunit hover
    rw [hunit] at hnext hsame hsame'
    obtain ⟨_, hnext, rfl⟩ := hnext
    dsimp only at hsame hsame' hnext
    -- a unit that was read takes at least its header, so the offset grows
    have hoffset := hit.offset_le
    have hoffset' := hsound.offset_le
    rw [hsame] at hless hoffset'
    rw [hnext]
    cases hreference : visit.statementList? with
    | some reference =>
      simp only [pure_bind, hreference]
      refine .inr (.inr ⟨reference, it', ?_, hsound, hsame, hsame', by omega, rfl⟩)
      rw [hahead, itemsOf, List.filterMap_cons_some hreference]
      rfl
    -- such a unit yields no item, so what is ahead of the iterator is the same after it
    | none =>
      have hitems : itemsOf it.ahead = itemsOf it'.ahead := by
        rw [hahead, itemsOf, List.filterMap_cons_none hreference]
        rfl
      simp only [pure_bind, hreference]
      have htail := ih it' (by rw [hsame]; omega) hsound (by rwa [hsame]) (by rwa [hsame'])
      rw [Yields, hitems, ← hsame, ← hsame']
      obtain htail | htail |
        ⟨reference, it₁, hitems₁, hsound₁, hinfo₁, habbreviations₁, hlt, hx⟩ := htail
      · exact .inl htail
      · exact .inr (.inl htail)
      · exact .inr
          (.inr ⟨reference, it₁, hitems₁, hsound₁, hinfo₁, habbreviations₁, by omega, hx⟩)

/-- Doing something for what an iteration yields, without bounds. -/
def forItems {τ : Type} (g : τ → StatementList → Except Failure τ) (t : τ) :
    Except DebugError StatementList → Except Failure τ
  | .ok reference => g t reference
  | .error e => .error (.during .walkingUnits (.ofCause (.debug e)))

/-- What is done for each reference is done within bounds, if it is for one. There are no more
references than the section has bytes. -/
theorem agrees_forEach {σ τ : Type} {R : Nat → σ → τ → Prop}
    {f : σ → StatementList → Guarded Failure σ} {g : τ → StatementList → Except Failure τ}
    (hit : it.Sound) (hinfo : it.info.length < 2 ^ 64)
    (habbreviations : it.abbreviations.length < 2 ^ 64)
    (hf : ∀ n s t reference, n < it.info.length → .ok reference ∈ itemsOf it.ahead → R n s t →
      Agrees (R (n + 1)) (f s reference) (g t reference)) {s : σ} {t : τ} (hstart : R 0 s t) :
    Agrees (fun s t => ∃ n ≤ it.info.length, R n s t) (forEach f it s)
      ((itemsOf it.ahead).foldlM (forItems g) t) := by
  -- the invariant: what is left to serve was ahead at the start, and `n` references took at least
  -- `n` bytes
  refine loop_induction (P := fun (p : ReferenceIterator × σ) x => ∀ n t, p.1.Sound →
      p.1.info = it.info → p.1.abbreviations = it.abbreviations →
      (∀ item ∈ itemsOf p.1.ahead, item ∈ itemsOf it.ahead) → n ≤ p.1.offset → R n p.2 t →
      Agrees (fun s t => ∃ n ≤ it.info.length, R n s t) x
        ((itemsOf p.1.ahead).foldlM (forItems g) t))
    (fun p => it.info.length - p.1.offset)
    (fun (it', s) next ih n t hit' hsame hsame' hitems hn hR => ?_) (it, s) (by dsimp only; omega)
    0 t hit rfl rfl (fun _ h => h) (Nat.zero_le _) hstart
  dsimp only at ih hit' hsame hsame' hitems hn hR ⊢
  have hoffset := hit'.offset_le
  rw [hsame] at hoffset
  obtain ⟨hahead, hnext⟩ | ⟨e, hahead, hnext⟩ |
      ⟨reference, it₁, hahead, hit₁, hinfo₁, habbreviations₁, hlt, hnext⟩ :=
    yields_nextWithin hit' (by rwa [hsame]) (by rwa [hsame'])
  · rw [hahead, hnext]
    exact .pure ⟨n, by omega, hR⟩
  · rw [hahead, hnext]
    exact .throw _
  · have hoffset₁ := hit₁.offset_le
    rw [hinfo₁, hsame] at hoffset₁
    rw [hahead, List.forall_mem_cons] at hitems
    have hstep := hf n s t reference (by omega) hitems.1 hR
    rw [hahead, List.foldlM_cons, hnext]
    have hloop : (during .walkingUnits (withCause .debug (pure (some (reference, it₁)))) >>= fun
        | none => pure (.inr s)
        | some (reference, it) => do return .inl (it, ← f s reference) :
          Guarded Failure (ReferenceIterator × σ ⊕ σ)) =
        f s reference >>= fun s => pure (.inl (it₁, s)) := rfl
    rw [hloop, bind_assoc]
    refine hstep.bind fun s' t' _ hR' => ?_
    rw [pure_bind]
    exact ih (it₁, s') (by dsimp only; omega) (n + 1) t' hit₁ (hinfo₁.trans hsame)
      (habbreviations₁.trans hsame') hitems.2 (by dsimp only; omega) hR'

end ReferenceIterator

end DwarfLines
