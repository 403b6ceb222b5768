import DwarfLines.Proofs.Info.Walk

/-!
# Iterating over references

The references of a section can be had one at a time. An iteration knows where the next unit starts,
and keeps the abbreviation tables that it has read, so that units with one table read it once. It
yields nothing more after an error.

Whatever the bytes are, an iteration yields what the walk finds, which reads every table anew. The
units that it goes over fill the section if there is no error, and each reference is stored in its
unit behind the header.
-/

namespace DwarfLines

open Outcome

/-- Abbreviation tables that were read, under the offsets at which they start. -/
abbrev KnownTables := List (UInt32 × AbbreviationTable)

namespace KnownTables

variable {α β : Type}

/-- A computation that knows tables. One that fails keeps the tables that it has read. -/
abbrev Search := EStateM DebugError KnownTables

/-- Reads at a cursor, and says where the cursor went. -/
def readAt (reading : Reading α) (c : Cursor) : Search (α × Cursor) :=
  match reading c with
  | .ok a c => return (a, c)
  | .error e _ => throw e

/-- The table at an offset, which is read unless it is known. -/
def table (abbreviations : Bytes) (offset : UInt32) : Search AbbreviationTable := do
  match (← get).lookup offset with
  | some table => return table
  | none =>
    match AbbreviationTable.read? abbreviations offset.toNat with
    | none => throw .truncated
    | some table =>
      modify fun known => (offset, table) :: known
      return table

/-- Reads the root entry of a unit. A table is looked for only if there is an entry. -/
def rootEntry (abbreviations : Bytes) (header : CompileUnitHeader) (unit : Cursor) :
    Search RootEntry := do
  let (_, c) ← readAt (Cursor.read (Decoder.take CompileUnitHeader.size)) unit
  let (code, c) ← readAt (Cursor.read Leb128.unsigned) c
  if code = 0 then return .absent
  let table ← table abbreviations header.abbreviationOffset
  match table.get? code with
  | none => throw (.invalidHeader .unknownAbbreviation)
  | some abbreviation =>
    let (root, _) ← readAt (RootEntry.ofAttributes header.layout abbreviation.attributes) c
    return root

end KnownTables

/-- How far an iteration over the references of a section is. -/
structure ReferenceIterator where
  info : Bytes
  abbreviations : Bytes
  /-- Where the next unit starts. -/
  offset : Nat
  known : KnownTables
  /-- Whether an error was yielded. -/
  failed : Bool

namespace ReferenceIterator

/-- The iteration before the first unit. -/
def start (info abbreviations : Bytes) : ReferenceIterator :=
  { info, abbreviations, offset := 0, known := [], failed := false }

/-- The header of the next unit, and the bytes of the unit. -/
def locate (it : ReferenceIterator) : Except DebugError (CompileUnitHeader × Cursor) := do
  let c ← orTruncated (Cursor.at? it.info it.offset)
  let header ← CompileUnitHeader.read.value c
  let unit ← orTruncated (c.bounded? header.totalSize)
  return (header, unit)

/-- Reads the next unit. Once the unit is found, the iteration has passed it, whatever its root entry
may be. -/
def nextUnit (it : ReferenceIterator) : Except DebugError UnitVisit × ReferenceIterator :=
  match it.locate with
  | .error e => (.error e, it)
  | .ok (header, unit) =>
    match KnownTables.rootEntry it.abbreviations header unit it.known with
    | .ok root known => (.ok ⟨it.offset, header, root⟩, { it with offset := unit.stop, known })
    | .error e known => (.error e, { it with offset := unit.stop, known })

/-- Whether the iteration is over. -/
def IsOver (it : ReferenceIterator) : Prop := it.failed = true ∨ it.info.length ≤ it.offset

instance (it : ReferenceIterator) : Decidable it.IsOver :=
  inferInstanceAs (Decidable (_ ∨ _))

/-- A unit that is located ends behind the place where it was looked for. -/
theorem locate_eq_ok {it : ReferenceIterator} {header : CompileUnitHeader} {unit : Cursor}
    (h : it.locate = .ok (header, unit)) : it.offset < unit.stop := by
  simp only [locate, bind_eq_ok_iff, orTruncated_eq_ok_iff, pure_eq_ok_iff] at h
  obtain ⟨c, hc, _, -, unit', hunit, hpair⟩ := h
  obtain ⟨rfl, rfl⟩ := Prod.mk.inj hpair
  obtain ⟨hlength, rfl⟩ := Cursor.bounded?_eq_some_iff.mp hunit
  unfold Cursor.at? at hc
  split at hc
  · cases hc
    dsimp only [Cursor.stop] at hlength ⊢
    rw [List.length_take_of_le hlength, CompileUnitHeader.totalSize]
    omega
  · cases hc

/-- Each unit takes room. -/
theorem remaining_lt_of_nextUnit {it it' : ReferenceIterator} {visit : UnitVisit}
    (h : it.nextUnit = (.ok visit, it')) (hover : ¬ it.IsOver) :
    it'.info.length - it'.offset < it.info.length - it.offset := by
  unfold nextUnit at h
  split at h
  · cases h
  · rename_i header unit hlocate
    have hstop := locate_eq_ok hlocate
    split at h
    · cases h
      rw [IsOver, not_or] at hover
      dsimp only
      omega
    · cases h

/-- Yields the next reference, passing over units that have none. -/
def next (it : ReferenceIterator) : Option (Except DebugError StatementList) × ReferenceIterator :=
  if it.IsOver then (none, it)
  else
    match _h : it.nextUnit with
    | (.error e, it') => (some (.error e), { it' with failed := true })
    | (.ok visit, it') =>
      match visit.statementList? with
      | some reference => (some (.ok reference), it')
      | none => it'.next
termination_by it.info.length - it.offset
decreasing_by exact remaining_lt_of_nextUnit _h ‹_›

/-- What the iteration yields when it is asked for the `n`-th time from now on. -/
def item (it : ReferenceIterator) : Nat → Option (Except DebugError StatementList)
  | 0 => it.next.1
  | n + 1 => it.next.2.item n

/-- The units that the iteration goes over from now on. -/
def visits (it : ReferenceIterator) : List UnitVisit :=
  if it.IsOver then []
  else
    match _h : it.nextUnit with
    | (.error _, _) => []
    | (.ok visit, it') => visit :: it'.visits
termination_by it.info.length - it.offset
decreasing_by exact remaining_lt_of_nextUnit _h ‹_›

end ReferenceIterator

/-! ## Known tables -/

namespace KnownTables

variable {α β : Type} {abbreviations : Bytes}

/-- Whether the tables are those at their offsets. -/
def Sound (abbreviations : Bytes) (known : KnownTables) : Prop :=
  ∀ offset table, known.lookup offset = some table →
    AbbreviationTable.read? abbreviations offset.toNat = some table

/-- Whether a search finds what a computation without known tables does, and keeps the tables
sound. -/
def Finds (abbreviations : Bytes) (search : Search α) (found : Except DebugError α) : Prop :=
  ∀ known, Sound abbreviations known → ∃ known', Sound abbreviations known' ∧
    search known = match found with
      | .ok a => .ok a known'
      | .error e => .error e known'

/-- A value that needs no table is found. -/
theorem Finds.pure (a : α) : Finds abbreviations (Pure.pure a) (.ok a) :=
  fun known hsound => ⟨known, hsound, rfl⟩

/-- A failure that needs no table is found. -/
theorem Finds.throw (e : DebugError) : Finds abbreviations (throw e : Search α) (.error e) :=
  fun known hsound => ⟨known, hsound, rfl⟩

/-- What fails in the first part fails. -/
theorem Finds.bind_error {search : Search α} {e : DebugError} (f : α → Search β)
    (hsearch : Finds abbreviations search (.error e)) :
    Finds abbreviations (search >>= f) (.error e) := by
  intro known hsound
  obtain ⟨known', hsound', hrun⟩ := hsearch known hsound
  refine ⟨known', hsound', ?_⟩
  simp only [Bind.bind, EStateM.bind, hrun]

/-- What is found after the first part is found. -/
theorem Finds.bind_ok {search : Search α} {a : α} {f : α → Search β} {found : Except DebugError β}
    (hsearch : Finds abbreviations search (.ok a)) (hf : Finds abbreviations (f a) found) :
    Finds abbreviations (search >>= f) found := by
  intro known hsound
  obtain ⟨known', hsound', hrun⟩ := hsearch known hsound
  obtain ⟨known'', hsound'', hrun'⟩ := hf known' hsound'
  refine ⟨known'', hsound'', ?_⟩
  simp only [Bind.bind, EStateM.bind, hrun]
  exact hrun'

/-- What follows a reading is found from where the reading ends. -/
theorem Finds.readAt_bind {reading : Reading α} {f : α × Cursor → Search β} {g : α → Reading β}
    (c : Cursor) (hf : ∀ a c', Finds abbreviations (f (a, c')) ((g a).value c')) :
    Finds abbreviations (readAt reading c >>= f) ((reading >>= g).value c) := by
  unfold readAt Reading.value
  simp only [Bind.bind, EStateM.bind]
  cases reading c with
  | error e c' => exact .throw e
  | ok a c' => exact hf a c'

/-- A known table is the one that would be read. -/
theorem finds_table (abbreviations : Bytes) (offset : UInt32) :
    Finds abbreviations (table abbreviations offset)
      (orTruncated (AbbreviationTable.read? abbreviations offset.toNat)) := by
  intro known hsound
  have hget : (EStateM.get : Search KnownTables) known = .ok known known := rfl
  simp only [table, Bind.bind, EStateM.bind, get, getThe, MonadStateOf.get, hget]
  -- a table is remembered under its offset only after it was read there
  cases hlookup : known.lookup offset with
  | some table =>
    rw [hsound offset table hlookup]
    exact ⟨known, hsound, rfl⟩
  | none =>
    cases hread : AbbreviationTable.read? abbreviations offset.toNat with
    | none => exact ⟨known, hsound, rfl⟩
    | some table =>
      refine ⟨(offset, table) :: known, fun offset' table' hlookup' => ?_, rfl⟩
      -- what is remembered is the table just read or one remembered before
      rw [List.lookup_cons] at hlookup'
      split at hlookup'
      · rename_i heq
        rw [eq_of_beq heq, hread]
        exact hlookup'
      · exact hsound offset' table' hlookup'

/-- The root entry that is found with known tables is the one that is read with the table. -/
theorem finds_rootEntry (abbreviations : Bytes) (header : CompileUnitHeader) (unit : Cursor) :
    Finds abbreviations (rootEntry abbreviations header unit)
      (Reading.value (do
        let _ ← Cursor.read (Decoder.take CompileUnitHeader.size)
        RootEntry.read abbreviations header) unit) := by
  refine .readAt_bind _ fun _ c => .readAt_bind _ fun code c => ?_
  by_cases hcode : code = 0
  · simp only [hcode, if_true]
    -- the code is read first: an entry of code zero needs no table
    exact .pure _
  · simp only [hcode, if_false]
    have htable := finds_table abbreviations header.abbreviationOffset
    cases hread : AbbreviationTable.read? abbreviations header.abbreviationOffset.toNat with
    | none =>
      rw [hread] at htable
      exact htable.bind_error _
    | some table =>
      rw [hread] at htable
      refine htable.bind_ok ?_
      dsimp only
      cases table.get? code with
      | none => exact .throw _
      | some abbreviation =>
        have hroot : Finds abbreviations
            (readAt (RootEntry.ofAttributes header.layout abbreviation.attributes) c >>= fun p =>
              pure p.1)
            ((RootEntry.ofAttributes header.layout abbreviation.attributes >>= pure).value c) :=
          .readAt_bind c fun root _ => .pure root
        rwa [bind_pure] at hroot

end KnownTables

/-! ## Iterations -/

namespace ReferenceIterator

/-- What holds of an iteration until an error is yielded. -/
structure Sound (it : ReferenceIterator) : Prop where
  unfailed : it.failed = false
  offset_le : it.offset ≤ it.info.length
  known : KnownTables.Sound it.abbreviations it.known

/-- A new iterator is sound. -/
theorem sound_start (info abbreviations : Bytes) : (start info abbreviations).Sound :=
  ⟨rfl, Nat.zero_le _, fun _ _ h => by cases h⟩

/-- The bytes that are left. -/
def rest (it : ReferenceIterator) : Bytes := it.info.drop it.offset

namespace Sound

variable {it : ReferenceIterator}

/-- A sound iterator is over when no bytes are left. -/
theorem isOver_iff (h : it.Sound) : it.IsOver ↔ it.rest = [] := by
  rw [IsOver, h.unfailed, rest, List.drop_eq_nil_iff]
  simp

/-- The next unit is read as the walk reads it. -/
theorem nextUnit_eq (h : it.Sound) :
    (∃ visit it', UnitVisit.read it.abbreviations it.offset it.rest = .ok visit ∧
      it.nextUnit = (.ok visit, it') ∧ it'.Sound ∧ it'.abbreviations = it.abbreviations ∧
      it'.offset = it.offset + visit.header.totalSize ∧
      it'.rest = it.rest.drop visit.header.totalSize) ∨
    ∃ e it', UnitVisit.read it.abbreviations it.offset it.rest = .error e ∧
      it.nextUnit = (.error e, it') := by
  have hat : Cursor.at? it.info it.offset = some ⟨it.offset, it.rest⟩ := if_pos h.offset_le
  -- both read the same header and cut out the same unit; only the table is found differently
  unfold UnitVisit.read nextUnit locate
  rw [hat]
  simp only [orTruncated, bind, Except.bind]
  cases CompileUnitHeader.read.value ⟨it.offset, it.rest⟩ with
  | error e => exact .inr ⟨e, it, rfl, rfl⟩
  | ok header =>
    dsimp only
    cases hunit : Cursor.bounded? ⟨it.offset, it.rest⟩ header.totalSize with
    | none => exact .inr ⟨_, it, rfl, rfl⟩
    | some unit =>
      -- the unit is cut out before its root entry is read, so the entry cannot leave it
      obtain ⟨hlength, rfl⟩ := Cursor.bounded?_eq_some_iff.mp hunit
      obtain ⟨known, hknown, hroot⟩ := KnownTables.finds_rootEntry it.abbreviations header
        ⟨it.offset, it.rest.take header.totalSize⟩ it.known h.known
      simp only [pure, Except.pure]
      simp only [bind] at hroot
      cases hfound : Reading.value (EStateM.bind (Cursor.read (Decoder.take CompileUnitHeader.size))
          fun _ => RootEntry.read it.abbreviations header)
          ⟨it.offset, it.rest.take header.totalSize⟩ with
      | error e =>
        rw [hfound] at hroot
        exact .inr ⟨e, { it with offset := _, known }, rfl, by rw [hroot]⟩
      | ok root =>
        rw [hfound] at hroot
        have hrest : it.rest.length = it.info.length - it.offset := List.length_drop
        have hstop : Cursor.stop ⟨it.offset, it.rest.take header.totalSize⟩ =
            it.offset + header.totalSize := by
          rw [Cursor.stop, List.length_take_of_le hlength]
        have hoffset := h.offset_le
        dsimp only at hlength
        refine .inl ⟨⟨it.offset, header, root⟩, { it with offset := it.offset + header.totalSize, known },
          rfl, by rw [hroot, hstop], ⟨h.unfailed, ?_, hknown⟩, rfl, rfl, ?_⟩
        · show it.offset + header.totalSize ≤ it.info.length
          omega
        · exact List.drop_drop.symm

end Sound

/-- What a walk finds from where the iteration is. -/
def ahead (it : ReferenceIterator) : List UnitVisit × Option DebugError :=
  walkFrom it.abbreviations it.offset it.rest

namespace Sound

variable {it : ReferenceIterator}

/-- Nothing is ahead of an iterator that is over. -/
theorem ahead_of_isOver (h : it.Sound) (hover : it.IsOver) : it.ahead = ([], none) := by
  rw [ahead, h.isOver_iff.mp hover, walkFrom, if_pos List.isEmpty_nil]

/-- A unit that cannot be read ends the walk, and is an error for the iteration. Any other unit is the
first one of the walk, and the walk goes on where the iteration does. -/
theorem nextUnit_ahead (h : it.Sound) (hover : ¬ it.IsOver) :
    (∃ e it', it.nextUnit = (.error e, it') ∧ it.ahead = ([], some e)) ∨
      ∃ visit it', it.nextUnit = (.ok visit, it') ∧ it'.Sound ∧
        it.ahead = (visit :: it'.ahead.1, it'.ahead.2) := by
  rw [h.isOver_iff, ← List.isEmpty_iff] at hover
  rcases h.nextUnit_eq with ⟨visit, it', hread, hnext, hsound, habbreviations, hoffset, hrest⟩ |
    ⟨e, it', hread, hnext⟩
  · refine .inr ⟨visit, it', hnext, hsound, walkFrom_of_read hover hread ?_⟩
    rw [ahead, habbreviations, hoffset, hrest]
  · refine .inl ⟨e, it', hnext, ?_⟩
    rw [ahead, walkFrom, if_neg hover, hread]

theorem ahead_of_nextUnit_error (h : it.Sound) (hover : ¬ it.IsOver) {e : DebugError}
    {it' : ReferenceIterator} (hnext : it.nextUnit = (.error e, it')) :
    it.ahead = ([], some e) := by
  rcases h.nextUnit_ahead hover with ⟨e', it₁, hnext', hahead⟩ | ⟨visit, it₁, hnext', -⟩
  all_goals
    rw [hnext] at hnext'
    cases hnext'
  exact hahead

theorem ahead_of_nextUnit_ok (h : it.Sound) (hover : ¬ it.IsOver) {visit : UnitVisit}
    {it' : ReferenceIterator} (hnext : it.nextUnit = (.ok visit, it')) :
    it'.Sound ∧ it.ahead = (visit :: it'.ahead.1, it'.ahead.2) := by
  rcases h.nextUnit_ahead hover with ⟨e, it₁, hnext', -⟩ | ⟨visit', it₁, hnext', hsound, hahead⟩
  all_goals
    rw [hnext] at hnext'
    cases hnext'
  exact ⟨hsound, hahead⟩

/-- An iteration goes over the units of the walk. -/
theorem visits_eq (h : it.Sound) : it.visits = it.ahead.1 := by
  fun_induction visits it with
  -- the iterator and the walk agree on the next unit
  | case1 it hover => rw [h.ahead_of_isOver hover]
  | case2 it hover e it' hnext => rw [h.ahead_of_nextUnit_error hover hnext]
  | case3 it hover visit it' hnext ih =>
    obtain ⟨hsound, hahead⟩ := h.ahead_of_nextUnit_ok hover hnext
    rw [hahead, ih hsound]

end Sound

/-- What is yielded for what a walk finds: each reference in turn, and then the error, if there is
one. -/
def itemsOf (found : List UnitVisit × Option DebugError) : List (Except DebugError StatementList) :=
  (found.1.filterMap UnitVisit.statementList?).map .ok ++ found.2.toList.map .error

namespace Sound

variable {it : ReferenceIterator}

/-- An iteration yields the first thing that is ahead, and goes on behind it. -/
theorem next_ahead (h : it.Sound) :
    (itemsOf it.ahead = [] ∧ it.next.1 = none ∧ it.next.2.IsOver) ∨
      (∃ e, itemsOf it.ahead = [.error e] ∧ it.next.1 = some (.error e) ∧ it.next.2.IsOver) ∨
      ∃ reference it', itemsOf it.ahead = .ok reference :: itemsOf it'.ahead ∧ it'.Sound ∧
        it.next = (some (.ok reference), it') := by
  fun_induction next it with
  | case1 it hover =>
    rw [h.ahead_of_isOver hover]
    exact .inl ⟨rfl, rfl, hover⟩
  | case2 it hover e it' hnext =>
    rw [h.ahead_of_nextUnit_error hover hnext]
    exact .inr (.inl ⟨e, rfl, rfl, .inl rfl⟩)
  | case3 it hover visit it' hnext reference hreference =>
    obtain ⟨hsound, hahead⟩ := h.ahead_of_nextUnit_ok hover hnext
    refine .inr (.inr ⟨reference, it', ?_, hsound, rfl⟩)
    rw [hahead, itemsOf, List.filterMap_cons_some hreference]
    rfl
  -- a unit without a statement list yields nothing, so what is ahead stays the same
  | case4 it hover visit it' hnext hnone ih =>
    obtain ⟨hsound, hahead⟩ := h.ahead_of_nextUnit_ok hover hnext
    have hsame : itemsOf it.ahead = itemsOf it'.ahead := by
      rw [hahead, itemsOf, List.filterMap_cons_none hnone]
      rfl
    rw [hsame]
    exact ih hsound

end Sound

/-- An iterator that is over yields nothing more. -/
theorem item_of_isOver {it : ReferenceIterator} (hover : it.IsOver) (n : Nat) :
    it.item n = none := by
  have hnext : it.next = (none, it) := by
    rw [next, if_pos hover]
  induction n with
  | zero => rw [item, hnext]
  | succ n ih => rw [item, hnext, ih]

/-- An iteration yields what is ahead, and nothing more however often it is asked. -/
theorem Sound.item_eq {it : ReferenceIterator} (h : it.Sound) (n : Nat) :
    it.item n = (itemsOf it.ahead)[n]? := by
  -- item `n + 1` of an iterator is item `n` of what one call leaves
  induction n generalizing it with
  | zero =>
    rw [item]
    rcases h.next_ahead with ⟨hitems, hnext, -⟩ | ⟨e, hitems, hnext, -⟩ |
      ⟨reference, it', hitems, -, hnext⟩
    all_goals rw [hitems, hnext]; rfl
  | succ n ih =>
    rw [item]
    rcases h.next_ahead with ⟨hitems, -, hover⟩ | ⟨e, hitems, -, hover⟩ |
      ⟨reference, it', hitems, hsound, hnext⟩
    · rw [hitems, item_of_isOver hover, List.getElem?_nil]
    · rw [hitems, item_of_isOver hover, List.getElem?_cons_succ, List.getElem?_nil]
    · rw [hitems, hnext, List.getElem?_cons_succ, ih hsound]

end ReferenceIterator

/-! ## What the units say -/

/-- The length of a unit is its first word. -/
theorem CompileUnitHeader.word32_of_read {c c' : Cursor} {header : CompileUnitHeader}
    (h : read c = .ok header c') :
    ∃ rest, Decoder.word32 c.rest = some (header.unitLength, rest) := by
  obtain ⟨unitLength, c₁, hword, h⟩ := state_bind_eq_ok_iff.mp h
  -- the length is the first field; the checks that follow do not change it
  have hlength : header.unitLength = unitLength := by
    split at h
    · cases h
    · obtain ⟨version, c₂, -, h⟩ := state_bind_eq_ok_iff.mp h
      split at h
      · obtain ⟨_, c₃, -, h⟩ := state_bind_eq_ok_iff.mp h
        obtain ⟨_, c₄, -, h⟩ := state_bind_eq_ok_iff.mp h
        obtain ⟨rfl, -⟩ := state_pure_eq_ok_iff.mp h
        rfl
      · cases h
  unfold Cursor.read at hword
  split at hword
  · rename_i word rest hword'
    cases hword
    exact ⟨rest, hlength ▸ hword'⟩
  · cases hword

/-- A reference is stored behind the code of its root entry. -/
theorem RootEntry.position_lt_of_read {abbreviations : Bytes} {header : CompileUnitHeader}
    {c c' : Cursor} {valueOffset : Nat} {lineOffset : UInt32}
    (h : read abbreviations header c = .ok (.statementList valueOffset lineOffset) c') :
    c.position < valueOffset := by
  obtain ⟨code, c₁, hcode, h⟩ := state_bind_eq_ok_iff.mp h
  -- the code takes at least one byte, so the value stands behind it
  have hlt : c.position < c₁.position := by
    unfold Cursor.read at hcode
    split at hcode
    · rename_i code' rest hcode'
      have := Leb128.length_lt_of_unsigned hcode'
      cases hcode
      dsimp only
      omega
    · cases hcode
  split at h
  · cases h
  · cases htable : AbbreviationTable.read? abbreviations header.abbreviationOffset.toNat with
    | none =>
      rw [htable] at h
      cases h
    | some table =>
      rw [htable] at h
      dsimp only at h
      cases hget : table.get? code with
      | none =>
        rw [hget] at h
        cases h
      | some abbreviation =>
        rw [hget] at h
        obtain ⟨front, -, hstands, -⟩ := redirects_ofAttributes _ _ _ _ _ h
        have hvalue : valueOffset = c₁.position + front.length := hstands
        omega

namespace UnitVisit

variable {abbreviations bytes : Bytes} {offset : Nat} {visit : UnitVisit}

/-- A unit that is read starts with its length. -/
theorem word32_of_read (h : read abbreviations offset bytes = .ok visit) :
    ∃ rest, Decoder.word32 bytes = some (visit.header.unitLength, rest) := by
  unfold read at h
  simp only [bind_eq_ok_iff, Reading.value_eq_ok_iff, pure_eq_ok_iff] at h
  obtain ⟨header, ⟨c, hheader⟩, _, -, _, -, rfl⟩ := h
  exact CompileUnitHeader.word32_of_read hheader

/-- A reference lies behind the header of its unit. -/
theorem header_lt_of_read (h : read abbreviations offset bytes = .ok visit)
    {reference : StatementList} (hreference : visit.statementList? = some reference) :
    visit.offset + CompileUnitHeader.size < reference.valueOffset := by
  obtain ⟨hroot, -⟩ := statementList?_eq_some_iff.mp hreference
  unfold read at h
  simp only [bind_eq_ok_iff, Reading.value_eq_ok_iff, orTruncated_eq_ok_iff, pure_eq_ok_iff] at h
  obtain ⟨header, -, body, hbody, root, ⟨c', hread⟩, rfl⟩ := h
  obtain ⟨-, rfl⟩ := Cursor.bounded?_eq_some_iff.mp hbody
  obtain ⟨_, c₁, hskip, hread⟩ := state_bind_eq_ok_iff.mp hread
  dsimp only at hroot
  subst hroot
  -- the root entry starts behind the header, which is read a second time
  have hsize := Reading.Takes.read (Decoder.takes_take _) _ _ _ hskip
  obtain ⟨front, hfront, hposition, -⟩ := Reading.Local.read (Decoder.local_take _) _ _ _ hskip
  have hvalue := RootEntry.position_lt_of_read hread
  have hlength := congrArg List.length hfront
  rw [List.length_append] at hlength
  dsimp only at hposition hlength hsize ⊢
  omega

/-- A reference is the word at its place. -/
theorem word32_reference_of_read (h : read abbreviations offset bytes = .ok visit)
    {reference : StatementList} (hreference : visit.statementList? = some reference) :
    ∃ rest, Decoder.word32 (bytes.drop (reference.valueOffset - offset)) =
      some (reference.lineOffset, rest) := by
  obtain ⟨hroot, -⟩ := statementList?_eq_some_iff.mp hreference
  obtain ⟨-, front, back, rest, rfl, -, hstands, -⟩ := read_eq_ok h
  rw [hroot] at hstands ⊢
  have hvalue : reference.valueOffset = offset + front.length := hstands
  rw [hvalue, Nat.add_sub_cancel_left, List.append_assoc, List.drop_left]
  exact ⟨back ++ rest, Decoder.word32_eq_some_iff.mpr (List.append_assoc _ _ _)⟩

/-- Whether units follow each other without gaps from one offset of a section to another, each as
long as its length field says. -/
def Tile (info : Bytes) : Nat → List UnitVisit → Nat → Prop
  | start, [], stop => start = stop
  | start, visit :: visits, stop => visit.offset = start ∧
    (∃ rest, Decoder.word32 (info.drop start) = some (visit.header.unitLength, rest)) ∧
    Tile info (start + (4 + visit.header.unitLength.toNat)) visits stop

end UnitVisit

/-- Each unit of a walk is read where it starts. -/
theorem walkFrom_reads {info abbreviations bytes : Bytes} {offset : Nat}
    (hbytes : bytes = info.drop offset) :
    ∀ visit ∈ (walkFrom abbreviations offset bytes).1,
      UnitVisit.read abbreviations visit.offset (info.drop visit.offset) = .ok visit := by
  fun_induction walkFrom abbreviations offset bytes with
  | case1 => exact List.forall_mem_nil _
  | case2 => exact List.forall_mem_nil _
  | case3 offset bytes hne first hfirst others stopped hothers ih =>
    obtain ⟨rfl, -⟩ := UnitVisit.read_bounds hfirst
    rw [hothers, hbytes, List.drop_drop] at ih
    rw [List.forall_mem_cons]
    exact ⟨hbytes ▸ hfirst, ih rfl⟩

/-- The units of a walk that reaches the end fill the section. -/
theorem walkFrom_tile {info abbreviations bytes : Bytes} {offset : Nat} {visits : List UnitVisit}
    (hbytes : bytes = info.drop offset) (hoffset : offset ≤ info.length)
    (h : walkFrom abbreviations offset bytes = (visits, none)) :
    UnitVisit.Tile info offset visits info.length := by
  -- each unit starts where the one before stopped, up to the end of the section
  fun_induction walkFrom abbreviations offset bytes generalizing visits with
  | case1 offset bytes hempty =>
    cases h
    rw [List.isEmpty_iff, hbytes, List.drop_eq_nil_iff] at hempty
    exact Nat.le_antisymm hoffset hempty
  | case2 => cases h
  | case3 offset bytes hne first hfirst others stopped hothers ih =>
    cases h
    obtain ⟨hstart, hlength, -⟩ := UnitVisit.read_bounds hfirst
    obtain ⟨rest, hword⟩ := UnitVisit.word32_of_read hfirst
    rw [hbytes] at hword
    refine ⟨hstart, ⟨rest, hword⟩, ih ?_ ?_ hothers⟩
    · rw [hbytes, List.drop_drop]
    · rw [hbytes, List.length_drop] at hlength
      omega

/-- Whether a reference stands in its unit, behind the header, and is what the section stores
there. -/
structure StatementList.StoredIn (info : Bytes) (unitLength : UInt32) (reference : StatementList) :
    Prop where
  unitLength_eq : ∃ rest, Decoder.word32 (info.drop reference.unitOffset) = some (unitLength, rest)
  header_lt : reference.unitOffset + CompileUnitHeader.size < reference.valueOffset
  value_le : reference.valueOffset + 4 ≤ reference.unitOffset + (4 + unitLength.toNat)
  unit_le : reference.unitOffset + (4 + unitLength.toNat) ≤ info.length
  lineOffset_eq : ∃ rest, Decoder.word32 (info.drop reference.valueOffset) =
    some (reference.lineOffset, rest)

/-- A reference is stored in its unit. -/
theorem UnitVisit.storedIn_of_read {info abbreviations : Bytes} {visit : UnitVisit}
    (h : read abbreviations visit.offset (info.drop visit.offset) = .ok visit)
    {reference : StatementList} (hreference : visit.statementList? = some reference) :
    reference.StoredIn info visit.header.unitLength := by
  obtain ⟨-, hoffset⟩ := statementList?_eq_some_iff.mp hreference
  obtain ⟨-, hlength, hbounds⟩ := read_bounds h
  have hstop := (hbounds reference hreference).2
  have hheader := header_lt_of_read h hreference
  have hword := word32_reference_of_read h hreference
  simp only [StatementList.span, span, CompileUnitHeader.totalSize] at hstop hlength
  rw [List.length_drop] at hlength
  rw [List.drop_drop, Nat.add_sub_cancel' (by omega)] at hword
  rw [hoffset] at hheader hstop hlength
  exact ⟨hoffset ▸ word32_of_read h, hheader, hstop, by omega, hword⟩

/-- Whatever two sections hold, an iteration over their references yields what the walk finds, which
reads the table of every unit anew: the reference of each unit that has one, and then the error, if
there is one, and nothing after it. It goes over the units of the walk, which fill the section if there
is no error. Each reference is stored in its unit, behind the header. -/
theorem ReferenceIterator.start_walks (info abbreviations : Bytes) :
    (∀ n, (start info abbreviations).item n = (itemsOf (walk info abbreviations))[n]?) ∧
    (start info abbreviations).visits = (walk info abbreviations).1 ∧
    ((walk info abbreviations).2 = none →
      UnitVisit.Tile info 0 (walk info abbreviations).1 info.length) ∧
    ∀ reference ∈ (statementLists info abbreviations).1,
      ∃ unitLength, reference.StoredIn info unitLength := by
  have hsound := sound_start info abbreviations
  refine ⟨hsound.item_eq, hsound.visits_eq, fun hcomplete => ?_, fun reference hreference => ?_⟩
  · exact walkFrom_tile rfl (Nat.zero_le _) (Prod.ext rfl hcomplete)
  · obtain ⟨visit, hvisit, hreference⟩ := List.mem_filterMap.mp hreference
    exact ⟨_, UnitVisit.storedIn_of_read (walkFrom_reads rfl visit hvisit) hreference⟩

/-- Three compile units, the second of which has no root entry, and the table that they share. -/
def unitsWithTable : Bytes × Bytes :=
  ([12, 0, 0, 0, 2, 0, 0, 0, 0, 0, 4, 1, 50, 0, 0, 0] ++ [8, 0, 0, 0, 2, 0, 0, 0, 0, 0, 4, 0] ++
    [12, 0, 0, 0, 2, 0, 0, 0, 0, 0, 4, 1, 0, 0, 0, 0],
  [1, 17, 0, 16, 6, 0, 0, 0])

/-- Units of which one has a reference and one has none. -/
theorem ReferenceIterator.start_walks_unitsWithTable :
    (walk unitsWithTable.1 unitsWithTable.2).2 = none ∧
      ⟨28, 40, 0⟩ ∈ (statementLists unitsWithTable.1 unitsWithTable.2).1 ∧
      (∀ n, (start unitsWithTable.1 unitsWithTable.2).item n =
        (itemsOf (walk unitsWithTable.1 unitsWithTable.2))[n]?) ∧
      (start unitsWithTable.1 unitsWithTable.2).visits =
        (walk unitsWithTable.1 unitsWithTable.2).1 ∧
      UnitVisit.Tile unitsWithTable.1 0 (walk unitsWithTable.1 unitsWithTable.2).1
        unitsWithTable.1.length ∧
      ∃ unitLength, StatementList.StoredIn unitsWithTable.1 unitLength ⟨28, 40, 0⟩ := by
  have hcomplete : (walk unitsWithTable.1 unitsWithTable.2).2 = none := by decide +kernel
  have hmem : ⟨28, 40, 0⟩ ∈ (statementLists unitsWithTable.1 unitsWithTable.2).1 := by
    decide +kernel
  obtain ⟨hitem, hvisits, htile, hstored⟩ := start_walks unitsWithTable.1 unitsWithTable.2
  exact ⟨hcomplete, hmem, hitem, hvisits, htile hcomplete, hstored _ hmem⟩

end DwarfLines
