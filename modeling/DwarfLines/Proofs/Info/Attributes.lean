import DwarfLines.Proofs.Info.Walk
import DwarfLines.Proofs.Line.Spelling

/-!
# Attributes as they are stored

The form of an attribute is declared by its code. An indirect form is followed by the code of
another in front of the value, and so on to the form in which the value is stored. Some forms have a
size of their own, or one that the header of the unit gives; the values of others say themselves
where they end.

The walk passes over attributes that are stored so, up to the first reference to a line program or
the first form that is not known, whatever follows in the unit.
-/

namespace DwarfLines

open Outcome

/-! ## Forms -/

namespace Form

/-- Whether a code stands for a form that can be passed over, or for the indirect form. -/
def IsKnown (code : Nat) : Prop := code = 0x01 ∨ (0x03 ≤ code ∧ code ≤ 0x19) ∨ code = 0x20

instance : DecidablePred IsKnown := fun _ => inferInstanceAs (Decidable (_ ∨ _))

/-- Whether the codes that some bytes hold lead from one form to another, which is not indirect. -/
inductive Leads : Nat → Bytes → Nat → Prop where
  | here {code : Nat} : code ≠ 0x16 → Leads code [] code
  | on {number chain : Bytes} {target : Nat} : Leb128.IsNumber number →
      Leads (Leb128.payload number) chain target → Leads 0x16 (number ++ chain) target

/-- The size of the values of a form, for the forms that have one. -/
def size? (layout : Layout) : Nat → Option Nat
  | 0x19 => some 0
  | 0x0b | 0x0c | 0x11 => some 1
  | 0x05 | 0x12 => some 2
  | 0x06 | 0x0e | 0x13 | 0x17 => some 4
  | 0x07 | 0x14 | 0x20 => some 8
  | 0x01 => some layout.addressSize.toNat
  | 0x10 => some (if layout.version = 2 then layout.addressSize.toNat else 4)
  | _ => none

/-- Whether some bytes are a value of the form with a given code. -/
inductive Stores (layout : Layout) : Nat → Bytes → Prop where
  | sized {code size : Nat} {value : Bytes} : size? layout code = some size → value.length = size →
      Stores layout code value
  | string {text : Bytes} : 0 ∉ text → Stores layout 0x08 (text ++ [0])
  | signed {number : Bytes} : Leb128.IsSignedNumber number → Stores layout 0x0d number
  | unsigned {code : Nat} {number : Bytes} : code = 0x0f ∨ code = 0x15 → Leb128.IsNumber number →
      Stores layout code number
  | block1 {length : UInt8} {contents : Bytes} : contents.length = length.toNat →
      Stores layout 0x0a (length :: contents)
  | block2 {length : UInt16} {contents : Bytes} : contents.length = length.toNat →
      Stores layout 0x03 (bytesOfWord16 length ++ contents)
  | block4 {length : UInt32} {contents : Bytes} : contents.length = length.toNat →
      Stores layout 0x04 (bytesOfWord32 length ++ contents)
  | block {code : Nat} {number contents : Bytes} : code = 0x09 ∨ code = 0x18 →
      Leb128.IsNumber number → contents.length = Leb128.payload number →
      Stores layout code (number ++ contents)

/-- One code is that of the indirect form. -/
theorem ofCode_eq_indirect_iff {code : Nat} : ofCode code = .indirect ↔ code = 0x16 := by
  unfold ofCode
  split <;> simp_all

/-- Another code is that of no form. -/
theorem ofCode_of_not_isKnown {code : Nat} (h : ¬ IsKnown code) : ofCode code = .unknown code := by
  unfold ofCode
  split
  all_goals first | rfl | exact absurd (by decide) h

/-- A form that is not indirect is resolved without reading. -/
theorem reads_resolve {form : Form} (h : form ≠ .indirect) : form.resolve.Reads [] form := by
  intro rest
  unfold resolve
  rw [if_neg h]
  rfl

/-- An indirect form is resolved as the code in front of the value says. -/
theorem reads_resolve_indirect {number chain : Bytes} {form : Form} (hnumber : Leb128.IsNumber number)
    (h : (ofCode (Leb128.payload number)).resolve.Reads chain form) :
    indirect.resolve.Reads (number ++ chain) form := by
  intro rest
  have hcode := hnumber.reads (chain ++ rest)
  rw [← List.append_assoc] at hcode
  unfold resolve
  rw [if_pos rfl]
  split
  · rename_i hnone
    rw [hcode] at hnone
    cases hnone
  · rename_i hsome
    rw [hcode] at hsome
    cases hsome
    exact h rest

/-- A form is resolved to the one that its codes lead to, and no byte behind them is taken. -/
theorem Leads.reads {code target : Nat} {chain : Bytes} (h : Leads code chain target) :
    (ofCode code).resolve.Reads chain (ofCode target) := by
  induction h with
  | here hdirect => exact reads_resolve (mt ofCode_eq_indirect_iff.mp hdirect)
  | on hnumber _ ih => exact reads_resolve_indirect hnumber ih

/-- So many bytes are passed over. -/
theorem reads_skip {n : Nat} {bytes : Bytes} (h : bytes.length = n) :
    (value.skip n).Reads bytes () :=
  (Decoder.reads_take h).map _

/-- A value is taken whole, and no byte behind it. -/
theorem Stores.reads {layout : Layout} {code : Nat} {bytes : Bytes} (h : Stores layout code bytes) :
    ((ofCode code).value layout).Reads bytes () := by
  cases h with
  | sized hsize hlength =>
    -- the forms of a fixed size, less the flag that has none and the form that is not known
    unfold size? at hsize
    split at hsize
    case h_1 =>
      cases hsize
      obtain rfl := List.length_eq_zero_iff.mp hlength
      exact .pure ()
    case h_16 => cases hsize
    all_goals
      cases hsize
      exact reads_skip hlength
  | string htext => exact (Decoder.reads_cstring htext).map _
  | signed hnumber => exact hnumber.reads.map _
  | unsigned hcode hnumber =>
    obtain rfl | rfl := hcode <;> exact hnumber.reads.map _
  | block1 hlength => exact (Decoder.reads_byte _).bind (reads_skip hlength)
  | block2 hlength => exact (Decoder.reads_word16 _).bind (reads_skip hlength)
  | block4 hlength => exact (Decoder.reads_word32 _).bind (reads_skip hlength)
  | block hcode hnumber hlength =>
    obtain rfl | rfl := hcode <;> exact hnumber.reads.bind (reads_skip hlength)

/-- A form that stores values is known. -/
theorem Stores.ofCode_ne_unknown {layout : Layout} {code : Nat} {bytes : Bytes}
    (h : Stores layout code bytes) (other : Nat) : ofCode code ≠ .unknown other := by
  intro hform
  have hread := h.reads
  rw [hform] at hread
  cases hread.whole

end Form

/-- An attribute as it is declared and stored. -/
structure StoredAttribute where
  name : Nat
  /-- The code of the declared form. -/
  code : Nat
  /-- The codes that lead from an indirect form to the real one. -/
  chain : Bytes
  value : Bytes

namespace StoredAttribute

/-- The declaration of the attribute. -/
def spec (stored : StoredAttribute) : AttributeSpec := ⟨stored.name, .ofCode stored.code⟩

/-- The bytes that the attribute takes. -/
def bytes (stored : StoredAttribute) : Bytes := stored.chain ++ stored.value

/-- Whether the attribute is stored in the form that it is declared with. -/
def IsStored (layout : Form.Layout) (stored : StoredAttribute) : Prop :=
  ∃ target, Form.Leads stored.code stored.chain target ∧
    Form.Stores layout target stored.value

end StoredAttribute

/-- A stored value is passed over. -/
theorem reads_skipValue {layout : Form.Layout} {stored : StoredAttribute}
    (h : stored.IsStored layout) (position : Nat) :
    (skipValue layout stored.spec.form).Reads position stored.bytes () := by
  obtain ⟨target, hchain, hvalue⟩ := h
  refine (Reading.Reads.read hchain.reads _).bind ?_
  split
  · rename_i other hform
    exact absurd hform (hvalue.ofCode_ne_unknown other)
  · exact .read hvalue.reads _

/-! ## Root entries -/

namespace RootEntry

variable {layout : Form.Layout}

/-- Attributes in front of the first reference are passed over. -/
theorem finds_ofAttributes {earlier : List StoredAttribute}
    (hearlier : ∀ a ∈ earlier, a.name ≠ statementListName ∧ a.IsStored layout)
    {specs : List AttributeSpec} {position : Nat} {bytes : Bytes} {found : Except DebugError RootEntry}
    (h : (ofAttributes layout specs).Finds
      (position + (earlier.flatMap StoredAttribute.bytes).length) bytes found) :
    (ofAttributes layout (earlier.map StoredAttribute.spec ++ specs)).Finds position
      (earlier.flatMap StoredAttribute.bytes ++ bytes) found := by
  induction earlier generalizing position with
  | nil => exact h
  | cons first earlier ih =>
    rw [List.forall_mem_cons] at hearlier
    obtain ⟨⟨hname, hfirst⟩, hearlier⟩ := hearlier
    rw [List.flatMap_cons, List.length_append, ← Nat.add_assoc] at h
    have hspec : first.spec.name ≠ statementListName := hname
    rw [List.map_cons, List.cons_append, ofAttributes, if_neg hspec, List.flatMap_cons,
      List.append_assoc]
    exact (reads_skipValue hfirst position).bind_finds (ih hearlier h)

/-- A reference is found where it stands, whatever attributes come after it. -/
theorem finds_reference {code target : Nat} {chain : Bytes} (hchain : Form.Leads code chain target)
    (htarget : target = 0x06 ∨ target = 0x17) (later : List AttributeSpec) (position : Nat)
    (word : UInt32) :
    (ofAttributes layout (⟨statementListName, .ofCode code⟩ :: later)).Finds position
      (chain ++ bytesOfWord32 word) (.ok (.statementList (position + chain.length) word)) := by
  rw [ofAttributes, if_pos rfl]
  refine (Reading.Reads.read hchain.reads _).bind_finds ?_
  have hform : Form.ofCode target = .data4 ∨ Form.ofCode target = .secOffset := by
    obtain rfl | rfl := htarget
    · exact .inl rfl
    · exact .inr rfl
  rw [if_pos hform]
  refine Reading.Reads.finds (.get fun c hc => ?_)
  rw [hc]
  exact (Reading.Reads.read (Decoder.reads_word32 word) _).bind_last (.pure _ _)

/-- A form that is not known is refused, if its attribute is no reference. -/
theorem finds_unknownForm {name code target : Nat} {chain : Bytes} (hname : name ≠ statementListName)
    (hchain : Form.Leads code chain target) (htarget : ¬ Form.IsKnown target)
    (later : List AttributeSpec) (position : Nat) :
    (ofAttributes layout (⟨name, .ofCode code⟩ :: later)).Finds position chain
      (.error (.unknownForm target)) := by
  rw [ofAttributes, if_neg hname]
  have hskip : (skipValue layout (.ofCode code)).Finds position chain
      (.error (.unknownForm target)) := by
    refine (Reading.Reads.read hchain.reads position).bind_finds_last ?_
    rw [Form.ofCode_of_not_isKnown htarget]
    exact .throw _ _ _
  exact hskip.bind_error _

/-- The entry is found among the attributes that its number declares. -/
theorem finds_read {abbreviations number bytes : Bytes} {header : CompileUnitHeader}
    {table : AbbreviationTable} {abbreviation : Abbreviation} {position : Nat}
    {found : Except DebugError RootEntry} (hnumber : Leb128.IsNumber number)
    (hpresent : Leb128.payload number ≠ 0)
    (htable : AbbreviationTable.read? abbreviations header.abbreviationOffset.toNat = some table)
    (habbreviation : table.get? (Leb128.payload number) = some abbreviation)
    (h : (ofAttributes header.layout abbreviation.attributes).Finds (position + number.length) bytes
      found) :
    (read abbreviations header).Finds position (number ++ bytes) found := by
  refine (Reading.Reads.read hnumber.reads _).bind_finds ?_
  rw [if_neg hpresent, htable]
  dsimp only
  rw [habbreviation]
  exact h

end RootEntry

/-! ## Headers -/

namespace CompileUnitHeader

/-- The bytes of a header. -/
def bytes (header : CompileUnitHeader) : Bytes :=
  bytesOfWord32 header.unitLength ++ (bytesOfWord16 header.version ++
    (bytesOfWord32 header.abbreviationOffset ++ [header.addressSize]))

/-- The header of a compile unit has its size. -/
@[simp]
theorem length_bytes (header : CompileUnitHeader) : header.bytes.length = size := by
  simp [bytes, size]

/-- The header of a compile unit is read from its bytes. -/
theorem reads_bytes {header : CompileUnitHeader} (hnarrow : header.unitLength < wideFormatLength)
    (hsupported : supportedVersion header.version = true) (position : Nat) :
    read.Reads position header.bytes header := by
  refine (Reading.Reads.read (Decoder.reads_word32 _) _).bind ?_
  rw [if_neg (UInt32.not_le.mpr hnarrow)]
  refine (Reading.Reads.read (Decoder.reads_word16 _) _).bind ?_
  rw [if_pos hsupported]
  refine (Reading.Reads.read (Decoder.reads_word32 _) _).bind ?_
  exact (Reading.Reads.read (Decoder.reads_byte _) _).bind_last (.pure _ _)

end CompileUnitHeader

/-! ## References -/

/-- The front of a compile unit, up to the attribute of its root entry that decides what the walk makes
of it. -/
structure UnitFront where
  header : CompileUnitHeader
  /-- The number of the root entry's declaration. -/
  number : Bytes
  /-- The attributes in front of the one that decides. -/
  earlier : List StoredAttribute
  /-- The name of the attribute that decides. -/
  name : Nat
  /-- The code of the form that is declared for it. -/
  code : Nat
  /-- The codes that lead from an indirect form to the real one. -/
  chain : Bytes

namespace UnitFront

/-- The bytes of the root entry in front of the value that decides. -/
def entry (front : UnitFront) : Bytes :=
  front.number ++ (front.earlier.flatMap StoredAttribute.bytes ++ front.chain)

/-- The bytes of the unit in front of the value that decides. -/
def bytes (front : UnitFront) : Bytes := front.header.bytes ++ front.entry

/-- Whether the root entry is stored as it is declared, and the form that is reached is the one with
the code `target`. -/
structure IsDeclared (abbreviations : Bytes) (front : UnitFront) (target : Nat) : Prop where
  narrow : front.header.unitLength < wideFormatLength
  supported : supportedVersion front.header.version = true
  number : Leb128.IsNumber front.number
  present : Leb128.payload front.number ≠ 0
  declared : ∃ table abbreviation later,
    AbbreviationTable.read? abbreviations front.header.abbreviationOffset.toNat = some table ∧
    table.get? (Leb128.payload front.number) = some abbreviation ∧
    abbreviation.attributes = front.earlier.map StoredAttribute.spec ++
      ⟨front.name, .ofCode front.code⟩ :: later
  earlier : ∀ a ∈ front.earlier, a.name ≠ statementListName ∧ a.IsStored front.header.layout
  chain : Form.Leads front.code front.chain target

/-- What is found of the attribute that decides decides what is read of the unit. -/
theorem IsDeclared.read_eq {abbreviations : Bytes} {front : UnitFront} {target : Nat}
    (h : front.IsDeclared abbreviations target) (offset : Nat) (bytes back : Bytes)
    {found : Except DebugError RootEntry}
    (hfound : ∀ later, (RootEntry.ofAttributes front.header.layout
      (⟨front.name, .ofCode front.code⟩ :: later)).Finds
        (offset + (front.header.bytes ++ front.number ++
          front.earlier.flatMap StoredAttribute.bytes).length) (front.chain ++ bytes) found)
    (htotal : (front.bytes ++ bytes ++ back).length = front.header.totalSize) (rest : Bytes) :
    UnitVisit.read abbreviations offset (front.bytes ++ bytes ++ back ++ rest) =
      found.map fun root => ⟨offset, front.header, root⟩ := by
  obtain ⟨table, abbreviation, later, htable, habbreviation, hattributes⟩ := h.declared
  have hlater := hfound later
  rw [List.length_append, List.length_append, front.header.length_bytes, ← Nat.add_assoc,
    ← Nat.add_assoc] at hlater
  have hread := RootEntry.finds_ofAttributes h.earlier hlater
  -- the attributes before are skipped, and the reference is found behind them
  rw [← hattributes] at hread
  have hroot := RootEntry.finds_read h.number h.present htable habbreviation hread
  have hbytes : front.bytes ++ bytes =
      front.header.bytes ++ (front.number ++
        (front.earlier.flatMap StoredAttribute.bytes ++ (front.chain ++ bytes))) := by
    simp only [UnitFront.bytes, entry, List.append_assoc]
  rw [hbytes] at htotal ⊢
  rw [← front.header.length_bytes] at hroot
  exact UnitVisit.read_of_finds (CompileUnitHeader.reads_bytes h.narrow h.supported offset)
    (.read (Decoder.reads_take front.header.length_bytes) _) hroot htotal rest

end UnitFront

/-- The references in some bytes that stand at `offset` in their section. -/
def statementListsFrom (abbreviations : Bytes) (offset : Nat) (bytes : Bytes) :
    List StatementList × Option DebugError :=
  ((walkFrom abbreviations offset bytes).1.filterMap UnitVisit.statementList?,
    (walkFrom abbreviations offset bytes).2)

/-- The references of some bytes come before those of the bytes that follow. -/
theorem statementLists_append {abbreviations bytes : Bytes}
    (hcomplete : (statementLists bytes abbreviations).2 = none) (more : Bytes) :
    statementLists (bytes ++ more) abbreviations =
      ((statementLists bytes abbreviations).1 ++
          (statementListsFrom abbreviations bytes.length more).1,
        (statementListsFrom abbreviations bytes.length more).2) := by
  have hwalk : walkFrom abbreviations 0 bytes = ((walk bytes abbreviations).1, none) :=
    Prod.ext rfl hcomplete
  rw [statementLists, walk, walkFrom_append hwalk, Nat.zero_add]
  exact Prod.ext List.filterMap_append rfl

/-- A unit that cannot be read ends the references. -/
theorem statementListsFrom_of_read_eq_error {abbreviations bytes : Bytes} {offset : Nat}
    {e : DebugError} (h : UnitVisit.read abbreviations offset bytes = .error e)
    (hne : bytes ≠ []) : statementListsFrom abbreviations offset bytes = ([], some e) := by
  rw [statementListsFrom, walkFrom, if_neg (by simpa using hne), h]
  rfl

/-- A unit that is read has its reference in front of those behind it. -/
theorem statementListsFrom_of_read_eq_ok {abbreviations unit after : Bytes} {offset : Nat}
    {visit : UnitVisit} (h : UnitVisit.read abbreviations offset (unit ++ after) = .ok visit)
    (htotal : unit.length = visit.header.totalSize) :
    statementListsFrom abbreviations offset (unit ++ after) =
      (visit.statementList?.toList ++
          (statementListsFrom abbreviations (offset + unit.length) after).1,
        (statementListsFrom abbreviations (offset + unit.length) after).2) := by
  have hne : ¬ (unit ++ after).isEmpty = true := by
    rw [List.isEmpty_iff_length_eq_zero, List.length_append, htotal, CompileUnitHeader.totalSize]
    omega
  have hdrop : (unit ++ after).drop visit.header.totalSize = after := by
    rw [← htotal, List.drop_left]
  have hwalk := walkFrom_of_read hne h (Prod.eta _).symm
  rw [hdrop, ← htotal] at hwalk
  rw [statementListsFrom, hwalk]
  refine Prod.ext ?_ rfl
  simp only [List.filterMap_cons, statementListsFrom]
  cases visit.statementList? <;> rfl

/-- A unit whose root entry is stored as it is declared yields the first reference of its attributes,
at the place and with the value that it is stored with, whatever else the unit holds and whatever comes
after it. Where an attribute in front of the reference has a form that is not known, the walk stops and
says so. -/
theorem statementLists_of_isDeclared {abbreviations before rest : Bytes} {front : UnitFront}
    {target : Nat} (hbefore : (statementLists before abbreviations).2 = none)
    (h : front.IsDeclared abbreviations target)
    (htotal : (front.bytes ++ rest).length = front.header.totalSize) (after : Bytes) :
    (front.name = statementListName → target = 0x06 ∨ target = 0x17 →
      ∀ word behind, rest = bytesOfWord32 word ++ behind →
        statementLists (before ++ (front.bytes ++ rest ++ after)) abbreviations =
          ((statementLists before abbreviations).1 ++
              ⟨before.length, before.length + front.bytes.length, word⟩ ::
                (statementListsFrom abbreviations (before.length + (front.bytes ++ rest).length)
                  after).1,
            (statementListsFrom abbreviations (before.length + (front.bytes ++ rest).length)
              after).2)) ∧
    (front.name ≠ statementListName → ¬ Form.IsKnown target →
      statementLists (before ++ (front.bytes ++ rest ++ after)) abbreviations =
        ((statementLists before abbreviations).1, some (.unknownForm target))) := by
  -- a known reference adds one statement list, an unknown form stops the walk there
  constructor
  · rintro hname htarget word behind rfl
    have hread := h.read_eq before.length (bytesOfWord32 word) behind
      (fun later => by
        rw [hname]
        exact RootEntry.finds_reference h.chain htarget later _ word)
      (by rwa [List.append_assoc]) after
    rw [List.append_assoc front.bytes] at hread
    have hposition : before.length + (front.header.bytes ++ front.number ++
        front.earlier.flatMap StoredAttribute.bytes).length + front.chain.length =
          before.length + front.bytes.length := by
      simp only [UnitFront.bytes, UnitFront.entry, List.length_append]
      omega
    rw [hposition] at hread
    rw [statementLists_append hbefore, statementListsFrom_of_read_eq_ok hread htotal]
    rfl
  · intro hname htarget
    have hread := h.read_eq before.length [] rest
      (fun later => by
        rw [List.append_nil]
        exact RootEntry.finds_unknownForm hname h.chain htarget later _)
      (by rwa [List.append_nil]) after
    rw [List.append_nil] at hread
    have hne : front.bytes ++ rest ++ after ≠ [] := by
      refine List.ne_nil_of_length_pos ?_
      rw [List.length_append, htotal, CompileUnitHeader.totalSize]
      omega
    rw [statementLists_append hbefore, statementListsFrom_of_read_eq_error hread hne,
      List.append_nil]

/-- A table of two declarations, each with indirect forms. -/
def indirectTable : Bytes :=
  [1, 17, 0, 3, 0x08, 0x1b, 0x16, 0x11, 0x01, 0x10, 0x16, 0x25, 0x0e, 0, 0] ++
    [2, 17, 0, 3, 0x0d, 0x25, 0x16, 0x10, 0x17, 0, 0] ++ [0]

/-- The declarations of the table. -/
def indirectDeclarations : List Abbreviation :=
  [⟨1, 17, false, [⟨0x03, .string⟩, ⟨0x1b, .indirect⟩, ⟨0x11, .addr⟩, ⟨0x10, .indirect⟩,
      ⟨0x25, .strp⟩]⟩,
    ⟨2, 17, false, [⟨0x03, .sdata⟩, ⟨0x25, .indirect⟩, ⟨0x10, .secOffset⟩]⟩]

/-- A unit of the first declaration: a string, a block whose form is reached over another indirect
form, an address, and the reference, whose form is reached so too. -/
def frontWithReference : UnitFront where
  header := ⟨32, 4, 0, 4⟩
  number := [0x81, 0]
  earlier := [⟨0x03, 0x08, [], [97, 0]⟩, ⟨0x1b, 0x16, [0x16, 0x0a], [2, 9, 9]⟩,
    ⟨0x11, 0x01, [], [1, 2, 3, 4]⟩]
  name := statementListName
  code := 0x16
  chain := [0x16, 0x97, 0]

/-- A unit of the second declaration: a number, and an attribute whose form is not known. -/
def frontWithoutForm : UnitFront where
  header := ⟨15, 2, 0, 4⟩
  number := [2]
  earlier := [⟨0x03, 0x0d, [], [0xff, 0x7f]⟩]
  name := 0x25
  code := 0x16
  chain := [0x21]

/-- A unit with a reference behind values of several forms. -/
theorem isDeclared_frontWithReference : frontWithReference.IsDeclared indirectTable 0x17 where
  narrow := by decide
  supported := by decide
  number := by decide
  present := by decide
  declared := ⟨.ofList indirectDeclarations, indirectDeclarations[0], [⟨0x25, .strp⟩],
    by decide +kernel, by decide +kernel, by decide⟩
  earlier := by
    simp only [frontWithReference, List.forall_mem_cons]
    refine ⟨⟨by decide, 0x08, .here (by decide), @Form.Stores.string _ [97] (by decide)⟩,
      ⟨by decide, 0x0a, ?_, .block1 rfl⟩,
      ⟨by decide, 0x01, .here (by decide), .sized rfl rfl⟩, List.forall_mem_nil _⟩
    exact @Form.Leads.on [0x16] [0x0a] _ (by decide)
      (@Form.Leads.on [0x0a] [] _ (by decide) (.here (by decide)))
  chain := @Form.Leads.on [0x16] [0x97, 0] _ (by decide)
    (@Form.Leads.on [0x97, 0] [] _ (by decide) (.here (by decide)))

/-- A unit with an attribute of a form that is not known. -/
theorem isDeclared_frontWithoutForm : frontWithoutForm.IsDeclared indirectTable 0x21 where
  narrow := by decide
  supported := by decide
  number := by decide
  present := by decide
  declared := ⟨.ofList indirectDeclarations, indirectDeclarations[1], [⟨0x10, .secOffset⟩],
    by decide +kernel, by decide +kernel, by decide⟩
  earlier := by
    simp only [frontWithoutForm, List.forall_mem_cons]
    exact ⟨⟨by decide, 0x0d, .here (by decide), .signed (by decide)⟩, List.forall_mem_nil _⟩
  chain := @Form.Leads.on [0x21] [] _ (by decide) (.here (by decide))

/-- The first unit alone, and the second behind it. -/
theorem statementLists_indirectTable :
    let unit := frontWithReference.bytes ++ (bytesOfWord32 50 ++ [7, 7, 7, 7, 1])
    statementLists ([] ++ (unit ++ [])) indirectTable = ([⟨0, 27, 50⟩], none) ∧
      statementLists (unit ++ (frontWithoutForm.bytes ++ [0, 0, 0, 0] ++ [])) indirectTable =
        ([⟨0, 27, 50⟩], some (.unknownForm 0x21)) := by
  have hreference := (@statementLists_of_isDeclared indirectTable []
    (bytesOfWord32 50 ++ [7, 7, 7, 7, 1]) frontWithReference 0x17 (by decide +kernel)
    isDeclared_frontWithReference (by decide) []).1 rfl (.inr rfl) 50 [7, 7, 7, 7, 1] rfl
  have hform := (@statementLists_of_isDeclared indirectTable
    (frontWithReference.bytes ++ (bytesOfWord32 50 ++ [7, 7, 7, 7, 1])) [0, 0, 0, 0]
    frontWithoutForm 0x21 (by decide +kernel) isDeclared_frontWithoutForm (by decide) []).2
    (by decide) (by decide)
  exact ⟨hreference.trans (by decide +kernel), hform.trans (by decide +kernel)⟩

end DwarfLines
