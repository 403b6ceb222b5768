import DwarfLines.Info.Abbreviation
import DwarfLines.Proofs.Line.Spelling
import Mathlib.Data.Finset.Card

/-!
# Abbreviation tables in any encoding

A table is a run of declarations and a zero, and the attributes of a declaration are a run of pairs
and two zeros. `Abbreviation.Spells` says so without a decoder, for numbers written in as many bytes
as may be. A table is read from exactly such bytes, wherever they stand: what it declares is the last
of the declarations with a code, and none of it is read if the section ends within the table.
-/

namespace DwarfLines

open Outcome

/-! ## Declarations -/

namespace AttributeSpec

/-- Whether some bytes are the name and form of an attribute, and which. -/
inductive Spells : Bytes → AttributeSpec → Prop where
  | mk {name form : Bytes} : Leb128.IsNumber name → Leb128.IsNumber form →
      ¬ (Leb128.payload name = 0 ∧ Leb128.payload form = 0) →
      Spells (name ++ form) ⟨Leb128.payload name, .ofCode (Leb128.payload form)⟩

/-- Whether some bytes are the two zeros behind the attributes of a declaration. -/
inductive SpellsStop : Bytes → Prop where
  | mk {name form : Bytes} : Leb128.IsNumber name → Leb128.IsNumber form →
      Leb128.payload name = 0 → Leb128.payload form = 0 → SpellsStop (name ++ form)

/-- An attribute specification reads back from any spelling of its two numbers. -/
theorem Spells.reads {bytes : Bytes} {spec : AttributeSpec} (h : Spells bytes spec) :
    decodeItem.Reads bytes (some spec) := by
  rcases h with ⟨hname, hform, hnonzero⟩
  apply hname.reads.bind
  apply hform.reads.bind_last
  rw [if_neg hnonzero]
  exact .pure _

/-- A pair of numbers that are both zero ends the list of attributes, however they are spelled. -/
theorem SpellsStop.reads {bytes : Bytes} (h : SpellsStop bytes) : decodeItem.Reads bytes none := by
  rcases h with ⟨hname, hform, hzero, hzero'⟩
  apply hname.reads.bind
  apply hform.reads.bind_last
  rw [if_pos ⟨hzero, hzero'⟩]
  exact .pure _

/-- Whether an attribute specification reads, and what it reads, does not depend on the bytes after
it. -/
theorem local_decodeItem : decodeItem.Local :=
  Leb128.local_unsigned.bind fun _ => Leb128.local_unsigned.bind fun _ => .ite (.pure _) (.pure _)

end AttributeSpec

namespace Abbreviation

/-- Whether some bytes are a declaration, and which. -/
inductive Spells : Bytes → Abbreviation → Prop where
  | mk {code tag stop : Bytes} {children : UInt8} {pairs : List Bytes}
      {attributes : List AttributeSpec} : Leb128.IsNumber code → Leb128.payload code ≠ 0 →
      Leb128.IsNumber tag → List.Forall₂ AttributeSpec.Spells pairs attributes →
      AttributeSpec.SpellsStop stop →
      Spells (code ++ (tag ++ ([children] ++ (pairs.flatten ++ stop))))
        ⟨Leb128.payload code, Leb128.payload tag, children != 0, attributes⟩

/-- A declaration reads back from any spelling of its numbers. -/
theorem Spells.reads {bytes : Bytes} {a : Abbreviation} (h : Spells bytes a) :
    decodeItem.Reads bytes (some a) := by
  rcases h with ⟨hcode, hnonzero, htag, hattributes, hstop⟩
  apply hcode.reads.bind
  rw [if_neg hnonzero]
  apply htag.reads.bind
  apply (Decoder.reads_byte _).bind
  have hpairs := hattributes.imp fun _ _ hspec => hspec.reads
  exact (Decoder.reads_table hpairs hstop.reads).bind_last (.pure _)

/-- A code of zero ends the table, however it is spelled. -/
theorem reads_decodeItem_stop {stop : Bytes} (hstop : Leb128.IsNumber stop)
    (hzero : Leb128.payload stop = 0) : decodeItem.Reads stop none := by
  apply hstop.reads.bind_last
  rw [if_pos hzero]
  exact .pure _

/-- Whether a declaration reads, and what it reads, does not depend on the bytes after it. -/
theorem local_decodeItem : decodeItem.Local :=
  Leb128.local_unsigned.bind fun _ => .ite (.pure _) <|
    Leb128.local_unsigned.bind fun _ => Decoder.local_byte.bind fun _ =>
      (Decoder.local_table AttributeSpec.local_decodeItem).bind fun _ => .pure _

end Abbreviation

/-! ## Looking declarations up -/

namespace AbbreviationTable

/-- A declaration added under a code hides the earlier one of that code and no other. -/
theorem get?_insert (table : AbbreviationTable) (a : Abbreviation) (code : Nat) :
    (table.insert a).get? code = if a.code = code then some a else table.get? code := by
  unfold get? insert
  by_cases h : a.code = code
  · simp [h]
  · simp only [List.find?_cons, beq_eq_false_iff_ne.mpr h, List.find?_filter, if_neg h]
    congr 1
    funext b
    by_cases hb : b.code = code <;> simp [hb, Ne.symm h]

/-- The table of a list with one more declaration is the table of the list with it added. -/
theorem ofList_append_singleton (declarations : List Abbreviation) (a : Abbreviation) :
    ofList (declarations ++ [a]) = (ofList declarations).insert a :=
  List.foldl_append

/-- Of the declarations with a code, the last counts. -/
theorem get?_ofList (declarations : List Abbreviation) (code : Nat) :
    (ofList declarations).get? code = (declarations.filter (·.code = code)).getLast? := by
  induction declarations using List.reverseRecOn with
  | nil => rfl
  | append_singleton declarations a ih =>
    rw [ofList_append_singleton, get?_insert, ih, List.filter_append]
    by_cases h : a.code = code
    · simp [h]
    · simp [h]

/-- The codes that are declared. -/
def codes (table : AbbreviationTable) : List Nat := table.entries.map Abbreviation.code

/-- Adding a declaration moves its code to the front, once. -/
theorem codes_insert (table : AbbreviationTable) (a : Abbreviation) :
    (table.insert a).codes = a.code :: table.codes.filter (· != a.code) := by
  rw [codes, codes, insert, List.map_cons, List.filter_map]
  rfl

/-- No code stands twice in the table of a list, however often it is declared. -/
theorem nodup_codes_ofList (declarations : List Abbreviation) :
    (ofList declarations).codes.Nodup := by
  induction declarations using List.reverseRecOn with
  | nil => exact List.nodup_nil
  | append_singleton declarations a ih =>
    rw [ofList_append_singleton, codes_insert, List.nodup_cons]
    exact ⟨by simp, ih.filter _⟩

/-- The codes of the table of a list are the codes it declares. -/
theorem mem_codes_ofList (declarations : List Abbreviation) (code : Nat) :
    code ∈ (ofList declarations).codes ↔ code ∈ declarations.map Abbreviation.code := by
  induction declarations using List.reverseRecOn with
  | nil => exact Iff.rfl
  | append_singleton declarations a ih =>
    rw [ofList_append_singleton, codes_insert, List.map_append, List.mem_append, ← ih]
    by_cases h : code = a.code <;> simp [h]

/-- A code is counted once, however often it is declared. -/
theorem size_ofList (declarations : List Abbreviation) :
    (ofList declarations).size = (declarations.map Abbreviation.code).toFinset.card := by
  have hcodes : (ofList declarations).codes.toFinset =
      (declarations.map Abbreviation.code).toFinset := by
    ext code
    rw [List.mem_toFinset, List.mem_toFinset, mem_codes_ofList]
  rw [← hcodes, List.toFinset_card_of_nodup (nodup_codes_ofList declarations), codes,
    List.length_map, size]

/-! ## Reading tables -/

/-- Reading a table at an offset is decoding declarations from there up to the stop; an offset past
the end reads nothing. -/
theorem read?_eq (data : Bytes) (offset : Nat) : read? data offset =
    if offset ≤ data.length then
      (Decoder.table Abbreviation.decodeItem Abbreviation.decodeItem_shortens
        (data.drop offset)).map fun found => ofList found.1
    else none := by
  unfold read?
  by_cases h : offset ≤ data.length
  · have hguard : guard (offset ≤ data.length) = some () := if_pos h
    rw [hguard, if_pos h]
    cases Decoder.table Abbreviation.decodeItem Abbreviation.decodeItem_shortens
      (data.drop offset) <;> rfl
  · have hguard : guard (offset ≤ data.length) = none := if_neg h
    rw [hguard, if_neg h]
    rfl

/-- A table is read wherever it stands. -/
theorem read?_append {stored : Bytes} {declarations : List Abbreviation}
    (h : (Decoder.table Abbreviation.decodeItem Abbreviation.decodeItem_shortens).Reads stored
      declarations) (front back : Bytes) :
    read? (front ++ (stored ++ back)) front.length = some (ofList declarations) := by
  have hoffset : front.length ≤ (front ++ (stored ++ back)).length := by
    rw [List.length_append]
    exact Nat.le_add_right _ _
  rw [read?_eq, if_pos hoffset, List.drop_left, h back]
  rfl

/-- A table is not read from a section that ends within it, or in front of it. -/
theorem read?_take_eq_none {stored : Bytes} {declarations : List Abbreviation}
    (h : (Decoder.table Abbreviation.decodeItem Abbreviation.decodeItem_shortens).Reads stored
      declarations) (front back : Bytes) {n : Nat} (hn : n < (front ++ stored).length) :
    read? ((front ++ (stored ++ back)).take n) front.length = none := by
  rw [List.length_append] at hn
  rw [read?_eq]
  split
  · rename_i hoffset
    rw [List.length_take] at hoffset
    obtain ⟨k, rfl⟩ := Nat.exists_eq_add_of_le (Nat.le_trans hoffset (Nat.min_le_left _ _))
    have hk : k < stored.length := Nat.lt_of_add_lt_add_left hn
    have hcut : ((front ++ (stored ++ back)).take (front.length + k)).drop front.length =
        stored.take k := by
      rw [List.drop_take, List.drop_left, Nat.add_sub_cancel_left,
        List.take_append_of_le_length (Nat.le_of_lt hk)]
    rw [hcut, h.take_eq_none (Decoder.local_table Abbreviation.local_decodeItem) hk]
    rfl
  · rfl

/-- A table is read wherever it stands and however its numbers are written: it has the last of the
declarations with a code and no others, and counts each code once. Nothing is made of a section that
ends before the table does. -/
theorem read?_of_spells {spelled : List Bytes} {declarations : List Abbreviation}
    (hspelled : List.Forall₂ Abbreviation.Spells spelled declarations) {stop : Bytes}
    (hstop : Leb128.IsNumber stop) (hzero : Leb128.payload stop = 0) (front back : Bytes) :
    (∃ table,
      orTruncated (read? (front ++ (spelled.flatten ++ stop ++ back)) front.length) = .ok table ∧
      (∀ code, table.get? code = (declarations.filter (·.code = code)).getLast?) ∧
      table.size = (declarations.map Abbreviation.code).toFinset.card) ∧
    ∀ n < (front ++ (spelled.flatten ++ stop)).length,
      orTruncated (read? ((front ++ (spelled.flatten ++ stop ++ back)).take n) front.length) =
        .error .truncated := by
  have hitems := hspelled.imp fun _ _ h => h.reads
  have htable : (Decoder.table Abbreviation.decodeItem Abbreviation.decodeItem_shortens).Reads
      (spelled.flatten ++ stop) declarations :=
    Decoder.reads_table hitems (Abbreviation.reads_decodeItem_stop hstop hzero)
  constructor
  · refine ⟨ofList declarations, ?_, get?_ofList declarations, size_ofList declarations⟩
    rw [read?_append htable]
    rfl
  · intro n hn
    rw [read?_take_eq_none htable front back hn]
    rfl

/-- Three declarations, two of them with one code. The first has an attribute without a name and one
without a form, and numbers that are longer than they need to be. -/
def redeclaration : List Bytes :=
  [[0x81, 0x00] ++ ([0x11] ++ ([0x01] ++
      ([[0x00] ++ [0x17], [0x10] ++ [0x80, 0x00]].flatten ++ ([0x80, 0x00] ++ [0x00])))),
    [0x02] ++ ([0x2e] ++ ([0x00] ++ ([].flatten ++ ([0x00] ++ [0x00])))),
    [0x01] ++ ([0x34] ++ ([0xff] ++ ([[0x03] ++ [0x08]].flatten ++ ([0x00] ++ [0x00]))))]

/-- The bytes of the witness spell three declarations, two of them of code 1. -/
theorem spells_redeclaration : List.Forall₂ Abbreviation.Spells redeclaration
    [⟨1, 0x11, true, [⟨0, .secOffset⟩, ⟨0x10, .unknown 0⟩]⟩, ⟨2, 0x2e, false, []⟩,
      ⟨1, 0x34, true, [⟨3, .string⟩]⟩] := by
  refine .cons ?_ (.cons ?_ (.cons ?_ .nil))
  · apply Abbreviation.Spells.mk (by decide) (by decide) (by decide)
    · exact .cons (.mk (by decide) (by decide) (by decide))
        (.cons (.mk (by decide) (by decide) (by decide)) .nil)
    · exact .mk (by decide) (by decide) rfl rfl
  · apply Abbreviation.Spells.mk (by decide) (by decide) (by decide) .nil
    exact .mk (by decide) (by decide) rfl rfl
  · apply Abbreviation.Spells.mk (by decide) (by decide) (by decide)
    · exact .cons (.mk (by decide) (by decide) (by decide)) .nil
    · exact .mk (by decide) (by decide) rfl rfl

/-- Behind a byte and in front of another, and with a padded zero at its end. -/
theorem read?_redeclaration :
    (∃ table, orTruncated (read? ([0xaa] ++ (redeclaration.flatten ++ [0x80, 0x00] ++ [0xbb])) 1) =
        .ok table ∧
      table.get? 1 = some ⟨1, 0x34, true, [⟨3, .string⟩]⟩ ∧
      table.get? 2 = some ⟨2, 0x2e, false, []⟩ ∧ table.get? 3 = none ∧ table.size = 2) ∧
    ∀ n < 27,
      orTruncated (read? (([0xaa] ++ (redeclaration.flatten ++ [0x80, 0x00] ++ [0xbb])).take n) 1) =
        .error .truncated := by
  obtain ⟨⟨table, hread, hget, hsize⟩, hcut⟩ :=
    read?_of_spells spells_redeclaration (show Leb128.IsNumber [0x80, 0x00] by decide) rfl [0xaa]
      [0xbb]
  exact ⟨⟨table, hread, hget 1, hget 2, hget 3, hsize⟩, hcut⟩

end AbbreviationTable

end DwarfLines
