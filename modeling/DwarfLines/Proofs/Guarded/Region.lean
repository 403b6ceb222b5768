import DwarfLines.Proofs.Guarded.References
import DwarfLines.Proofs.Line.HeaderGrammar

/-!
# Keeping to a region

A section is read through regions: a cursor starts at the front of the section or at a place in it,
takes one item after the other, and is narrowed to fewer bytes where a part of the section has a
length of its own. `Cursor.Reached` says which cursors come of a section so. Each of them is a place
in the section and an offset up to which it may be read, and what an item is at a cursor is settled by
the bytes between the two. `Item.Spells` says without a decoder which bytes are an item.
-/

namespace DwarfLines

open Guarded

namespace Span

variable {span : Span} {bytes : Bytes} {n : Nat}

/-- The front of a slice is a slice. -/
theorem take_slice (h : n ≤ span.length) :
    (span.slice bytes).take n = slice ⟨span.start, span.start + n⟩ bytes := by
  rw [slice, slice, List.take_take, Nat.min_eq_left h, length, Nat.add_sub_cancel_left]

/-- The rest of a slice is a slice. -/
theorem drop_slice (span : Span) (bytes : Bytes) (n : Nat) :
    (span.slice bytes).drop n = slice ⟨span.start + n, span.stop⟩ bytes := by
  rw [slice, slice, List.drop_take, List.drop_drop, length, length, Nat.sub_sub]

end Span

/-! ## Items -/

/-- What is taken in one operation. -/
inductive Item : Type → Type where
  | byte : Item UInt8
  | word16 : Item UInt16
  | word32 : Item UInt32
  | unsigned : Item Nat
  | signed : Item Int
  | cstring : Item Bytes
  | bytes (count : Nat) : Item Bytes
  /-- Bytes that are passed over. -/
  | skip (count : Nat) : Item Unit

namespace Item

/-- What takes an item off the front of some bytes. -/
def decoder : {α : Type} → Item α → Decoder α
  | _, .byte => Decoder.byte
  | _, .word16 => Decoder.word16
  | _, .word32 => Decoder.word32
  | _, .unsigned => Leb128.unsigned
  | _, .signed => Leb128.signed
  | _, .cstring => Decoder.cstring
  | _, .bytes count => Decoder.take count
  | _, .skip count => Form.value.skip count

/-- What takes an item within bounds. -/
def scan : {α : Type} → Item α → Scan α
  | _, .byte => Scan.byte
  | _, .word16 => Scan.word16
  | _, .word32 => Scan.word32
  | _, .unsigned => Scan.unsigned
  | _, .signed => Scan.signed
  | _, .cstring => Scan.cstring
  | _, .bytes count => Scan.bytes count
  | _, .skip count => Scan.pass count

/-- Whether some bytes are an item, and which. -/
def Spells : {α : Type} → Item α → Bytes → α → Prop
  | _, .byte, front, b => front = [b]
  | _, .word16, front, w => front = bytesOfWord16 w
  | _, .word32, front, w => front = bytesOfWord32 w
  | _, .unsigned, front, n => Leb128.IsNumber front ∧ Leb128.payload front = n
  | _, .signed, front, n => Leb128.IsGroups front ∧ front.length ≤ Leb128.maxLength ∧
      (Leb128.signedPayload front).bmod (2 ^ 64) = n
  | _, .cstring, front, name => front = name ++ [0] ∧ 0 ∉ name
  | _, .bytes count, front, found => front = found ∧ front.length = count
  | _, .skip count, front, _ => front.length = count

variable {α : Type}

/-- Each item is scanned as it is decoded. -/
theorem decodes (item : Item α) : item.scan.Decodes item.decoder := by
  cases item with
  | byte => exact Scan.decodes_byte
  | word16 => exact Scan.decodes_word16
  | word32 => exact Scan.decodes_word32
  | unsigned => exact Scan.decodes_unsigned
  | signed => exact Scan.decodes_signed
  | cstring => exact Scan.decodes_cstring
  | bytes count => exact Scan.decodes_bytes count
  | skip count => exact Scan.decodes_pass count

/-- The spelling of an item is read as the item. -/
theorem Spells.reads {item : Item α} {front : Bytes} {a : α} (h : item.Spells front a) :
    item.decoder.Reads front a := by
  -- one case for each kind of item; only the numbers have more than one spelling
  cases item with
  | byte =>
    obtain rfl : front = [a] := h
    exact Decoder.reads_byte a
  | word16 =>
    obtain rfl : front = bytesOfWord16 a := h
    exact Decoder.reads_word16 a
  | word32 =>
    obtain rfl : front = bytesOfWord32 a := h
    exact Decoder.reads_word32 a
  | unsigned =>
    obtain ⟨hnumber, rfl⟩ := h
    exact hnumber.reads
  | signed =>
    obtain ⟨hgroups, hlength, rfl⟩ := h
    exact Leb128.reads_signed hgroups hlength
  | cstring =>
    obtain ⟨rfl, hzero⟩ := h
    exact Decoder.reads_cstring hzero
  | bytes count =>
    obtain ⟨rfl, hlength⟩ := h
    exact Decoder.reads_take hlength
  | skip count => exact (Decoder.reads_take h).map _

/-- An item is taken off the front of some bytes exactly if they start with what spells it. -/
theorem decoder_eq_some_iff (item : Item α) {bytes rest : Bytes} {a : α} :
    item.decoder bytes = some (a, rest) ↔ ∃ front, item.Spells front a ∧ bytes = front ++ rest := by
  constructor
  · intro h
    -- the other way round: what an item takes is a spelling of its value
    cases item with
    | byte => exact ⟨[a], rfl, Decoder.byte_eq_some_iff.mp h⟩
    | word16 => exact ⟨_, rfl, Decoder.word16_eq_some_iff.mp h⟩
    | word32 => exact ⟨_, rfl, Decoder.word32_eq_some_iff.mp h⟩
    | unsigned =>
      obtain ⟨number, hnumber, hpayload, rfl⟩ := Leb128.exists_of_unsigned h
      exact ⟨number, ⟨hnumber, hpayload⟩, rfl⟩
    | signed =>
      obtain ⟨gs, between, hgs, h⟩ := Decoder.bind_eq_some_iff.mp h
      obtain ⟨rfl, rfl⟩ := Decoder.pure_eq_some_iff.mp h
      obtain ⟨rfl, hgroups, hlength⟩ := Leb128.isGroups_of_groups hgs
      exact ⟨gs, ⟨hgroups, hlength, rfl⟩, rfl⟩
    | cstring =>
      obtain ⟨rfl, hzero⟩ := Decoder.cstring_eq_some_iff.mp h
      exact ⟨a ++ [0], ⟨rfl, hzero⟩, by rw [List.append_assoc, List.singleton_append]⟩
    | bytes count =>
      obtain ⟨rfl, hlength⟩ := Decoder.take_eq_some_iff.mp h
      exact ⟨a, ⟨rfl, hlength⟩, rfl⟩
    | skip count =>
      obtain ⟨passed, hpassed, -⟩ := Decoder.map_eq_some_iff.mp h
      obtain ⟨rfl, hlength⟩ := Decoder.take_eq_some_iff.mp hpassed
      exact ⟨passed, hlength, rfl⟩
  · rintro ⟨front, hfront, rfl⟩
    exact hfront.reads rest

/-- Whether an operation takes `a` from the bytes of a section between two cursors of one region. -/
structure Takes (item : Item α) (data : Bytes) (c : Cursor) (a : α) (c' : Cursor) : Prop where
  position_le : c.position ≤ c'.position
  position_le_stop : c'.position ≤ c.stop
  stop_eq : c'.stop = c.stop
  spells : item.Spells (Span.slice ⟨c.position, c'.position⟩ data) a
  rest_eq : c'.rest = Span.slice ⟨c'.position, c'.stop⟩ data

end Item

/-! ## Cursors of a section -/

namespace Cursor

variable {α : Type} {data : Bytes} {c c' : Cursor}

/-- The cursors that come of a section: its start, a place in it, and what taking an item or narrowing
makes of a cursor that comes of it. An item that is not there leaves a cursor behind, too. -/
inductive Reached (data : Bytes) : Cursor → Prop where
  | start : Reached data (ofBytes data)
  | place {position : Nat} {c : Cursor} : at? data position = some c → Reached data c
  | take {α : Type} {item : Item α} {c c' : Cursor} {a : α} :
      Reached data c → read item.decoder c = .ok a c' → Reached data c'
  | miss {α : Type} {item : Item α} {c c' : Cursor} {e : DebugError} :
      Reached data c → read item.decoder c = .error e c' → Reached data c'
  | narrow {length : Nat} {c c' : Cursor} :
      Reached data c → c.bounded? length = some c' → Reached data c'

/-- Whether narrowing leaves `length` bytes of a section at the same place. -/
structure Narrows (data : Bytes) (c : Cursor) (length : Nat) (c' : Cursor) : Prop where
  position_eq : c'.position = c.position
  stop_eq : c'.stop = c.position + length
  stop_le : c'.stop ≤ c.stop
  rest_eq : c'.rest = Span.slice ⟨c'.position, c'.stop⟩ data

/-- Whether a cursor is a place in a section, and has the bytes from there up to its end. -/
structure Within (c : Cursor) (data : Bytes) : Prop where
  stop_le : c.stop ≤ data.length
  rest_eq : c.rest = Span.slice ⟨c.position, c.stop⟩ data

/-- The reader at a cursor of a section. -/
def reader (c : Cursor) (data : Bytes) : Reader := ⟨data, c.position, c.stop⟩

/-- A cursor is not past its end. -/
theorem position_le_stop (c : Cursor) : c.position ≤ c.stop := Nat.le_add_right _ _

/-- A cursor over all bytes is within them. -/
theorem within_ofBytes (data : Bytes) : (ofBytes data).Within data := by
  refine ⟨Nat.le_of_eq (Nat.zero_add _), ?_⟩
  simp [ofBytes, stop, Span.slice, Span.length]

/-- A cursor that is opened at a place is within the bytes. -/
theorem within_of_at? {position : Nat} (h : at? data position = some c) : c.Within data := by
  unfold at? at h
  split at h
  · rename_i hposition
    cases h
    have hstop : position + (data.drop position).length = data.length := by
      rw [List.length_drop, Nat.add_sub_cancel' hposition]
    refine ⟨Nat.le_of_eq hstop, ?_⟩
    show data.drop position = Span.slice ⟨position, position + (data.drop position).length⟩ data
    rw [Span.slice, Span.length, Nat.add_sub_cancel_left, List.take_length]
  · cases h

/-- An item is taken exactly if what is left starts with what spells it. -/
theorem read_eq_ok_iff {item : Item α} {a : α} : read item.decoder c = .ok a c' ↔
    ∃ front, item.Spells front a ∧ c.rest = front ++ c'.rest ∧
      c'.position = c.position + front.length := by
  unfold read
  constructor
  -- the source keeps only the bytes left, so the position is found from their lengths
  · intro h
    split at h
    · rename_i hdecodes
      cases h
      obtain ⟨front, hfront, hrest⟩ := item.decoder_eq_some_iff.mp hdecodes
      refine ⟨front, hfront, hrest, ?_⟩
      rw [hrest, List.length_append, Nat.add_sub_cancel]
    · cases h
  · rintro ⟨front, hfront, hrest, hposition⟩
    rw [item.decoder_eq_some_iff.mpr ⟨front, hfront, hrest⟩]
    dsimp only
    rw [hrest, List.length_append, Nat.add_sub_cancel, ← hposition]

namespace Within

/-- What a cursor has in front is a slice of the bytes. -/
theorem take_rest (h : c.Within data) {n : Nat} (hn : n ≤ c.rest.length) :
    c.rest.take n = Span.slice ⟨c.position, c.position + n⟩ data := by
  have hlength : n ≤ Span.length ⟨c.position, c.stop⟩ := by
    rw [Span.length, stop, Nat.add_sub_cancel_left]
    exact hn
  rw [h.rest_eq, Span.take_slice hlength]

/-- What a cursor leaves is a slice of the bytes. -/
theorem drop_rest (h : c.Within data) (n : Nat) :
    c.rest.drop n = Span.slice ⟨c.position + n, c.stop⟩ data := by
  rw [h.rest_eq, Span.drop_slice]

/-- An item is taken where its spelling stands in front. -/
theorem takes_iff (h : c.Within data) {item : Item α} {a : α} : item.Takes data c a c' ↔
    ∃ front, item.Spells front a ∧ c.rest = front ++ c'.rest ∧
      c'.position = c.position + front.length := by
  constructor
  -- in terms of the whole data: the item lies between the two positions and inside the region
  · intro htakes
    obtain ⟨n, hn⟩ := Nat.exists_eq_add_of_le htakes.position_le
    have hstop := htakes.position_le_stop
    have hfront := htakes.spells
    have hrest := htakes.rest_eq
    have hfit : n ≤ c.rest.length := by
      unfold stop at hstop
      omega
    rw [hn, ← h.take_rest hfit] at hfront
    rw [hn, htakes.stop_eq, ← h.drop_rest] at hrest
    refine ⟨_, hfront, ?_, ?_⟩
    · rw [hrest, List.take_append_drop]
    · rw [List.length_take_of_le hfit, hn]
  · rintro ⟨front, hfront, hrest, hposition⟩
    have hlength : c.rest.length = front.length + c'.rest.length := by
      rw [hrest, List.length_append]
    have hstop : c'.stop = c.stop := by
      rw [stop, stop, hlength, hposition, Nat.add_assoc]
    have htake := h.take_rest (hlength ▸ Nat.le_add_right _ _)
    have hdrop := h.drop_rest front.length
    rw [hrest, List.take_left] at htake
    rw [hrest, List.drop_left] at hdrop
    refine ⟨hposition ▸ Nat.le_add_right _ _, hstop ▸ c'.position_le_stop, hstop, ?_, ?_⟩
    · rwa [hposition, ← htake]
    · rw [hposition, hstop, hdrop]

/-- Taking an item, a cursor passes over the bytes that spell it, and stays in its region. -/
theorem read_eq_ok_iff (h : c.Within data) (item : Item α) {a : α} :
    read item.decoder c = .ok a c' ↔ item.Takes data c a c' := by
  rw [h.takes_iff, Cursor.read_eq_ok_iff]

/-- Without an item to be taken, a cursor stays where it is. -/
theorem read_eq_error_iff (h : c.Within data) (item : Item α) {e : DebugError} :
    read item.decoder c = .error e c' ↔
      e = .truncated ∧ c' = c ∧ ∀ a next, ¬ item.Takes data c a next := by
  simp only [← h.read_eq_ok_iff item]
  unfold read
  cases item.decoder c.rest with
  | none => simp [eq_comm]
  | some found => simp

/-- A cursor is bounded by narrowing it. -/
theorem bounded?_eq_some_iff (h : c.Within data) {length : Nat} :
    c.bounded? length = some c' ↔ c.Narrows data length c' := by
  rw [Cursor.bounded?_eq_some_iff]
  constructor
  · rintro ⟨hlength, rfl⟩
    have hstop : c.position + (c.rest.take length).length = c.position + length := by
      rw [List.length_take_of_le hlength]
    refine ⟨rfl, hstop, ?_, ?_⟩
    · show c.position + (c.rest.take length).length ≤ c.position + c.rest.length
      omega
    · show c.rest.take length = Span.slice ⟨_, c.position + (c.rest.take length).length⟩ data
      rw [hstop]
      exact h.take_rest hlength
  · intro hnarrows
    have hstop := hnarrows.stop_le
    have hrest := hnarrows.rest_eq
    rw [hnarrows.stop_eq, stop] at hstop
    have hlength : length ≤ c.rest.length := by omega
    rw [hnarrows.stop_eq, hnarrows.position_eq, ← h.take_rest hlength] at hrest
    refine ⟨hlength, ?_⟩
    rw [← hnarrows.position_eq, ← hrest]

/-- Taking an item stays within the bytes. -/
theorem of_takes (h : c.Within data) {item : Item α} {a : α} (htakes : item.Takes data c a c') :
    c'.Within data := ⟨htakes.stop_eq ▸ h.stop_le, htakes.rest_eq⟩

/-- Narrowing stays within the bytes. -/
theorem of_narrows (h : c.Within data) {length : Nat} (hnarrows : c.Narrows data length c') :
    c'.Within data := ⟨Nat.le_trans hnarrows.stop_le h.stop_le, hnarrows.rest_eq⟩

/-! ### Within bounds -/

/-- The reader at a cursor is within bounds. -/
theorem valid_reader (h : c.Within data) (hdata : data.length < 2 ^ 64) : (c.reader data).Valid :=
  ⟨c.position_le_stop, h.stop_le, Nat.lt_of_le_of_lt h.stop_le hdata⟩

/-- The reader at a cursor has left what the cursor has. -/
theorem rest_reader (h : c.Within data) : (c.reader data).rest = c.rest := h.rest_eq.symm

/-- The reader at a cursor is at the cursor. -/
theorem cursor_reader (h : c.Within data) : (c.reader data).cursor = c := by
  rw [Reader.cursor, h.rest_reader]
  rfl

/-- A reader does with the whole section what a cursor does with the bytes of its region. -/
theorem scan_eq (h : c.Within data) (hdata : data.length < 2 ^ 64) (item : Item α) :
    item.scan (c.reader data) = match read item.decoder c with
      | .ok a c' => pure (a, c'.reader data)
      | .error e _ => throw e := by
  -- the tracking lemma asks for it: an item never reads past what it has
  have hshorter : ∀ bytes a rest, item.decoder bytes = some (a, rest) →
      rest.length ≤ bytes.length := by
    intro bytes a rest hdecodes
    obtain ⟨front, -, rfl⟩ := item.decoder_eq_some_iff.mp hdecodes
    exact (List.suffix_append front rest).length_le
  have htracks := (item.decodes.tracks hshorter) (c.reader data) (h.valid_reader hdata)
  rw [h.cursor_reader, outcome] at htracks
  cases hread : read item.decoder c with
  | ok a c' =>
    rw [hread] at htracks
    obtain ⟨⟨_, r⟩, hscan, rfl, hleads, hcursor⟩ := htracks
    -- the two readers are equal field by field: same data, same end, same position
    have hreader : r = c'.reader data := by
      have hstop : r.stop = c'.stop :=
        hleads.stop_eq.trans ((h.read_eq_ok_iff item).mp hread).stop_eq.symm
      have hdata : r.data = data := hleads.data_eq
      have hposition : r.position = c'.position := congrArg Cursor.position hcursor
      rw [reader, ← hstop, ← hposition, ← hdata]
    rw [hscan, hreader]
  | error e c' =>
    rw [hread] at htracks
    exact htracks.eq_throw

/-- A reader is bounded as its cursor is. -/
theorem bounded_eq (h : c.Within data) (hdata : data.length < 2 ^ 64) (length : Nat) :
    (c.reader data).bounded length = match c.bounded? length with
      | some c' => pure (c'.reader data)
      | none => throw .truncated := by
  rw [(h.valid_reader hdata).bounded_eq, h.rest_reader, bounded?]
  by_cases hlength : length ≤ c.rest.length
  · rw [if_pos hlength, if_pos hlength]
    simp [reader, stop, List.length_take_of_le hlength]
  · rw [if_neg hlength, if_neg hlength]

end Within

/-- Every step from a section keeps to it. -/
theorem Reached.within (h : Reached data c) : c.Within data := by
  induction h with
  | start => exact within_ofBytes data
  | place hplace => exact within_of_at? hplace
  | take _ hread ih => exact ih.of_takes ((ih.read_eq_ok_iff _).mp hread)
  | miss _ hread ih =>
    obtain ⟨-, rfl, -⟩ := (ih.read_eq_error_iff _).mp hread
    exact ih
  | narrow _ hnarrow ih => exact ih.of_narrows (ih.bounded?_eq_some_iff.mp hnarrow)

/-- What is taken depends on the bytes left, wherever they are. -/
theorem read_congr {c₂ : Cursor} (hrest : c₂.rest = c.rest) (d : Decoder α) :
    read d c₂ = match read d c with
      | .ok a c' => .ok a ⟨c₂.position + (c'.position - c.position), c'.rest⟩
      | .error e _ => .error e c₂ := by
  unfold read
  rw [hrest]
  cases d c.rest with
  | none => rfl
  | some found =>
    dsimp only
    rw [Nat.add_sub_cancel_left]

/-- Whether a cursor of a section keeps to its region in whatever is done with it. -/
structure Confined (data : Bytes) (c : Cursor) : Prop extends c.Within data where
  position_le : c.position ≤ c.stop
  /-- It is narrowed to what its region has. -/
  bounded?_eq_some_iff (length : Nat) (c' : Cursor) :
    c.bounded? length = some c' ↔ c.Narrows data length c'
  /-- It passes over the bytes that spell an item, and over no others. -/
  read_eq_ok_iff {α : Type} (item : Item α) (a : α) (c' : Cursor) :
    read item.decoder c = .ok a c' ↔ item.Takes data c a c'
  /-- It does not move if no item is there. -/
  read_eq_error_iff {α : Type} (item : Item α) (e : DebugError) (c' : Cursor) :
    read item.decoder c = .error e c' ↔
      e = .truncated ∧ c' = c ∧ ∀ a next, ¬ item.Takes data c a next
  /-- The same bytes of another section, at whatever place, give the same item. -/
  read_congr {α : Type} (item : Item α) {other : Bytes} {c₂ : Cursor} : Reached other c₂ →
    Span.slice ⟨c₂.position, c₂.stop⟩ other = Span.slice ⟨c.position, c.stop⟩ data →
    read item.decoder c₂ = match read item.decoder c with
      | .ok a c' => .ok a ⟨c₂.position + (c'.position - c.position), c'.rest⟩
      | .error e _ => .error e c₂
  /-- With the whole section in view, a reader does the same and meets no fault. -/
  scan_eq {α : Type} (item : Item α) : data.length < 2 ^ 64 →
    item.scan (c.reader data) = match read item.decoder c with
      | .ok a c' => pure (a, c'.reader data)
      | .error e _ => throw e
  bounded_eq (length : Nat) : data.length < 2 ^ 64 →
    (c.reader data).bounded length = match c.bounded? length with
      | some c' => pure (c'.reader data)
      | none => throw .truncated

/-- Whatever has been taken, missed and narrowed since the start of a section or a place in it, a
cursor keeps to its region, and its region to the one it was narrowed from. -/
theorem Reached.confined (h : Reached data c) : c.Confined data where
  toWithin := h.within
  position_le := c.position_le_stop
  bounded?_eq_some_iff _ _ := h.within.bounded?_eq_some_iff
  read_eq_ok_iff item _ _ := h.within.read_eq_ok_iff item
  read_eq_error_iff item _ _ := h.within.read_eq_error_iff item
  read_congr item _ _ hother hsame := by
    apply Cursor.read_congr
    rw [hother.within.rest_eq, h.within.rest_eq, hsame]
  scan_eq item hdata := h.within.scan_eq hdata item
  bounded_eq length hdata := h.within.bounded_eq hdata length

/-- A region of two bytes behind a word, in which a number was looked for that goes on behind it. -/
theorem Reached.confined_cut_number :
    Reached [0xff, 0x34, 0x12, 0xe5, 0x8e, 0x26, 0x7f, 0x00] ⟨3, [0xe5, 0x8e]⟩ ∧
      Confined [0xff, 0x34, 0x12, 0xe5, 0x8e, 0x26, 0x7f, 0x00] ⟨3, [0xe5, 0x8e]⟩ := by
  have hplace : Reached [0xff, 0x34, 0x12, 0xe5, 0x8e, 0x26, 0x7f, 0x00]
      ⟨1, [0x34, 0x12, 0xe5, 0x8e, 0x26, 0x7f, 0x00]⟩ :=
    .place (show at? _ 1 = some _ from rfl)
  have hword : Reached _ ⟨3, [0xe5, 0x8e, 0x26, 0x7f, 0x00]⟩ :=
    hplace.take (show read Item.word16.decoder _ = .ok 0x1234 _ from rfl)
  have hnarrow : Reached _ ⟨3, [0xe5, 0x8e]⟩ :=
    hword.narrow (show bounded? _ 2 = some _ from rfl)
  have hmiss : Reached _ ⟨3, [0xe5, 0x8e]⟩ :=
    hnarrow.miss (show read Item.unsigned.decoder _ = .error .truncated _ from rfl)
  exact ⟨hmiss, hmiss.confined⟩

end Cursor

end DwarfLines
