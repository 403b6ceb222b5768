import DwarfLines.Leb128
import DwarfLines.Proofs.Guarded.Basic
import DwarfLines.Proofs.Info.CompileUnit

/-!
# Reading within bounds

A reader is a place in a section, which it keeps whole, and an offset up to which it may read. What it
reads is a range of the section, so each reading is an occasion for the range not to be there. A scan
is a guarded computation that reads. It *decodes* if it does what a decoder does with the bytes up to
that offset, and it *tracks* a reading if it keeps to the cursor of that reading as well.
-/

namespace DwarfLines

open Guarded

/-- A place in a section, and the offset up to which may be read from there. -/
structure Reader where
  data : Bytes
  position : Nat
  stop : Nat

namespace Reader

/-- The start of a section, which may be read to its end. -/
def ofBytes (data : Bytes) : Reader := ⟨data, 0, data.length⟩

/-- The place at `position`, unless it lies past the end. -/
def openAt (data : Bytes) (position : Nat) : Guarded DebugError Reader :=
  if data.length < position then throw .truncated else return ⟨data, position, data.length⟩

/-- The same place with `length` bytes to be read, unless fewer remain. An offset that does not fit
64 bits is past the end. -/
def bounded (r : Reader) (length : Nat) : Guarded DebugError Reader :=
  if 2 ^ 64 ≤ r.position + length ∨ r.stop < r.position + length then throw .truncated
  else return { r with stop := r.position + length }

/-- The number of bytes left. -/
def remaining (r : Reader) : Nat := r.stop - r.position

/-- The bytes left. -/
def rest (r : Reader) : Bytes := Span.slice ⟨r.position, r.stop⟩ r.data

/-- The cursor at the same place. -/
def cursor (r : Reader) : Cursor := ⟨r.position, r.rest⟩

/-- Whether the bytes left are all there. -/
structure Valid (r : Reader) : Prop where
  position_le : r.position ≤ r.stop
  stop_le : r.stop ≤ r.data.length
  stop_lt : r.stop < 2 ^ 64

/-- Whether reading on from `r` may lead to `r'`, with the bytes `rest` left. -/
structure Leads (r r' : Reader) (rest : Bytes) : Prop where
  valid : r'.Valid
  data_eq : r'.data = r.data
  stop_eq : r'.stop = r.stop
  rest_eq : r'.rest = rest

end Reader

/-- A guarded computation that reads. -/
abbrev Scan := StateT Reader (Guarded DebugError)

namespace Scan

/-! ## Bytes, words and strings -/

/-- The next `count` bytes. -/
def bytes (count : Nat) : Scan Bytes := fun r => do
  if r.remaining < count then throw .truncated
  let position ← add 64 r.position count
  let found ← slice r.data r.position position
  return (found, { r with position })

/-- Does something that reads nothing. -/
def lift {α : Type} (x : Guarded DebugError α) : Scan α := fun r => do return (← x, r)

/-- The next byte. -/
def byte : Scan UInt8 := do lift (nth (← bytes 1) 0)

/-- A 16-bit word, low byte first. -/
def word16 : Scan UInt16 := do lift (UInt16.ofNat <$> digits (← bytes 2) 2)

/-- A 32-bit word, low byte first. -/
def word32 : Scan UInt32 := do lift (UInt32.ofNat <$> digits (← bytes 4) 4)

/-- The bytes before the next zero byte, which is taken too. -/
def cstring : Scan Bytes := fun r => do
  let rest ← slice r.data r.position r.stop
  match rest.findIdx? (· = 0) with
  | none => throw .truncated
  | some length =>
    let position ← add 64 r.position (← add 64 length 1)
    return (← slice rest 0 length, { r with position })

/-! ## Numbers in groups of seven bits -/

/-- The bytes of the number that stands in front, up to the first one below `0x80`. -/
def groups (bytes : Bytes) : Guarded DebugError (Option Bytes) :=
  match (bytes.take Leb128.maxLength).findIdx? (· < 0x80) with
  | none => return none
  | some last => do
    let stop ← add 64 last 1
    return some (← slice bytes 0 stop)

/-- Takes the bytes of a number, and makes something of them. -/
def number {α : Type} (value : Bytes → Guarded DebugError (Option α)) : Scan α := fun r => do
  let some found ← groups (← slice r.data r.position r.stop) | throw .truncated
  let some a ← value found | throw .truncated
  let position ← add 64 r.position found.length
  return (a, { r with position })

/-- Reads an unsigned number below `2 ^ 64`. -/
def unsigned : Scan Nat := number fun found =>
  return if Leb128.payload found < UInt64.size then some (Leb128.payload found) else none

/-- Reads a signed number, reduced to 64 bits. Its sign is in the last byte. -/
def signed : Scan Int := number fun found => do
  let _sign ← nth found (← sub found.length 1)
  return some ((Leb128.signedPayload found).bmod UInt64.size)

/-! ## Tables -/

/-- The items up to the one that is none. -/
def table {α : Type} (item : Scan (Option α)) : Scan (List α) := fun r =>
  loop (fun (found, r) => do
    match ← item r with
    | (none, r) => return .inr (found, r)
    | (some a, r) => return .inl (found ++ [a], r)) (r.remaining + 1) ([], r)

end Scan

/-! ## Readers -/

namespace Reader

variable {r r' r'' : Reader} {rest : Bytes}

/-- A reader of a section that fits the memory is within bounds. -/
theorem valid_ofBytes {data : Bytes} (h : data.length < 2 ^ 64) : (ofBytes data).Valid :=
  ⟨Nat.zero_le _, Nat.le_refl _, h⟩

/-- A reader starts with all bytes before it. -/
theorem rest_ofBytes (data : Bytes) : (ofBytes data).rest = data := by
  simp [rest, ofBytes, Span.slice, Span.length]

/-- What a reader has left is as long as it says. -/
theorem Valid.length_rest (h : r.Valid) : r.rest.length = r.remaining := Span.length_slice h.stop_le

/-- The slice that a reader has left is within the section. -/
theorem Valid.slice_eq (h : r.Valid) :
    (slice r.data r.position r.stop : Guarded DebugError Bytes) = pure r.rest :=
  Guarded.slice_eq h.position_le h.stop_le

/-- Taking some of the bytes left. -/
theorem Valid.advance (h : r.Valid) {n : Nat} (hn : n ≤ r.rest.length) :
    r.Leads { r with position := r.position + n } (r.rest.drop n) := by
  have hlength := h.length_rest
  have hposition := h.position_le
  rw [remaining] at hlength
  refine ⟨⟨?_, h.stop_le, h.stop_lt⟩, rfl, rfl, ?_⟩
  · show r.position + n ≤ r.stop
    omega
  · simp only [Reader.rest, Span.slice, Span.length, List.drop_take, List.drop_drop, Nat.sub_sub]

/-- A place that is still in the section fits 64 bits. -/
theorem Valid.position_add_lt (h : r.Valid) {n : Nat} (hn : n ≤ r.rest.length) :
    r.position + n < 2 ^ 64 := by
  have hlength := h.length_rest
  have hstop := h.stop_lt
  have hposition := h.position_le
  rw [remaining] at hlength
  omega

/-- One read after the other leads on. -/
theorem Leads.trans (h : r.Leads r' rest) {rest' : Bytes} (h' : r'.Leads r'' rest') :
    r.Leads r'' rest' :=
  ⟨h'.valid, h'.data_eq.trans h.data_eq, h'.stop_eq.trans h.stop_eq, h'.rest_eq⟩

/-- A reader leads to itself. -/
theorem Valid.leads (h : r.Valid) : r.Leads r r.rest := ⟨h, rfl, rfl, rfl⟩

/-- A reader that was led on has so much left as it leaves. -/
theorem Leads.remaining_eq (h : r.Leads r' rest) : r'.remaining = rest.length := by
  rw [← h.rest_eq, h.valid.length_rest]

/-- Where the reader is follows from what is left. -/
theorem Leads.position_eq (h : r.Leads r' rest) : r'.position = r.stop - rest.length := by
  have hremaining := h.remaining_eq
  have hposition := h.valid.position_le
  rw [remaining] at hremaining
  rw [← h.stop_eq]
  omega

/-- The cursor of a reader that was led on has moved by what was read. -/
theorem Leads.cursor_eq (h : r.Leads r' rest) (hr : r.Valid) (hrest : rest.length ≤ r.rest.length) :
    r'.cursor = ⟨r.position + (r.rest.length - rest.length), rest⟩ := by
  have hlength := hr.length_rest
  have hposition := hr.position_le
  rw [cursor, h.position_eq, h.rest_eq]
  rw [remaining] at hlength
  congr 1
  omega

/-- A reader is opened at a place exactly if the place is in the section. -/
theorem agrees_openAt {data : Bytes} (hdata : data.length < 2 ^ 64) (position : Nat) :
    Agrees (fun r c => r.Valid ∧ r.data = data ∧ r.cursor = c) (openAt data position)
      (orTruncated (Cursor.at? data position)) := by
  unfold openAt Cursor.at?
  by_cases h : position ≤ data.length
  · rw [if_neg (by omega), if_pos h]
    refine .pure ⟨⟨h, Nat.le_refl _, hdata⟩, rfl, ?_⟩
    simp only [cursor, Reader.rest, Span.slice, Span.length, Cursor.mk.injEq, true_and]
    exact List.take_of_length_le (Nat.le_of_eq List.length_drop)
  · rw [if_pos (by omega), if_neg h]
    exact .throw _

/-- A bound is set exactly if there are so many bytes left. -/
theorem Valid.bounded_eq (h : r.Valid) (length : Nat) : r.bounded length =
    if length ≤ r.rest.length then pure { r with stop := r.position + length }
    else throw .truncated := by
  have hlength := h.length_rest
  have hposition := h.position_le
  have hstop := h.stop_lt
  rw [remaining] at hlength
  unfold bounded
  by_cases hle : length ≤ r.rest.length
  · rw [if_neg (by omega), if_pos hle]
  · rw [if_pos (by omega), if_neg hle]

/-- Less may be read than there is. -/
theorem Valid.narrow (h : r.Valid) {length : Nat} (hlength : length ≤ r.rest.length) :
    Valid { r with stop := r.position + length } ∧
      Reader.rest { r with stop := r.position + length } = r.rest.take length := by
  have hrest := h.length_rest
  have hstop := h.stop_le
  have hlt := h.position_add_lt hlength
  have hposition := h.position_le
  rw [remaining] at hrest
  refine ⟨⟨Nat.le_add_right _ _, ?_, hlt⟩, ?_⟩
  · dsimp only
    omega
  · simp only [Reader.rest, Span.slice, Span.length, List.take_take]
    congr 1
    omega

/-- A reader up to a bound reads what is taken off in front. -/
theorem Valid.agrees_bounded (h : r.Valid) (length : Nat) :
    Agrees (fun r' q => r'.Valid ∧ r' = { r with stop := r.position + length } ∧ r'.rest = q.1)
      (r.bounded length) (orTruncated (Decoder.take length r.rest)) := by
  rw [h.bounded_eq, Decoder.take_eq]
  by_cases hlength : length ≤ r.rest.length
  · rw [if_pos hlength, if_pos hlength]
    exact .pure ⟨(h.narrow hlength).1, rfl, (h.narrow hlength).2⟩
  · rw [if_neg hlength, if_neg hlength]
    exact .throw _

end Reader

/-! ## Scans that decode -/

namespace Scan

variable {α β : Type}

/-- Whether a scan stops at no fault and does what a decoder does. -/
def Decodes (scan : Scan α) (d : Decoder α) : Prop := ∀ r : Reader, r.Valid →
  Agrees (fun p q => p.1 = q.1 ∧ r.Leads p.2 q.2) (scan r) (orTruncated (d r.rest))

/-- What runs past the end in the first part is truncated as well. -/
theorem orTruncated_bind (o : Option α) (f : α → Option β) :
    orTruncated (o.bind f) = orTruncated o >>= fun a => orTruncated (f a) := by
  cases o <;> rfl

/-- What is made of a value is truncated if the value is. -/
theorem orTruncated_map (o : Option α) (f : α → β) :
    orTruncated (o.map f) = orTruncated o >>= fun a => pure (f a) := by
  cases o <;> rfl

namespace Decodes

variable {scan : Scan α} {d : Decoder α}

/-- What follows a scan goes on where the scan ends. -/
theorem agrees_bind {γ δ : Type} {S : γ → δ → Prop} {r : Reader}
    {f : α × Reader → Guarded DebugError γ} {g : α × Bytes → Except DebugError δ}
    (h : scan.Decodes d) (hr : r.Valid)
    (hf : ∀ a r', r'.Valid → r'.data = r.data → r'.stop = r.stop → d r.rest = some (a, r'.rest) →
      Agrees S (f (a, r')) (g (a, r'.rest))) :
    Agrees S (scan r >>= f) (orTruncated (d r.rest) >>= g) := by
  refine (h r hr).bind ?_
  rintro ⟨a, r'⟩ ⟨_, _⟩ hq ⟨rfl, hr', hdata, hstop, rfl⟩
  exact hf a r' hr' hdata hstop (Outcome.orTruncated_eq_ok_iff.mp hq)

/-- A value that takes no bytes is scanned as it is decoded. -/
theorem pure (a : α) : Decodes (Pure.pure a) (Pure.pure a) :=
  fun _ hr => .pure ⟨rfl, hr.leads⟩

/-- Two parts are scanned as they are decoded, one behind the other. -/
theorem bind (h : scan.Decodes d) {f : α → Scan β} {g : α → Decoder β}
    (hf : ∀ a, (f a).Decodes (g a)) : (scan >>= f).Decodes (d >>= g) := by
  intro r hr
  show Agrees _ (scan r >>= fun p => f p.1 p.2)
    (orTruncated ((d r.rest).bind fun q => g q.1 q.2))
  rw [orTruncated_bind]
  refine (h r hr).bind fun p q _ hpq => ?_
  obtain ⟨hvalue, hleads⟩ := hpq
  rw [← hvalue, ← hleads.rest_eq]
  exact (hf p.1 p.2 hleads.valid).mono fun _ _ _ hpq' => ⟨hpq'.1, hleads.trans hpq'.2⟩

/-- What is made of a value is scanned as it is decoded. -/
theorem map (h : scan.Decodes d) (f : α → β) : (f <$> scan).Decodes (f <$> d) := by
  rw [← bind_pure_comp, ← bind_pure_comp]
  exact h.bind fun a => .pure (f a)

/-- Both may branch alike. -/
theorem ite {c : Prop} [Decidable c] {scan' : Scan α} {d' : Decoder α} (h : c → scan.Decodes d)
    (h' : ¬ c → scan'.Decodes d') : (if c then scan else scan').Decodes (if c then d else d') := by
  split
  · exact h ‹_›
  · exact h' ‹_›

/-- A guard that holds does not matter. -/
theorem lift {x : Guarded DebugError β} {b : β} (hx : x = Pure.pure b) {f : β → Scan α}
    (h : (f b).Decodes d) : (Scan.lift x >>= f).Decodes d := by
  subst hx
  exact h

end Decodes

/-- A decoder of values of one size says how far a reader goes. -/
theorem position_of_takes {r r' : Reader} {d : Decoder α} {n : Nat} {a : α} (hd : d.Takes n)
    (hr : r.Valid) (hr' : r'.Valid) (hstop : r'.stop = r.stop) (h : d r.rest = some (a, r'.rest)) :
    r'.position = r.position + n := by
  have htakes := hd _ _ _ h
  have hposition := hr.position_le
  have hposition' := hr'.position_le
  rw [hr.length_rest, hr'.length_rest, Reader.remaining, Reader.remaining] at htakes
  omega

/-! ### Bytes, words and strings -/

/-- Some bytes are scanned as they are taken. -/
theorem decodes_bytes (count : Nat) : (bytes count).Decodes (Decoder.take count) := by
  intro r hr
  have hlength := hr.length_rest
  unfold bytes
  rw [Decoder.take_eq]
  -- the source compares before it cuts, so the cut never fails
  by_cases h : count ≤ r.rest.length
  · rw [if_neg (by omega), if_pos h, add_eq (hr.position_add_lt h)]
    have hstop := hr.stop_le
    have hadvance := hr.advance h
    have hposition := hadvance.valid.position_le
    simp only [pure_bind]
    rw [slice_eq (Nat.le_add_right _ _) (Nat.le_trans hposition hstop), pure_bind]
    refine .pure ⟨?_, hadvance⟩
    rw [Reader.remaining] at hlength
    simp only [Reader.rest, Span.slice, Span.length, List.take_take]
    congr 1
    omega
  · rw [if_pos (by omega), if_neg h]
    exact .throw _

/-- A value made of a known number of bytes. -/
theorem decodes_of_take {n : Nat} {f : Bytes → Guarded DebugError α} {g : Bytes → α}
    (hf : ∀ found : Bytes, found.length = n → f found = Pure.pure (g found)) :
    (bytes n >>= fun found => lift (f found)).Decodes
      (Decoder.take n >>= fun found => Pure.pure (g found)) := by
  intro r hr
  show Agrees _ (bytes n r >>= fun p => f p.1 >>= fun a => Pure.pure (a, p.2))
    (orTruncated ((Decoder.take n r.rest).bind fun q => some (g q.1, q.2)))
  rw [orTruncated_bind]
  refine (decodes_bytes n r hr).bind fun p q hq hpq => ?_
  obtain ⟨hvalue, hleads⟩ := hpq
  have hlength := (Decoder.take_eq_some_iff.mp (Outcome.orTruncated_eq_ok_iff.mp hq)).2
  rw [hvalue, hf q.1 hlength, pure_bind]
  exact .pure ⟨rfl, hleads⟩

/-- A byte is scanned as it is decoded. -/
theorem decodes_byte : byte.Decodes Decoder.byte := by
  have h := decodes_of_take (f := fun found => nth found 0) (g := fun found => found.headD 0)
    (n := 1) fun found hfound => by
      obtain ⟨b, rfl⟩ := List.length_eq_one_iff.mp hfound
      rfl
  have htake : Decoder.byte = (Decoder.take 1 >>= fun found => Pure.pure (found.headD 0)) := by
    funext bytes
    cases bytes <;> rfl
  rw [htake]
  exact h

/-- A word of 16 bits is scanned as it is decoded. -/
theorem decodes_word16 : word16.Decodes Decoder.word16 :=
  decodes_of_take fun found hfound => by
    rw [digits_eq (Nat.le_of_eq hfound.symm), List.take_of_length_le (Nat.le_of_eq hfound),
      map_pure]

/-- A word of 32 bits is scanned as it is decoded. -/
theorem decodes_word32 : word32.Decodes Decoder.word32 :=
  decodes_of_take fun found hfound => by
    rw [digits_eq (Nat.le_of_eq hfound.symm), List.take_of_length_le (Nat.le_of_eq hfound),
      map_pure]

/-- The string that a zero byte ends is found by looking for the byte. -/
theorem cstring_eq (bytes : Bytes) : Decoder.cstring bytes =
    (bytes.findIdx? (· = 0)).map fun length => (bytes.take length, bytes.drop (length + 1)) := by
  induction bytes with
  | nil => rfl
  | cons b bytes ih =>
    rw [Decoder.cstring, List.findIdx?_cons]
    by_cases hb : b = 0
    · simp [hb]
    · simp only [hb, if_false, ih, decide_false, Bool.false_eq_true, Option.map_map]
      rfl

/-- A name is scanned up to the zero that ends it. -/
theorem decodes_cstring : cstring.Decodes Decoder.cstring := by
  intro r hr
  unfold cstring
  rw [hr.slice_eq, pure_bind, cstring_eq]
  cases hfind : r.rest.findIdx? (· = 0) with
  | none => exact .throw _
  | some length =>
    obtain ⟨hlength, -⟩ := List.findIdx?_eq_some_iff_findIdx_eq.mp hfind
    have hposition := hr.position_add_lt hlength
    simp only [Option.map_some]
    rw [add_eq (by omega), pure_bind, add_eq hposition, pure_bind,
      slice_eq (Nat.zero_le _) (Nat.le_of_lt hlength), pure_bind]
    refine .pure ⟨?_, hr.advance hlength⟩
    simp [Span.slice, Span.length]

/-! ### Numbers in groups of seven bits -/

/-- The groups of a number are found without leaving the bytes. -/
theorem groups_agrees (bytes : Bytes) :
    groups bytes = pure ((Leb128.groups Leb128.maxLength bytes).map Prod.fst) := by
  rw [groups, Leb128.groups_eq]
  cases hfind : (bytes.take Leb128.maxLength).findIdx? (· < 0x80) with
  | none => rfl
  | some last =>
    obtain ⟨hlast, -⟩ := List.findIdx?_eq_some_iff_findIdx_eq.mp hfind
    rw [List.length_take] at hlast
    have hmax : Leb128.maxLength = 10 := rfl
    simp only [Option.map_some]
    rw [add_eq (by omega), pure_bind, slice_eq (Nat.zero_le _) (by omega), pure_bind]
    simp [Span.slice, Span.length]

/-- A number is read if something is made of its groups. -/
theorem decodes_number {value : Bytes → Guarded DebugError (Option α)} (d : Bytes → Option α)
    (hvalue : ∀ found : Bytes, found ≠ [] → value found = Pure.pure (d found)) :
    (number value).Decodes (Leb128.groups Leb128.maxLength >>= fun found => liftM (d found)) := by
  intro r hr
  show Agrees _ _ (orTruncated ((Leb128.groups Leb128.maxLength r.rest).bind fun q =>
    (d q.1).bind fun a => some (a, q.2)))
  unfold number
  rw [hr.slice_eq, pure_bind, groups_agrees, pure_bind]
  cases hgroups : Leb128.groups Leb128.maxLength r.rest with
  | none => exact .throw _
  | some q =>
    obtain ⟨found, rest⟩ := q
    obtain ⟨hrest, hisGroups, -⟩ := Leb128.isGroups_of_groups hgroups
    -- the groups are the front of what is left, so the reader moves by their number
    have hlength : found.length ≤ r.rest.length := by
      rw [hrest, List.length_append]
      exact Nat.le_add_right _ _
    have hdrop : r.rest.drop found.length = rest := by
      rw [hrest, List.drop_left]
    simp only [Option.map_some, Option.bind_some]
    rw [hvalue found hisGroups.ne_nil, pure_bind]
    cases hd : d found with
    | none => exact .throw _
    | some a =>
      simp only [Option.bind_some]
      rw [add_eq (hr.position_add_lt hlength), pure_bind, ← hdrop]
      exact .pure ⟨rfl, hr.advance hlength⟩

/-- An unsigned number is scanned as it is decoded. -/
theorem decodes_unsigned : unsigned.Decodes Leb128.unsigned := by
  have h : unsigned.Decodes _ := decodes_number (fun found =>
    if Leb128.payload found < UInt64.size then some (Leb128.payload found) else none) fun _ _ => rfl
  have hunsigned : Leb128.unsigned = (Leb128.groups Leb128.maxLength >>= fun found => liftM
      (if Leb128.payload found < UInt64.size then some (Leb128.payload found) else none)) := by
    unfold Leb128.unsigned
    congr 1
    funext found
    dsimp only
    split <;> rfl
  rw [hunsigned]
  exact h

/-- A signed number is scanned as it is decoded. -/
theorem decodes_signed : signed.Decodes Leb128.signed :=
  decodes_number (fun found => some ((Leb128.signedPayload found).bmod UInt64.size))
    fun found hfound => by
      have hlength := List.length_pos_iff.mpr hfound
      rw [sub_eq hlength, pure_bind,
        nth_eq (List.getElem?_eq_getElem (Nat.sub_lt hlength Nat.one_pos)), pure_bind]

/-! ### Tables -/

/-- Items are read one by one up to the mark that ends them. -/
theorem items_eq {item : Decoder (Option α)} {shortens : item.Shortens} (bytes : Bytes) :
    Decoder.items item shortens bytes = match item bytes with
      | none => ([], none)
      | some (none, rest) => ([], some rest)
      | some (some a, rest) =>
        (a :: (Decoder.items item shortens rest).1, (Decoder.items item shortens rest).2) := by
  rw [Decoder.items]
  split <;> rename_i hitem <;> rw [hitem]

/-- A table is its first item and the table behind it, unless the first item is none. -/
theorem table_eq {item : Decoder (Option α)} {shortens : item.Shortens} (bytes : Bytes) :
    Decoder.table item shortens bytes = (item bytes).bind fun
      | (none, rest) => some ([], rest)
      | (some a, rest) =>
        (Decoder.table item shortens rest).map fun (found, rest) => (a :: found, rest) := by
  simp only [Decoder.table, items_eq bytes]
  rcases item bytes with _ | ⟨_ | a, rest⟩
  · rfl
  · rfl
  · dsimp only [Option.bind_some]
    rcases Decoder.items item shortens rest with ⟨found, _ | after⟩ <;> rfl

/-- A table is scanned as it is decoded, within as many rounds as there are bytes. -/
theorem Decodes.table {item : Scan (Option α)} {d : Decoder (Option α)} (h : item.Decodes d)
    (shortens : d.Shortens) : (table item).Decodes (Decoder.table d shortens) := by
  intro r hr
  refine loop_induction (P := fun (s : List α × Reader) x => s.2.Valid →
      Agrees (fun (p : List α × Reader) q => p.1 = s.1 ++ q.1 ∧ s.2.Leads p.2 q.2) x
        (orTruncated (Decoder.table d shortens s.2.rest)))
    (fun s => s.2.remaining) (fun (front, r) next ih hr => ?_) ([], r) (Nat.lt_succ_self _) hr
  dsimp only at ih hr ⊢
  rw [table_eq, orTruncated_bind, bind_assoc]
  refine (h r hr).bind fun p q hq hpq => ?_
  obtain ⟨a?, r'⟩ := p
  obtain ⟨_, rest⟩ := q
  obtain ⟨rfl, hleads⟩ := hpq
  cases a? with
  | none =>
    exact .pure ⟨(List.append_nil _).symm, hleads⟩
  -- an item was found, so less is left for the rest of the table
  | some a =>
    have hshorter := shortens _ _ _ (Outcome.orTruncated_eq_ok_iff.mp hq)
    dsimp only at hleads
    rw [hr.length_rest, ← hleads.remaining_eq] at hshorter
    have htail := ih (front ++ [a], r') hshorter hleads.valid
    rw [hleads.rest_eq] at htail
    dsimp only
    rw [pure_bind, orTruncated_map, bind_pure_comp]
    exact htail.map_right fun p q _ h => ⟨by simpa using h.1, hleads.trans h.2⟩

end Scan

end DwarfLines
