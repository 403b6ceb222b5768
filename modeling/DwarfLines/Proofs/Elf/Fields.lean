import DwarfLines.Proofs.Elf.Tables

/-!
# Fields in their places

The format gives each field its place: the fields of the header are at offsets from the start of the
file, those of an entry at offsets from the start of the entry, and the entries of a table follow one
another. What the decoders take off the front of a file, one after the other, is what stands in these
places.
-/

namespace DwarfLines.Elf

/-! ## Words -/

/-- The 16-bit word that stands at an offset. -/
def storedWord16 (bytes : Bytes) (offset : Nat) : UInt16 :=
  UInt16.ofNat (decodeLittleEndian (Span.slice ⟨offset, offset + 2⟩ bytes))

/-- The 32-bit word that stands at an offset. -/
def storedWord32 (bytes : Bytes) (offset : Nat) : UInt32 :=
  UInt32.ofNat (decodeLittleEndian (Span.slice ⟨offset, offset + 4⟩ bytes))

section Words

variable {α β : Type}

/-- Whether a decoder finds `a` in the bytes from `start` up to `stop`. -/
def FoundAt (bytes : Bytes) (d : Decoder α) (start : Nat) (a : α) (stop : Nat) : Prop :=
  d (bytes.drop start) = some (a, bytes.drop stop)

variable {bytes : Bytes} {d : Decoder α} {start middle stop : Nat} {a : α} {b : β}

/-- A constant is found anywhere and takes no bytes. -/
theorem FoundAt.pure (bytes : Bytes) (start : Nat) (a : α) :
    FoundAt bytes (Pure.pure a) start a start := rfl

/-- What is found one after the other is found in sequence. -/
theorem FoundAt.bind {f : α → Decoder β} (h : FoundAt bytes d start a middle)
    (hf : FoundAt bytes (f a) middle b stop) : FoundAt bytes (d >>= f) start b stop :=
  Decoder.bind_eq_some_iff.mpr ⟨a, _, h, hf⟩

/-- Bytes inside the image are found as they stand. -/
theorem foundAt_take {offset n : Nat} (h : offset + n ≤ bytes.length) :
    FoundAt bytes (Decoder.take n) offset (Span.slice ⟨offset, offset + n⟩ bytes) (offset + n) := by
  rw [FoundAt, Decoder.take_eq, if_pos (by rw [List.length_drop]; omega), List.drop_drop,
    Span.slice, Span.length, Nat.add_sub_cancel_left]

/-- A half word inside the image is found at its place. -/
theorem foundAt_word16 {offset : Nat} (h : offset + 2 ≤ bytes.length) :
    FoundAt bytes Decoder.word16 offset (storedWord16 bytes offset) (offset + 2) :=
  (foundAt_take h).bind (.pure _ _ _)

/-- A word inside the image is found at its place. -/
theorem foundAt_word32 {offset : Nat} (h : offset + 4 ≤ bytes.length) :
    FoundAt bytes Decoder.word32 offset (storedWord32 bytes offset) (offset + 4) :=
  (foundAt_take h).bind (.pure _ _ _)

end Words

/-! ## Headers and entries -/

/-- The fields of the header that a file starts with. -/
def FileHeader.stored (data : Bytes) : FileHeader where
  type := storedWord16 data 16
  machine := storedWord16 data 18
  entry := storedWord32 data 24
  segmentOffset := storedWord32 data 28
  sectionOffset := storedWord32 data sectionOffsetField
  headerSize := storedWord16 data 40
  segmentSize := storedWord16 data 42
  segmentCount := storedWord16 data 44
  sectionSize := storedWord16 data 46
  sectionCount := storedWord16 data 48
  nameSection := storedWord16 data 50

/-- The fields of the entry of a table of sections that some bytes start with. -/
def SectionHeader.stored (bytes : Bytes) : SectionHeader where
  name := storedWord32 bytes 0
  type := storedWord32 bytes 4
  flags := storedWord32 bytes 8
  address := storedWord32 bytes 12
  offset := storedWord32 bytes 16
  size := storedWord32 bytes 20
  link := storedWord32 bytes 24
  info := storedWord32 bytes 28
  addressAlignment := storedWord32 bytes 32
  entrySize := storedWord32 bytes 36

/-- The fields of the entry of a table of segments that some bytes start with. -/
def Segment.stored (bytes : Bytes) : Segment where
  type := storedWord32 bytes 0
  offset := storedWord32 bytes 4
  virtualAddress := storedWord32 bytes 8
  physicalAddress := storedWord32 bytes 12
  fileSize := storedWord32 bytes 16
  memorySize := storedWord32 bytes 20
  flags := storedWord32 bytes 24
  alignment := storedWord32 bytes 28

/-- The file header takes its fixed size. -/
theorem FileHeader.takes_decode : decode.Takes Part.fileHeader.size := by
  have half := Decoder.takes_word16
  have word := Decoder.takes_word32
  exact (Decoder.takes_take 16).bind fun _ => half.bind fun _ => half.bind fun _ =>
    word.bind fun _ => word.bind fun _ => word.bind fun _ => word.bind fun _ =>
    word.bind fun _ => half.bind fun _ =>
    half.bind fun _ => half.bind fun _ => half.bind fun _ => half.bind fun _ => half.bind fun _ =>
    .pure _

/-- A long enough image starts with a file header, whose fields stand at their offsets. -/
theorem FileHeader.decode_of_le {data : Bytes} (h : Part.fileHeader.size ≤ data.length) :
    decode data = some (stored data, data.drop Part.fileHeader.size) := by
  have half (offset : Nat) (hoffset : offset + 2 ≤ Part.fileHeader.size) :=
    foundAt_word16 (Nat.le_trans hoffset h)
  have word (offset : Nat) (hoffset : offset + 4 ≤ Part.fileHeader.size) :=
    foundAt_word32 (Nat.le_trans hoffset h)
  have identification : FoundAt data (Decoder.take 16) 0 _ 16 :=
    foundAt_take (Nat.le_trans (by decide) h)
  exact identification.bind <| (half 16 (by decide)).bind <| (half 18 (by decide)).bind <|
    (word 20 (by decide)).bind <| (word 24 (by decide)).bind <| (word 28 (by decide)).bind <|
    (word 32 (by decide)).bind <| (word 36 (by decide)).bind <| (half 40 (by decide)).bind <|
    (half 42 (by decide)).bind <| (half 44 (by decide)).bind <| (half 46 (by decide)).bind <|
    (half 48 (by decide)).bind <| (half 50 (by decide)).bind <| .pure data 52 (stored data)

/-- A shorter image has none. -/
theorem FileHeader.decode_of_lt {data : Bytes} (h : data.length < Part.fileHeader.size) :
    decode data = none := by
  cases hdecode : decode data with
  | none => rfl
  | some found =>
    have := takes_decode data found.1 found.2 hdecode
    omega

/-- Long enough bytes start with a section header, whose fields stand at their offsets. -/
theorem SectionHeader.decode_of_le {bytes : Bytes} (h : Part.section.size ≤ bytes.length) :
    decode bytes = some (stored bytes, bytes.drop Part.section.size) := by
  have word (offset : Nat) (hoffset : offset + 4 ≤ Part.section.size) :=
    foundAt_word32 (Nat.le_trans hoffset h)
  have first : FoundAt bytes Decoder.word32 0 (storedWord32 bytes 0) 4 := word 0 (by decide)
  exact first.bind <| (word 4 (by decide)).bind <| (word 8 (by decide)).bind <|
    (word 12 (by decide)).bind <| (word 16 (by decide)).bind <| (word 20 (by decide)).bind <|
    (word 24 (by decide)).bind <| (word 28 (by decide)).bind <| (word 32 (by decide)).bind <|
    (word 36 (by decide)).bind <| .pure bytes 40 (stored bytes)

/-- Long enough bytes start with a segment header, whose fields stand at their offsets. -/
theorem Segment.decode_of_le {bytes : Bytes} (h : Part.segment.size ≤ bytes.length) :
    decode bytes = some (stored bytes, bytes.drop Part.segment.size) := by
  have word (offset : Nat) (hoffset : offset + 4 ≤ Part.segment.size) :=
    foundAt_word32 (Nat.le_trans hoffset h)
  have first : FoundAt bytes Decoder.word32 0 (storedWord32 bytes 0) 4 := word 0 (by decide)
  exact first.bind <| (word 4 (by decide)).bind <| (word 8 (by decide)).bind <|
    (word 12 (by decide)).bind <| (word 16 (by decide)).bind <| (word 20 (by decide)).bind <|
    (word 24 (by decide)).bind <| (word 28 (by decide)).bind <| .pure bytes 32 (stored bytes)

/-! ## Tables -/

section Tables

variable {α : Type} {data : Bytes} {entry : Bytes → α}

/-- The entries, `size` bytes each, of the table at an offset. -/
def storedTable (data : Bytes) (size : Nat) (entry : Bytes → α) (offset : UInt32) (count : UInt16) :
    List α :=
  (List.range count.toNat).map fun i => entry (data.drop (offset.toNat + i * size))

/-- The segments that the header of a file announces. -/
def Segment.table (data : Bytes) : List Segment :=
  storedTable data Part.segment.size stored (FileHeader.stored data).segmentOffset
    (FileHeader.stored data).segmentCount

/-- The sections that the header of a file announces. -/
def SectionHeader.table (data : Bytes) : List SectionHeader :=
  storedTable data Part.section.size stored (FileHeader.stored data).sectionOffset
    (FileHeader.stored data).sectionCount

/-- The entries from the one with number `first` on are found one after the other. -/
theorem foundAt_times {d : Decoder α} {size : Nat} (hentry : ∀ bytes : Bytes, size ≤ bytes.length →
      d bytes = some (entry bytes, bytes.drop size)) {offset : Nat} (count first : Nat)
    (hlength : offset + (first + count) * size ≤ data.length) :
    FoundAt data (d.times count) (offset + first * size)
      ((List.range' first count).map fun i => entry (data.drop (offset + i * size)))
      (offset + (first + count) * size) := by
  induction count generalizing first with
  | zero => exact .pure _ _ _
  | succ count ih =>
    have hsplit : first + (count + 1) = (first + 1) + count := by omega
    have hnext : (first + 1) * size = first * size + size := Nat.succ_mul _ _
    have hle : (first + 1) * size ≤ (first + 1 + count) * size :=
      Nat.mul_le_mul_right _ (Nat.le_add_right _ _)
    rw [hsplit] at hlength ⊢
    have hfirst : FoundAt data d (offset + first * size)
        (entry (data.drop (offset + first * size))) (offset + (first + 1) * size) := by
      rw [FoundAt, hentry _ (by rw [List.length_drop]; omega), List.drop_drop, hnext, Nat.add_assoc]
    rw [List.range'_succ]
    exact hfirst.bind ((ih (first + 1) hlength).bind (.pure _ _ _))

/-- A table that lies within the file is read as what stands there. -/
theorem readTable_of_le {d : Decoder α} {part : Part} (hentry : ∀ bytes : Bytes,
      part.size ≤ bytes.length → d bytes = some (entry bytes, bytes.drop part.size))
    {offset : UInt32} {count : UInt16}
    (h : offset.toNat + count.toNat * part.size ≤ data.length) :
    readTable data part d offset count = .ok (storedTable data part.size entry offset count) := by
  have hlength : offset.toNat + (0 + count.toNat) * part.size ≤ data.length := by
    rwa [Nat.zero_add]
  have hfound := foundAt_times hentry count.toNat 0 hlength
  rw [FoundAt, Nat.zero_mul, Nat.add_zero, ← List.range_eq_range'] at hfound
  exact readTable_eq_ok_iff.mpr ⟨h, _, hfound⟩

end Tables

end DwarfLines.Elf
