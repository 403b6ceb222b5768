import DwarfLines.Elf.Image
import DwarfLines.Proofs.Span

/-!
# What an image holds

An image is looked at byte by byte: a write is seen where it was made, and everything else that was
there is still there. An image *holds* bytes at an offset if it shows them from there on; it goes on
holding them through writes that touch none of their places.
-/

namespace DwarfLines.Elf.Image

variable {image : Image} {offset : Nat} {data : Bytes}

/-- Setting the length keeps the bytes before it, and adds zeros. -/
theorem getElem?_setLength (image : Image) (length i : Nat) :
    (image.setLength length).bytes[i]? =
      if i < length then some (image.bytes[i]?.getD 0) else none := by
  simp only [setLength, List.getElem?_append, List.length_take, List.getElem?_take,
    List.getElem?_replicate]
  by_cases hi : i < length
  · by_cases hib : i < image.bytes.length
    · rw [if_pos (by omega), if_pos hi, if_pos hi, List.getElem?_eq_getElem hib]
      rfl
    · rw [if_neg (by omega), if_pos (by omega), if_pos hi, List.getElem?_eq_none (by omega)]
      rfl
  · rw [if_neg (by omega), if_neg (by omega), if_neg hi]

/-- A written image shows the written bytes at their places, what it showed before at the others, and
zeros where it showed nothing. -/
theorem getElem?_writeAt (image : Image) (offset : Nat) (data : Bytes) (i : Nat) :
    (image.writeAt offset data).bytes[i]? =
      if offset ≤ i ∧ i < offset + data.length then data[i - offset]?
      else if i < max image.length (offset + data.length) then some (image.bytes[i]?.getD 0)
      else none := by
  have hlength := length_setLength image (max image.length (offset + data.length))
  rw [length] at hlength
  have hfront : ((image.setLength (max image.length (offset + data.length))).bytes.take
      offset).length = offset := by
    rw [List.length_take, hlength]
    omega
  rw [writeAt, List.append_assoc, List.getElem?_append, hfront]
  by_cases hbefore : i < offset
  · rw [if_pos hbefore, if_neg (by omega), List.getElem?_take_of_lt hbefore, getElem?_setLength]
  · rw [if_neg hbefore, List.getElem?_append]
    by_cases hinside : i < offset + data.length
    · rw [if_pos (by omega), if_pos (by omega)]
    · rw [if_neg (by omega), if_neg (by omega), List.getElem?_drop, getElem?_setLength]
      have : offset + data.length + (i - offset - data.length) = i := by omega
      rw [this]

/-- What is written is there. -/
theorem getElem?_writeAt_inside (image : Image) (offset : Nat) {data : Bytes} {i : Nat}
    (hi : i < data.length) : (image.writeAt offset data).bytes[offset + i]? = data[i]? := by
  rw [getElem?_writeAt, if_pos (by omega), Nat.add_sub_cancel_left]

/-- What is not written is as it was. -/
theorem getElem?_writeAt_outside {i : Nat} (hi : i < image.length)
    (houtside : ¬ (offset ≤ i ∧ i < offset + data.length)) :
    (image.writeAt offset data).bytes[i]? = image.bytes[i]? := by
  rw [getElem?_writeAt, if_neg houtside, if_pos (by omega), List.getElem?_eq_getElem hi]
  rfl

/-- Setting the length keeps the bytes before it. -/
theorem getElem?_setLength_of_lt {length i : Nat} (hi : i < length) (hi' : i < image.length) :
    (image.setLength length).bytes[i]? = image.bytes[i]? := by
  rw [getElem?_setLength, if_pos hi, List.getElem?_eq_getElem hi']
  rfl

/-- A write inside an image does not make it longer. -/
theorem length_writeAt_of_le (h : offset + data.length ≤ image.length) :
    (image.writeAt offset data).length = image.length := by
  rw [length_writeAt]
  omega

/-! ## Held bytes -/

/-- Whether the image shows `data` from `offset` on. -/
def Holds (image : Image) (offset : Nat) (data : Bytes) : Prop :=
  ∀ i < data.length, image.bytes[offset + i]? = data[i]?

namespace Holds

/-- No bytes are anywhere. -/
theorem nil (image : Image) (offset : Nat) : image.Holds offset [] := by
  intro i hi
  simp at hi

/-- What an image holds is inside. -/
theorem lt_length (h : image.Holds offset data) {i : Nat} (hi : i < data.length) :
    offset + i < image.length := by
  have hbyte := h i hi
  rw [List.getElem?_eq_getElem hi] at hbyte
  exact (List.getElem?_eq_some_iff.mp hbyte).1

/-- An image holds what was written. -/
theorem of_writeAt (image : Image) (offset : Nat) (data : Bytes) :
    (image.writeAt offset data).Holds offset data :=
  fun _ hi => getElem?_writeAt_inside image offset hi

/-- A write elsewhere leaves held bytes as they are. -/
theorem writeAt (h : image.Holds offset data) {offset' : Nat} {data' : Bytes}
    (hapart : Span.Apart ⟨offset, offset + data.length⟩ ⟨offset', offset' + data'.length⟩) :
    (image.writeAt offset' data').Holds offset data := by
  intro i hi
  rw [getElem?_writeAt_outside (h.lt_length hi)
    (hapart (offset + i) (Span.mem_iff.mpr (by dsimp only; omega)))]
  exact h i hi

/-- An image that is not cut before the end of what it holds still holds it. -/
theorem setLength (h : image.Holds offset data) {length : Nat}
    (hlength : offset + data.length ≤ length) : (image.setLength length).Holds offset data := by
  intro i hi
  rw [getElem?_setLength_of_lt (by omega) (h.lt_length hi)]
  exact h i hi

/-- What is held one behind the other is held as one. -/
theorem append {back : Bytes} (h : image.Holds offset data)
    (hback : image.Holds (offset + data.length) back) : image.Holds offset (data ++ back) := by
  intro i hi
  rw [List.length_append] at hi
  rw [List.getElem?_append]
  split
  · exact h i ‹_›
  · have := hback (i - data.length) (by omega)
    rwa [show offset + data.length + (i - data.length) = offset + i by omega] at this

/-- An image holds its front. -/
theorem of_append (front back : Bytes) : (mk (front ++ back)).Holds 0 front := by
  intro i hi
  rw [Nat.zero_add]
  exact List.getElem?_append_left hi

/-- What is held is held up to any place. -/
theorem left {front back : Bytes} (h : image.Holds offset (front ++ back)) :
    image.Holds offset front := by
  intro i hi
  rw [h i (by rw [List.length_append]; omega), List.getElem?_append_left hi]

/-- What is held is held from any place on. -/
theorem right {front back : Bytes} (h : image.Holds offset (front ++ back)) :
    image.Holds (offset + front.length) back := by
  intro i hi
  rw [Nat.add_assoc, h _ (by rw [List.length_append]; omega),
    List.getElem?_append_right (Nat.le_add_right _ _), Nat.add_sub_cancel_left]

/-- An image that agrees with another on held bytes holds them, too. -/
theorem congr (h : image.Holds offset data) {image' : Image}
    (hsame : ∀ i, offset ≤ i → i < offset + data.length → image'.bytes[i]? = image.bytes[i]?) :
    image'.Holds offset data := by
  intro i hi
  rw [hsame _ (Nat.le_add_right _ _) (by omega)]
  exact h i hi

/-- An image that agrees with another on held bytes but for a part of them holds what it shows in
place of this part. -/
theorem splice {front old new back : Bytes} (h : image.Holds offset (front ++ (old ++ back)))
    (hlength : new.length = old.length) {image' : Image}
    (hsame : ∀ i, offset ≤ i → i < offset + (front ++ (old ++ back)).length →
      i ∉ Span.mk (offset + front.length) (offset + front.length + old.length) →
        image'.bytes[i]? = image.bytes[i]?)
    (hnew : image'.Holds (offset + front.length) new) :
    image'.Holds offset (front ++ (new ++ back)) := by
  simp only [List.length_append, Span.mem_iff] at hsame
  refine (h.left.congr fun i hstart hstop => hsame i hstart (by omega) (by omega)).append
    (hnew.append ?_)
  rw [hlength]
  exact h.right.right.congr fun i hstart hstop => hsame i (by omega) (by omega) (by omega)

/-- A write inside held bytes is a write into these bytes. -/
theorem writeAt_inside (h : image.Holds offset data) {place : Nat} (word : Bytes)
    (hplace : place + word.length ≤ data.length) :
    (image.writeAt (offset + place) word).Holds offset ((mk data).writeAt place word).bytes := by
  intro i hi
  have hlength : ((mk data).writeAt place word).bytes.length = data.length :=
    length_writeAt_of_le hplace
  rw [hlength] at hi
  by_cases hinside : place ≤ i ∧ i < place + word.length
  · rw [getElem?_writeAt, getElem?_writeAt, if_pos (by omega), if_pos hinside,
      Nat.add_sub_add_left]
  · rw [getElem?_writeAt_outside (h.lt_length hi) (by omega),
      getElem?_writeAt_outside hi hinside]
    exact h i hi

/-- Held bytes are the bytes of their span. -/
theorem slice (h : image.Holds offset data) (span : Span) (hstart : span.start = offset)
    (hlength : span.length = data.length) : span.slice image.bytes = data := by
  rw [Span.slice, hstart, hlength]
  apply List.ext_getElem?
  intro i
  by_cases hi : i < data.length
  · rw [List.getElem?_take_of_lt hi, List.getElem?_drop]
    exact h i hi
  · rw [List.getElem?_take_eq_none (by omega), List.getElem?_eq_none (by omega)]

/-- An image holds its own bytes. -/
theorem of_slice {span : Span} (hstop : span.stop ≤ image.length) :
    image.Holds span.start (span.slice image.bytes) := by
  intro i hi
  rw [Span.length_slice hstop] at hi
  rw [Span.getElem?_slice hi]

/-- Held bytes stand in front of whatever follows them. -/
theorem drop_eq (h : image.Holds offset data) :
    image.bytes.drop offset = data ++ image.bytes.drop (offset + data.length) := by
  have hfront : (image.bytes.drop offset).take data.length = data := by
    have := h.slice ⟨offset, offset + data.length⟩ rfl (Nat.add_sub_cancel_left _ _)
    rwa [Span.slice, Span.length, Nat.add_sub_cancel_left] at this
  calc image.bytes.drop offset
      = (image.bytes.drop offset).take data.length ++
          (image.bytes.drop offset).drop data.length := (List.take_append_drop _ _).symm
    _ = data ++ image.bytes.drop (offset + data.length) := by rw [hfront, List.drop_drop]

end Holds

/-! ## Several words -/

/-- Writes words at offsets, one after the other. -/
def writeWords (image : Image) (edits : List (Nat × UInt32)) : Image :=
  edits.foldl (fun image edit => image.writeWord32 edit.1 edit.2) image

/-- Where a word is written. -/
def editSpan (edit : Nat × UInt32) : Span := ⟨edit.1, edit.1 + 4⟩

/-- Words are written one after the other. -/
theorem writeWords_cons (image : Image) (edit : Nat × UInt32) (edits : List (Nat × UInt32)) :
    image.writeWords (edit :: edits) = (image.writeWord32 edit.1 edit.2).writeWords edits := rfl

/-- The last word is written last. -/
theorem writeWords_concat (image : Image) (edits : List (Nat × UInt32)) (edit : Nat × UInt32) :
    image.writeWords (edits ++ [edit]) = (image.writeWords edits).writeWord32 edit.1 edit.2 := by
  simp [writeWords]

/-- A word that is written inside leaves the length. -/
theorem length_writeWord32 {place : Nat} {word : UInt32} (h : place + 4 ≤ image.length) :
    (image.writeWord32 place word).length = image.length :=
  length_writeAt_of_le (by rwa [length_bytesOfWord32])

/-- Words that are written inside leave the length. -/
theorem length_writeWords {edits : List (Nat × UInt32)}
    (h : ∀ edit ∈ edits, edit.1 + 4 ≤ image.length) :
    (image.writeWords edits).length = image.length := by
  induction edits generalizing image with
  | nil => rfl
  | cons edit edits ih =>
    rw [List.forall_mem_cons] at h
    have hlength : (image.writeWord32 edit.1 edit.2).length = image.length := length_writeWord32 h.1
    rw [writeWords_cons, ih (by rw [hlength]; exact h.2), hlength]

/-- Where no word is written, an image stays as it is. -/
theorem getElem?_writeWords_outside {edits : List (Nat × UInt32)} {i : Nat} (hi : i < image.length)
    (houtside : ∀ edit ∈ edits, i ∉ editSpan edit) :
    (image.writeWords edits).bytes[i]? = image.bytes[i]? := by
  induction edits generalizing image with
  | nil => rfl
  | cons edit edits ih =>
    rw [List.forall_mem_cons] at houtside
    rw [writeWords_cons, ih ?_ houtside.2]
    · exact getElem?_writeAt_outside hi (by rw [length_bytesOfWord32]; exact houtside.1)
    · rw [writeWord32, length_writeAt]
      omega

/-- Each word shows where it was written, if no two are written in one place. -/
theorem getElem?_writeWords_inside {edits : List (Nat × UInt32)}
    (hapart : edits.Pairwise fun a b => (editSpan a).Apart (editSpan b)) {edit : Nat × UInt32}
    (hedit : edit ∈ edits) {j : Nat} (hj : j < 4) :
    (image.writeWords edits).bytes[edit.1 + j]? = (bytesOfWord32 edit.2)[j]? := by
  induction edits generalizing image with
  | nil => cases hedit
  | cons first edits ih =>
    rw [List.pairwise_cons] at hapart
    rw [writeWords_cons]
    rcases List.mem_cons.mp hedit with rfl | hedit
    · have hj' : j < (bytesOfWord32 edit.2).length := by rwa [length_bytesOfWord32]
      rw [getElem?_writeWords_outside]
      · exact getElem?_writeAt_inside image edit.1 hj'
      · exact (Holds.of_writeAt image edit.1 (bytesOfWord32 edit.2)).lt_length hj'
      · intro other hother
        exact hapart.1 other hother _ (Span.mem_iff.mpr ⟨Nat.le_add_right _ _, by
          simp only [editSpan]
          omega⟩)
    · exact ih hapart.2 hedit

/-- A part of an image in which words were written is that part with the words written into it. -/
theorem slice_writeWords {span : Span} (hstop : span.stop ≤ image.length)
    {edits : List (Nat × UInt32)} (hedits : ∀ edit ∈ edits, edit.1 + 4 ≤ span.length) :
    span.slice (image.writeWords (edits.map fun edit => (span.start + edit.1, edit.2))).bytes =
      ((mk (span.slice image.bytes)).writeWords edits).bytes := by
  induction edits generalizing image with
  | nil => rfl
  | cons edit edits ih =>
    rw [List.forall_mem_cons] at hedits
    have hslice := Span.length_slice hstop
    have hholds := (Holds.of_slice hstop).writeAt_inside (bytesOfWord32 edit.2) (by
      rw [length_bytesOfWord32, hslice]
      exact hedits.1)
    have hlength : ((mk (span.slice image.bytes)).writeWord32 edit.1 edit.2).bytes.length =
        span.length := (length_writeWord32 (by rw [length, hslice]; exact hedits.1)).trans hslice
    rw [List.map_cons, writeWords_cons, ih ?_ hedits.2]
    · exact congrArg (fun bytes => ((mk bytes).writeWords edits).bytes)
        (hholds.slice span rfl hlength.symm)
    · rw [length_writeWord32]
      · exact hstop
      · have := hedits.1
        unfold Span.length at this
        omega

end DwarfLines.Elf.Image
