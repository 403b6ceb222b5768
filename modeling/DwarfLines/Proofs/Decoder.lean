import DwarfLines.Decoder
import Mathlib.Algebra.Group.Nat.Defs
import Mathlib.Data.List.Forall2

/-!
# What decoders take

A decoder *reads* a value from some bytes if it takes exactly these bytes off the front of any string
that starts with them. Every decoder of this library is *local*: what it accepts, it accepts because
of the bytes it takes, whatever comes after them. Both properties are closed under sequencing, so a
written form is read back by reading its parts one after the other.
-/

namespace DwarfLines

/-! ## Numbers in bytes -/

/-- So many bytes hold a number below the power of 256. -/
theorem decodeLittleEndian_lt (bytes : Bytes) :
    decodeLittleEndian bytes < 256 ^ bytes.length := by
  induction bytes with
  | nil => simp [decodeLittleEndian]
  | cons b bs ih =>
    have hb := b.toNat_lt
    simp only [decodeLittleEndian, List.length_cons, Nat.pow_succ]
    omega

/-- Reading back what was written gives the number reduced to the width. -/
theorem decodeLittleEndian_encodeLittleEndian (width n : Nat) :
    decodeLittleEndian (encodeLittleEndian width n) = n % 256 ^ width := by
  induction width generalizing n with
  | zero => simp [encodeLittleEndian, decodeLittleEndian, Nat.mod_one]
  | succ width ih =>
    have hpow : 256 ^ (width + 1) = 256 * 256 ^ width := by rw [Nat.pow_succ, Nat.mul_comm]
    simp only [encodeLittleEndian, decodeLittleEndian, ih, UInt8.toNat_ofNat']
    rw [hpow, Nat.mod_mul]

/-- Every byte string is the written form of its number. -/
theorem encodeLittleEndian_decodeLittleEndian (bytes : Bytes) :
    encodeLittleEndian bytes.length (decodeLittleEndian bytes) = bytes := by
  induction bytes with
  | nil => rfl
  | cons b bs ih =>
    have hb := b.toNat_lt
    have hdiv : (b.toNat + 256 * decodeLittleEndian bs) / 256 = decodeLittleEndian bs := by omega
    -- the low byte is the remainder by 256, the other bytes are the quotient
    simp only [List.length_cons, encodeLittleEndian, decodeLittleEndian, hdiv, ih,
      List.cons.injEq, and_true]
    apply UInt8.toNat_inj.mp
    rw [UInt8.toNat_ofNat']
    omega

namespace Decoder

variable {α β : Type}

/-- Whether the decoder takes `front` off any string that starts so, and makes `a` of it. -/
def Reads (d : Decoder α) (front : Bytes) (a : α) : Prop :=
  ∀ rest, d (front ++ rest) = some (a, rest)

/-- Whether what the decoder makes of a string depends on nothing but the bytes it takes. -/
def Local (d : Decoder α) : Prop :=
  ∀ (bytes : Bytes) (a : α) (rest : Bytes), d bytes = some (a, rest) →
    ∃ front, bytes = front ++ rest ∧ d.Reads front a

/-- What is written and nothing after it is read to the end. -/
theorem Reads.whole {d : Decoder α} {front : Bytes} {a : α} (h : d.Reads front a) :
    d front = some (a, []) := by
  simpa using h []

/-! ## Sequencing -/

/-- A value that takes no bytes is read from none. -/
theorem Reads.pure (a : α) : (Pure.pure a : Decoder α).Reads [] a := fun _ => rfl

/-- Two parts are read one behind the other, the second as the first says. -/
theorem Reads.bind {d : Decoder α} {f : α → Decoder β} {xs ys : Bytes} {a : α} {b : β}
    (hd : d.Reads xs a) (hf : (f a).Reads ys b) : (d >>= f).Reads (xs ++ ys) b := by
  intro rest
  rw [List.append_assoc]
  exact bind_eq_some_iff.mpr ⟨a, ys ++ rest, hd _, hf rest⟩

/-- The last part may take no bytes. -/
theorem Reads.bind_last {d : Decoder α} {f : α → Decoder β} {xs : Bytes} {a : α} {b : β}
    (hd : d.Reads xs a) (hf : (f a).Reads [] b) : (d >>= f).Reads xs b := by
  simpa using hd.bind hf

/-- What is made of a value is read from the same bytes. -/
theorem Reads.map {d : Decoder α} {xs : Bytes} {a : α} (hd : d.Reads xs a) (f : α → β) :
    (f <$> d).Reads xs (f a) := fun rest => map_eq_some_iff.mpr ⟨a, hd rest, rfl⟩

/-- A value that is there or not is read from no bytes. -/
theorem lift_eq_some_iff {o : Option α} {bytes rest : Bytes} {a : α} :
    (liftM o : Decoder α) bytes = some (a, rest) ↔ o = some a ∧ bytes = rest := by
  cases o with
  | none => exact ⟨fun h => (nomatch h), fun h => (nomatch h.1)⟩
  | some b =>
    show some (b, bytes) = some (a, rest) ↔ some b = some a ∧ bytes = rest
    simp

/-- A value that is there is read from no bytes. -/
theorem Reads.lift {o : Option α} {a : α} (h : o = some a) : (liftM o : Decoder α).Reads [] a :=
  fun _ => lift_eq_some_iff.mpr ⟨h, rfl⟩

/-- A value that is there or not looks at no bytes. -/
theorem Local.lift (o : Option α) : (liftM o : Decoder α).Local := by
  intro bytes a rest h
  obtain ⟨ho, rfl⟩ := lift_eq_some_iff.mp h
  exact ⟨[], rfl, .lift ho⟩

/-- A value that takes no bytes looks at none. -/
theorem Local.pure (a : α) : (Pure.pure a : Decoder α).Local := by
  intro bytes b rest h
  obtain ⟨rfl, rfl⟩ := pure_eq_some_iff.mp h
  exact ⟨[], rfl, .pure a⟩

/-- Two parts that look at their own bytes only do so together. -/
theorem Local.bind {d : Decoder α} {f : α → Decoder β} (hd : d.Local) (hf : ∀ a, (f a).Local) :
    (d >>= f).Local := by
  intro bytes b rest h
  obtain ⟨a, between, h₁, h₂⟩ := bind_eq_some_iff.mp h
  obtain ⟨xs, rfl, hxs⟩ := hd _ _ _ h₁
  obtain ⟨ys, rfl, hys⟩ := hf a _ _ _ h₂
  exact ⟨xs ++ ys, (List.append_assoc _ _ _).symm, hxs.bind hys⟩

/-- What is made of a value looks at the same bytes. -/
theorem Local.map {d : Decoder α} (hd : d.Local) (f : α → β) : (f <$> d).Local := by
  intro bytes b rest h
  obtain ⟨a, ha, rfl⟩ := map_eq_some_iff.mp h
  obtain ⟨xs, rfl, hxs⟩ := hd _ _ _ ha
  exact ⟨xs, rfl, hxs.map f⟩

/-- A decoder that always fails looks at no bytes. -/
theorem Local.failure : (failure : Decoder α).Local := by
  intro bytes a rest h
  cases h

/-- A choice that does not depend on the bytes looks at those of its branch. -/
theorem Local.ite {c : Prop} [Decidable c] {d e : Decoder α} (hd : d.Local) (he : e.Local) :
    (if c then d else e).Local := by
  split
  · exact hd
  · exact he

/-- What a local decoder leaves is the end of what it was given. -/
theorem Local.suffix {d : Decoder α} (hd : d.Local) {bytes rest : Bytes} {a : α}
    (h : d bytes = some (a, rest)) : rest <:+ bytes := by
  obtain ⟨front, rfl, -⟩ := hd _ _ _ h
  exact List.suffix_append front rest

/-- A local decoder has no use for what it reads a value from, cut short. -/
theorem Reads.take_eq_none {d : Decoder α} {front : Bytes} {a : α} (h : d.Reads front a)
    (hd : d.Local) {n : Nat} (hn : n < front.length) : d (front.take n) = none := by
  cases hcut : d (front.take n) with
  | none => rfl
  | some found =>
    obtain ⟨b, rest⟩ := found
    obtain ⟨taken, htaken, hreads⟩ := hd _ _ _ hcut
    have hfront : front = taken ++ (rest ++ front.drop n) := by
      rw [← List.append_assoc, ← htaken, List.take_append_drop]
    -- The bytes behind the cut are left over from the whole, of which nothing is left.
    have hwhole : some (b, rest ++ front.drop n) = some (a, []) := by
      rw [← hreads, ← hfront, h.whole]
    have hnil := (List.append_eq_nil_iff.mp (Prod.mk.inj (Option.some.inj hwhole)).2).2
    rw [List.drop_eq_nil_iff] at hnil
    exact absurd hnil (Nat.not_le.mpr hn)

/-! ## Bytes, words and strings -/

/-- A byte is read from itself. -/
theorem reads_byte (b : UInt8) : byte.Reads [b] b := fun _ => rfl

/-- The decoder of a byte looks at this byte only. -/
theorem local_byte : byte.Local := by
  intro bytes b rest h
  cases bytes with
  | nil => cases h
  | cons c cs =>
    cases h
    exact ⟨[b], rfl, reads_byte b⟩

/-- So many bytes are read as they are. -/
theorem reads_take {n : Nat} {front : Bytes} (h : front.length = n) : (take n).Reads front front := by
  intro rest
  subst h
  simp [take_eq]

/-- What is behind so many bytes is not looked at. -/
theorem local_take (n : Nat) : (take n).Local := by
  intro bytes front rest h
  rw [take_eq] at h
  split at h
  · -- a take that succeeds cuts the bytes at `n`
    rename_i hn
    cases h
    exact ⟨bytes.take n, (List.take_append_drop n bytes).symm,
      reads_take (List.length_take_of_le hn)⟩
  · cases h

/-- A word of 16 bits is read from its bytes. -/
theorem reads_word16 (w : UInt16) : word16.Reads (bytesOfWord16 w) w := by
  have h : (Pure.pure (UInt16.ofNat (decodeLittleEndian (bytesOfWord16 w))) : Decoder UInt16).Reads
      [] w := by
    rw [bytesOfWord16, decodeLittleEndian_encodeLittleEndian]
    have : w.toNat % 256 ^ 2 = w.toNat := Nat.mod_eq_of_lt w.toNat_lt
    rw [this, UInt16.ofNat_toNat]
    exact .pure w
  exact (reads_take (length_bytesOfWord16 w)).bind_last h

/-- A word of 32 bits is read from its bytes. -/
theorem reads_word32 (w : UInt32) : word32.Reads (bytesOfWord32 w) w := by
  have h : (Pure.pure (UInt32.ofNat (decodeLittleEndian (bytesOfWord32 w))) : Decoder UInt32).Reads
      [] w := by
    rw [bytesOfWord32, decodeLittleEndian_encodeLittleEndian]
    have : w.toNat % 256 ^ 4 = w.toNat := Nat.mod_eq_of_lt w.toNat_lt
    rw [this, UInt32.ofNat_toNat]
    exact .pure w
  exact (reads_take (length_bytesOfWord32 w)).bind_last h

/-- Taking some bytes splits them off in front. -/
theorem take_eq_some_iff {n : Nat} {bytes front rest : Bytes} :
    take n bytes = some (front, rest) ↔ bytes = front ++ rest ∧ front.length = n := by
  constructor
  · intro h
    rw [take_eq] at h
    split at h
    · rename_i hn
      cases h
      exact ⟨(List.take_append_drop n bytes).symm, List.length_take_of_le hn⟩
    · cases h
  · rintro ⟨rfl, hlength⟩
    exact reads_take hlength rest

/-- Bytes that are taken are those of the number that they stand for, which is below their range. -/
theorem eq_encodeLittleEndian_of_take {n : Nat} {bytes front rest : Bytes}
    (h : take n bytes = some (front, rest)) :
    bytes = encodeLittleEndian n (decodeLittleEndian front) ++ rest ∧
      decodeLittleEndian front < 256 ^ n := by
  obtain ⟨rfl, rfl⟩ := take_eq_some_iff.mp h
  rw [encodeLittleEndian_decodeLittleEndian]
  exact ⟨rfl, decodeLittleEndian_lt front⟩

/-- A word of 32 bits is read exactly where its bytes stand in front. -/
theorem word32_eq_some_iff {bytes rest : Bytes} {w : UInt32} :
    word32 bytes = some (w, rest) ↔ bytes = bytesOfWord32 w ++ rest := by
  constructor
  · intro h
    obtain ⟨front, between, hfront, h⟩ := bind_eq_some_iff.mp h
    obtain ⟨rfl, rfl⟩ := pure_eq_some_iff.mp h
    -- no information is lost in the word: four bytes hold less than 2 ^ 32
    obtain ⟨hbytes, hrange⟩ := eq_encodeLittleEndian_of_take hfront
    have hlt : decodeLittleEndian front < 2 ^ 32 := hrange
    rwa [bytesOfWord32, UInt32.toNat_ofNat', Nat.mod_eq_of_lt hlt]
  · rintro rfl
    exact reads_word32 w rest

/-- A word of 16 bits is read exactly where its bytes stand in front. -/
theorem word16_eq_some_iff {bytes rest : Bytes} {w : UInt16} :
    word16 bytes = some (w, rest) ↔ bytes = bytesOfWord16 w ++ rest := by
  constructor
  · intro h
    obtain ⟨front, between, hfront, h⟩ := bind_eq_some_iff.mp h
    obtain ⟨rfl, rfl⟩ := pure_eq_some_iff.mp h
    -- no information is lost in the half word: two bytes hold less than 2 ^ 16
    obtain ⟨hbytes, hrange⟩ := eq_encodeLittleEndian_of_take hfront
    have hlt : decodeLittleEndian front < 2 ^ 16 := hrange
    rwa [bytesOfWord16, UInt16.toNat_ofNat', Nat.mod_eq_of_lt hlt]
  · rintro rfl
    exact reads_word16 w rest

/-- The decoder of a word of 16 bits looks at two bytes only. -/
theorem local_word16 : word16.Local := (local_take 2).bind fun _ => .pure _

/-- The decoder of a word of 32 bits looks at four bytes only. -/
theorem local_word32 : word32.Local := (local_take 4).bind fun _ => .pure _

/-- A name without zeros is read from itself with a zero behind it. -/
theorem reads_cstring {name : Bytes} (h : 0 ∉ name) : cstring.Reads (name ++ [0]) name := by
  intro rest
  exact cstring_eq_some_iff.mpr ⟨by simp, h⟩

/-- What is behind the zero that ends a name is not looked at. -/
theorem local_cstring : cstring.Local := by
  intro bytes name rest h
  obtain ⟨rfl, hname⟩ := cstring_eq_some_iff.mp h
  exact ⟨name ++ [0], by simp, reads_cstring hname⟩

/-! ## Values of one size -/

/-- Whether all that the decoder accepts is of the same size. -/
def Takes (d : Decoder α) (n : Nat) : Prop :=
  ∀ (bytes : Bytes) (a : α) (rest : Bytes), d bytes = some (a, rest) →
    bytes.length = n + rest.length

/-- A value that takes no bytes leaves all of them. -/
theorem Takes.pure (a : α) : (Pure.pure a : Decoder α).Takes 0 := by
  intro bytes b rest h
  obtain ⟨-, rfl⟩ := pure_eq_some_iff.mp h
  exact (Nat.zero_add _).symm

/-- Two parts of fixed size take both sizes together. -/
theorem Takes.bind {d : Decoder α} {f : α → Decoder β} {m n : Nat} (hd : d.Takes m)
    (hf : ∀ a, (f a).Takes n) : (d >>= f).Takes (m + n) := by
  intro bytes b rest h
  obtain ⟨a, between, h₁, h₂⟩ := bind_eq_some_iff.mp h
  rw [hd _ _ _ h₁, hf a _ _ _ h₂, Nat.add_assoc]

/-- Taking some bytes takes so many. -/
theorem takes_take (n : Nat) : (take n).Takes n := by
  intro bytes front rest h
  obtain ⟨rfl, hlength⟩ := take_eq_some_iff.mp h
  rw [List.length_append, hlength]

/-- A byte takes one. -/
theorem takes_byte : byte.Takes 1 := by
  intro bytes b rest h
  cases bytes with
  | nil => cases h
  | cons c cs =>
    cases h
    rw [List.length_cons, Nat.add_comm]

/-- A word of 16 bits takes two bytes. -/
theorem takes_word16 : word16.Takes 2 := (takes_take 2).bind fun _ => .pure _

/-- A word of 32 bits takes four bytes. -/
theorem takes_word32 : word32.Takes 4 := (takes_take 4).bind fun _ => .pure _

/-- Values of one size take it as often as they are read. -/
theorem Takes.times {d : Decoder α} {n : Nat} (hd : d.Takes n) (count : Nat) :
    (d.times count).Takes (count * n) := by
  induction count with
  | zero =>
    rw [Nat.zero_mul]
    exact .pure []
  | succ count ih =>
    rw [Nat.succ_mul, Nat.add_comm (count * n)]
    exact hd.bind fun _ => ih.bind fun _ => .pure _

/-! ## Runs and tables -/

/-- As many values are read as were asked for. -/
theorem length_of_times {d : Decoder α} {count : Nat} {bytes rest : Bytes} {values : List α}
    (h : d.times count bytes = some (values, rest)) : values.length = count := by
  induction count generalizing bytes rest values with
  | zero =>
    obtain ⟨rfl, -⟩ := pure_eq_some_iff.mp h
    rfl
  | succ count ih =>
    obtain ⟨value, between, -, h⟩ := bind_eq_some_iff.mp h
    -- the count drops by one with each value, whatever its length
    obtain ⟨others, rest', hothers, h⟩ := bind_eq_some_iff.mp h
    obtain ⟨rfl, -⟩ := pure_eq_some_iff.mp h
    rw [List.length_cons, ih hothers]

/-- Values that are written one behind the other are read as a list. -/
theorem Reads.times {d : Decoder α} {fronts : List Bytes} {values : List α}
    (h : List.Forall₂ d.Reads fronts values) :
    (d.times values.length).Reads fronts.flatten values := by
  induction h with
  | nil => exact .pure []
  | cons hfirst _ ih => exact hfirst.bind (ih.bind_last (.pure _))

/-- A repeated decoder looks at the bytes of its values only. -/
theorem Local.times {d : Decoder α} (h : d.Local) (count : Nat) : (d.times count).Local := by
  induction count with
  | zero => exact .pure []
  | succ count ih => exact h.bind fun _ => ih.bind fun _ => .pure _

variable {item : Decoder (Option α)} {shortens : Shortens item}

/-- Items that are written one behind the other are read up to the mark that ends them. -/
theorem items_of_reads {fronts : List Bytes} {values : List α} {stop : Bytes}
    (h : List.Forall₂ (fun front a => item.Reads front (some a)) fronts values)
    (hstop : item.Reads stop none) (rest : Bytes) :
    items item shortens (fronts.flatten ++ stop ++ rest) = (values, some rest) := by
  induction h with
  | nil =>
    -- no value is left, so the bytes start with the stop
    unfold items
    have : item (List.flatten [] ++ stop ++ rest) = some (none, rest) := by simpa using hstop rest
    split <;> simp_all
  | @cons front a fronts values hfirst hothers ih =>
    unfold items
    -- the first item is read whatever follows it, here the other items and the stop
    have : item ((front :: fronts).flatten ++ stop ++ rest) =
        some (some a, fronts.flatten ++ stop ++ rest) := by
      simpa using hfirst (fronts.flatten ++ stop ++ rest)
    split <;> simp_all

/-- A table is read from its items and its terminator. -/
theorem reads_table {fronts : List Bytes} {values : List α} {stop : Bytes}
    (h : List.Forall₂ (fun front a => item.Reads front (some a)) fronts values)
    (hstop : item.Reads stop none) :
    (table item shortens).Reads (fronts.flatten ++ stop) values := by
  intro rest
  simp only [table, items_of_reads h hstop]

/-- A table that is read consists of items and a terminator. -/
theorem exists_reads_of_items (hlocal : item.Local) {bytes rest : Bytes} {values : List α}
    (h : items item shortens bytes = (values, some rest)) :
    ∃ fronts stop, bytes = List.flatten fronts ++ stop ++ rest ∧
      List.Forall₂ (fun front a => item.Reads front (some a)) fronts values ∧
      item.Reads stop none := by
  -- the cases are those of the recursion: a truncated item, the stop, and an item before the others
  fun_induction items item shortens bytes generalizing values with
  | case1 => simp at h
  | case2 bytes rest' hi =>
    simp only [Prod.mk.injEq, Option.some.injEq] at h
    obtain ⟨rfl, rfl⟩ := h
    obtain ⟨stop, rfl, hstop⟩ := hlocal _ _ _ hi
    exact ⟨[], stop, by simp, .nil, hstop⟩
  | case3 bytes a rest' hi tail rest'' hr ih =>
    simp only [Prod.mk.injEq] at h
    obtain ⟨rfl, rfl⟩ := h
    obtain ⟨front, rfl, hfront⟩ := hlocal _ _ _ hi
    obtain ⟨fronts, stop, rfl, hothers, hstop⟩ := ih hr
    exact ⟨front :: fronts, stop, by simp, .cons hfront hothers, hstop⟩

/-- A table that was read is its items one behind the other, with the mark behind the last. -/
theorem exists_reads_of_table (hlocal : item.Local) {bytes rest : Bytes} {values : List α}
    (h : table item shortens bytes = some (values, rest)) :
    ∃ fronts stop, bytes = List.flatten fronts ++ stop ++ rest ∧
      List.Forall₂ (fun front a => item.Reads front (some a)) fronts values ∧
      item.Reads stop none := by
  simp only [table] at h
  split at h
  · rename_i hi
    cases h
    exact exists_reads_of_items hlocal hi
  · cases h

/-- What is behind the mark that ends a table is not looked at. -/
theorem local_table (hlocal : item.Local) : (table item shortens).Local := by
  intro bytes values rest h
  obtain ⟨fronts, stop, rfl, hitems, hstop⟩ := exists_reads_of_table hlocal h
  exact ⟨fronts.flatten ++ stop, rfl, reads_table hitems hstop⟩

end Decoder

end DwarfLines
