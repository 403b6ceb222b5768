import DwarfLines.Info.Walk
import DwarfLines.Proofs.Elf.Image
import DwarfLines.Proofs.Info.CompileUnit

/-!
# References on a walk

Each unit that a walk yields lies within its section, and so does the reference that it may hold.
Storing other references where the walk found these changes nothing but the references: the walk over
the changed section yields the same units with the new ones.
-/

namespace DwarfLines

open Outcome

namespace UnitVisit

/-- The unit with another reference in the place of its own, if it has one. -/
def redirect (lineOffset : UInt32) (visit : UnitVisit) : UnitVisit :=
  { visit with root := visit.root.redirect lineOffset }

/-- The bytes of the unit. -/
def span (visit : UnitVisit) : Span := ⟨visit.offset, visit.offset + visit.header.totalSize⟩

/-- What is found of the root entry behind a header decides what is read of the unit, if the length that
the header gives is that of the unit. -/
theorem read_of_finds {abbreviations : Bytes} {offset : Nat} {header : CompileUnitHeader}
    {skipped : Bytes} {found : Except DebugError RootEntry} {xs ys back : Bytes}
    (hheader : Reading.Reads CompileUnitHeader.read offset xs header)
    (hskip : Reading.Reads (Cursor.read (Decoder.take CompileUnitHeader.size)) offset xs skipped)
    (hroot : (RootEntry.read abbreviations header).Finds (offset + xs.length) ys found)
    (htotal : (xs ++ ys ++ back).length = header.totalSize) (rest : Bytes) :
    read abbreviations offset (xs ++ ys ++ back ++ rest) =
      found.map fun root => ⟨offset, header, root⟩ := by
  -- the header is read from the front of the unit, then once more as the bytes before its root
  -- entry
  have hfront := hheader.value (ys ++ back ++ rest)
  rw [← List.append_assoc, ← List.append_assoc] at hfront
  have hbody : Cursor.bounded? ⟨offset, xs ++ ys ++ back ++ rest⟩ header.totalSize =
      some ⟨offset, xs ++ ys ++ back⟩ := by
    rw [Cursor.bounded?_eq_some_iff, ← htotal, List.take_left]
    exact ⟨by simp, rfl⟩
  have hentry := hskip.bind_finds (f := fun _ => RootEntry.read abbreviations header) hroot back
  unfold read
  rw [hfront]
  show (orTruncated (Cursor.bounded? _ _) >>= _) = _
  rw [hbody]
  show (Reading.value _ _ >>= _) = _
  rw [hentry]
  cases found <;> rfl

/-- A unit that is read is taken whole. Up to its reference it is read again from the same bytes, and
any other reference that is stored there is found. -/
theorem read_eq_ok {abbreviations bytes : Bytes} {offset : Nat} {visit : UnitVisit}
    (h : read abbreviations offset bytes = .ok visit) :
    visit.offset = offset ∧ ∃ front back rest,
      bytes = front ++ (visit.root.reference ++ back) ++ rest ∧
      (front ++ (visit.root.reference ++ back)).length = visit.header.totalSize ∧
      visit.root.StandsAt (offset + front.length) ∧
      ∀ other rest', read abbreviations offset
        (front ++ ((visit.root.redirect other).reference ++ back) ++ rest') =
          .ok (visit.redirect other) := by
  unfold read at h
  simp only [bind_eq_ok_iff, Reading.value_eq_ok_iff, orTruncated_eq_ok_iff, pure_eq_ok_iff] at h
  obtain ⟨header, ⟨c, hheader⟩, body, hbody, root, ⟨c', hroot⟩, rfl⟩ := h
  obtain ⟨hlength, rfl⟩ := Cursor.bounded?_eq_some_iff.mp hbody
  obtain ⟨_, c₁, hskip, hroot⟩ := state_bind_eq_ok_iff.mp hroot
  -- The header is read first, and passed over again in the body.
  have hsize := CompileUnitHeader.takes_read _ _ _ hheader
  have hsize' := Reading.Takes.read (Decoder.takes_take _) _ _ _ hskip
  obtain ⟨xs, hxs, -, hreads⟩ := CompileUnitHeader.local_read _ _ _ hheader
  obtain ⟨xs', hxs', hposition, hreads'⟩ := Reading.Local.read (Decoder.local_take _) _ _ _ hskip
  obtain ⟨ys, hys, hstands, hreads''⟩ := RootEntry.redirects_read _ _ _ _ _ hroot
  dsimp only at hsize hsize' hxs hxs' hposition hstands hlength
  have hbytes := List.take_append_drop header.totalSize bytes
  rw [hxs', hys] at hbytes
  have hxsLength : xs.length = xs'.length := by
    have h := congrArg List.length hxs
    have h' := congrArg List.length hxs'
    rw [List.length_append] at h h'
    omega
  obtain rfl : xs = xs' := by
    have h := congrArg (List.take xs.length) (hxs.symm.trans hbytes.symm)
    rwa [List.take_left, hxsLength, List.append_assoc, List.take_left] at h
  have htotal : (xs ++ ys ++ (root.reference ++ c'.rest)).length = header.totalSize := by
    have h := congrArg List.length hxs'
    rw [hys, List.length_take_of_le hlength] at h
    rw [List.append_assoc]
    exact h.symm
  refine ⟨rfl, xs ++ ys, c'.rest, bytes.drop header.totalSize, ?_, htotal, ?_, ?_⟩
  · rw [List.append_assoc xs ys]
    exact hbytes.symm
  · rwa [List.length_append, ← Nat.add_assoc, ← hposition]
  · intro other rest'
    have htotal' : (xs ++ (ys ++ (root.redirect other).reference) ++ c'.rest).length =
        header.totalSize := by
      rw [← htotal]
      simp only [List.length_append, RootEntry.length_reference_redirect]
      omega
    have hroot' := hreads'' other
    rw [hposition] at hroot'
    have hread := read_of_finds hreads hreads' hroot'.finds htotal' rest'
    rw [← List.append_assoc xs ys, List.append_assoc (xs ++ ys)] at hread
    exact hread

/-- A unit that is read is read from any bytes that start with it. -/
theorem read_append {abbreviations bytes : Bytes} {offset : Nat} {visit : UnitVisit}
    (h : read abbreviations offset bytes = .ok visit) (more : Bytes) :
    read abbreviations offset (bytes ++ more) = .ok visit := by
  obtain ⟨-, front, back, rest, rfl, -, -, hread⟩ := read_eq_ok h
  have hsame : ∃ other, visit.redirect other = visit := by
    obtain ⟨offset, header, root⟩ := visit
    cases root with
    | statementList valueOffset lineOffset => exact ⟨lineOffset, rfl⟩
    | absent | withoutStatementList => exact ⟨0, rfl⟩
  obtain ⟨other, hother⟩ := hsame
  have hmore := hread other (rest ++ more)
  have hroot : visit.root.redirect other = visit.root := congrArg root hother
  rw [hother, hroot, ← List.append_assoc] at hmore
  exact hmore

/-- A visit has a statement list where its root entry has, at the offset of the unit. -/
theorem statementList?_eq_some_iff {visit : UnitVisit} {reference : StatementList} :
    visit.statementList? = some reference ↔ visit.root =
      .statementList reference.valueOffset reference.lineOffset ∧
        visit.offset = reference.unitOffset := by
  obtain ⟨unitOffset, valueOffset, lineOffset⟩ := reference
  unfold statementList?
  cases visit.root with
  | absent | withoutStatementList => simp
  | statementList valueOffset' lineOffset' =>
    simp only [Option.some.injEq, StatementList.mk.injEq, RootEntry.statementList.injEq]
    exact and_comm

end UnitVisit

/-- A root entry without a statement list stores no reference. -/
theorem UnitVisit.reference_eq_nil_of_statementList? {visit : UnitVisit}
    (h : visit.statementList? = none) : visit.root.reference = [] := by
  unfold statementList? at h
  split at h
  · cases h
  all_goals
    rename_i hroot
    rw [hroot]
    rfl

/-- Where a reference is stored. -/
def StatementList.span (reference : StatementList) : Span :=
  ⟨reference.valueOffset, reference.valueOffset + 4⟩

/-- A unit that is read lies within the bytes, and its reference within the unit. -/
theorem UnitVisit.read_bounds {abbreviations bytes : Bytes} {offset : Nat} {visit : UnitVisit}
    (h : read abbreviations offset bytes = .ok visit) :
    visit.offset = offset ∧ visit.header.totalSize ≤ bytes.length ∧
      ∀ reference, visit.statementList? = some reference →
        offset ≤ reference.span.start ∧ reference.span.stop ≤ visit.span.stop := by
  obtain ⟨hoffset, front, back, rest, rfl, htotal, hstands, -⟩ := read_eq_ok h
  refine ⟨hoffset, ?_, ?_⟩
  · rw [List.length_append, htotal]
    omega
  · intro reference hreference
    obtain ⟨hroot, -⟩ := statementList?_eq_some_iff.mp hreference
    rw [hroot] at htotal hstands
    simp only [RootEntry.reference, List.length_append, length_bytesOfWord32] at htotal
    simp only [RootEntry.StandsAt] at hstands
    simp only [StatementList.span, span]
    omega

/-- The units of a walk lie within the bytes that are walked over, and their references within
them. -/
theorem walkFrom_bounds {abbreviations bytes : Bytes} {offset : Nat} {visits : List UnitVisit}
    {stopped : Option DebugError} (h : walkFrom abbreviations offset bytes = (visits, stopped)) :
    ∀ visit ∈ visits, offset ≤ visit.span.start ∧ visit.span.stop ≤ offset + bytes.length ∧
      ∀ reference, visit.statementList? = some reference →
        visit.span.start ≤ reference.span.start ∧ reference.span.stop ≤ visit.span.stop := by
  fun_induction walkFrom abbreviations offset bytes generalizing visits with
  | case1 =>
    cases h
    simp
  | case2 =>
    cases h
    simp
  | case3 offset bytes hne first hfirst others stopped' hothers ih =>
    cases h
    obtain ⟨rfl, hlength, hreference⟩ := UnitVisit.read_bounds hfirst
    rw [List.forall_mem_cons]
    -- the later units start where this one ends
    refine ⟨⟨Nat.le_refl _, Nat.add_le_add_left hlength _, hreference⟩, ?_⟩
    · intro visit hvisit
      obtain ⟨hstart, hstop, hreference⟩ := ih hothers visit hvisit
      rw [List.length_drop] at hstop
      exact ⟨by omega, by omega, hreference⟩

/-- Changing the bytes of a unit's reference, and nothing else of the unit, changes the reference that
is read. -/
theorem UnitVisit.read_redirect {abbreviations bytes bytes' : Bytes} {offset : Nat}
    {visit : UnitVisit} (h : read abbreviations offset bytes = .ok visit) (target : UInt32)
    (hlength : bytes'.length = bytes.length)
    (hsame : ∀ i < visit.header.totalSize,
      (∀ reference, visit.statementList? = some reference → offset + i ∉ reference.span) →
        bytes'[i]? = bytes[i]?)
    (hnew : ∀ reference, visit.statementList? = some reference → ∀ j < 4,
      bytes'[reference.valueOffset - offset + j]? = (bytesOfWord32 target)[j]?) :
    read abbreviations offset bytes' = .ok (visit.redirect target) := by
  obtain ⟨hoffset, front, back, rest, rfl, htotal, hstands, hread⟩ := read_eq_ok h
  have hreference : ∀ reference, visit.statementList? = some reference →
      reference.valueOffset = offset + front.length ∧ visit.root.reference.length = 4 ∧
        (visit.root.redirect target).reference = bytesOfWord32 target := by
    intro reference hreference
    obtain ⟨hroot, -⟩ := statementList?_eq_some_iff.mp hreference
    rw [hroot] at hstands ⊢
    exact ⟨hstands, length_bytesOfWord32 _, rfl⟩
  have hlengths := RootEntry.length_reference_redirect target visit.root
  have hholds : (Elf.Image.mk bytes').Holds 0
      (front ++ ((visit.root.redirect target).reference ++ back)) := by
    have hold := Elf.Image.Holds.of_append (front ++ (visit.root.reference ++ back)) rest
    refine hold.splice hlengths ?_ ?_
    · intro i _ hi hout
      rw [Nat.zero_add, htotal] at hi
      refine hsame i hi fun reference hlist => ?_
      obtain ⟨hvalue, hlength4, -⟩ := hreference reference hlist
      rw [Nat.zero_add, hlength4] at hout
      simp only [Span.mem_iff, StatementList.span] at hout ⊢
      omega
    · intro j hj
      -- Only a unit with a reference has bytes here.
      cases hlist : visit.statementList? with
      | none =>
        rw [hlengths, reference_eq_nil_of_statementList? hlist] at hj
        simp at hj
      | some reference =>
        obtain ⟨hvalue, hlength4, hword⟩ := hreference reference hlist
        have hbyte := hnew reference hlist j (by omega)
        rw [hvalue, Nat.add_sub_cancel_left] at hbyte
        rw [Nat.zero_add, hword]
        exact hbyte
  have hbytes := hholds.drop_eq
  rw [List.drop_zero] at hbytes
  dsimp only at hbytes
  rw [hbytes]
  exact hread target _

/-- A walk whose first unit reads is that visit before the walk of the rest. -/
theorem walkFrom_of_read {abbreviations bytes : Bytes} {offset : Nat} {visit : UnitVisit}
    {visits : List UnitVisit} {stopped : Option DebugError} (hne : ¬ bytes.isEmpty = true)
    (hfirst : UnitVisit.read abbreviations offset bytes = .ok visit)
    (hothers : walkFrom abbreviations (offset + visit.header.totalSize)
      (bytes.drop visit.header.totalSize) = (visits, stopped)) :
    walkFrom abbreviations offset bytes = (visit :: visits, stopped) := by
  rw [walkFrom, if_neg hne, hfirst]
  dsimp only
  rw [hothers]

/-- Storing other references where a walk found these makes the walk yield the new ones. -/
theorem walkFrom_redirect {abbreviations bytes bytes' : Bytes} {offset : Nat}
    {visits : List UnitVisit} (h : walkFrom abbreviations offset bytes = (visits, none))
    (target : UnitVisit → UInt32) (hlength : bytes'.length = bytes.length)
    (hsame : ∀ i, (∀ visit ∈ visits, ∀ reference, visit.statementList? = some reference →
      offset + i ∉ reference.span) → bytes'[i]? = bytes[i]?)
    (hnew : ∀ visit ∈ visits, ∀ reference, visit.statementList? = some reference → ∀ j < 4,
      bytes'[reference.valueOffset - offset + j]? = (bytesOfWord32 (target visit))[j]?) :
    walkFrom abbreviations offset bytes' =
      (visits.map fun visit => visit.redirect (target visit), none) := by
  fun_induction walkFrom abbreviations offset bytes generalizing visits bytes' with
  | case1 offset bytes hempty =>
    cases h
    rw [List.isEmpty_iff] at hempty
    subst hempty
    obtain rfl := List.length_eq_zero_iff.mp hlength
    rw [walkFrom]
    rfl
  | case2 => cases h
  | case3 offset bytes hne first hfirst others stopped hothers ih =>
    cases h
    have hbounds := walkFrom_bounds hothers
    obtain ⟨hoffset, htotal, hspan⟩ := UnitVisit.read_bounds hfirst
    rw [List.forall_mem_cons] at hnew
    simp only [List.forall_mem_cons] at hsame
    -- The references of the others are behind the first unit, and its own is within it.
    have hsameFirst : ∀ i < first.header.totalSize,
        (∀ reference, first.statementList? = some reference → offset + i ∉ reference.span) →
          bytes'[i]? = bytes[i]? := by
      intro i hi hout
      refine hsame i ⟨hout, fun visit hvisit reference hreference hmem => ?_⟩
      obtain ⟨hstart, -, hspan⟩ := hbounds visit hvisit
      have := (hspan reference hreference).1
      rw [Span.mem_iff] at hmem
      omega
    have hsameOthers : ∀ i, (∀ visit ∈ others, ∀ reference,
        visit.statementList? = some reference →
          offset + first.header.totalSize + i ∉ reference.span) →
        (bytes'.drop first.header.totalSize)[i]? = (bytes.drop first.header.totalSize)[i]? := by
      intro i hout
      rw [List.getElem?_drop, List.getElem?_drop]
      refine hsame _ ⟨fun reference hreference hmem => ?_, by rwa [← Nat.add_assoc]⟩
      have := (hspan reference hreference).2
      simp only [Span.mem_iff, UnitVisit.span] at hmem this
      omega
    have hnewOthers : ∀ visit ∈ others, ∀ reference, visit.statementList? = some reference →
        ∀ j < 4, (bytes'.drop first.header.totalSize)[
          reference.valueOffset - (offset + first.header.totalSize) + j]? =
            (bytesOfWord32 (target visit))[j]? := by
      intro visit hvisit reference hreference j hj
      obtain ⟨hstart, -, hspan⟩ := hbounds visit hvisit
      have := (hspan reference hreference).1
      rw [List.getElem?_drop, ← hnew.2 visit hvisit reference hreference j hj]
      congr 1
      simp only [StatementList.span] at this
      omega
    have hne' : ¬ bytes'.isEmpty = true := by
      rw [List.isEmpty_iff_length_eq_zero] at hne ⊢
      rwa [hlength]
    have hfirst' := UnitVisit.read_redirect hfirst (target first) hlength hsameFirst hnew.1
    refine walkFrom_of_read hne' hfirst' (ih hothers ?_ hsameOthers hnewOthers)
    show (bytes'.drop first.header.totalSize).length = (bytes.drop first.header.totalSize).length
    rw [List.length_drop, List.length_drop, hlength]

/-- A walk that reaches the end of some bytes goes on over those that follow. -/
theorem walkFrom_append {abbreviations bytes : Bytes} {offset : Nat} {visits : List UnitVisit}
    (h : walkFrom abbreviations offset bytes = (visits, none)) (more : Bytes) :
    walkFrom abbreviations offset (bytes ++ more) =
      (visits ++ (walkFrom abbreviations (offset + bytes.length) more).1,
        (walkFrom abbreviations (offset + bytes.length) more).2) := by
  fun_induction walkFrom abbreviations offset bytes generalizing visits with
  | case1 offset bytes hempty =>
    cases h
    rw [List.isEmpty_iff] at hempty
    subst hempty
    rfl
  | case2 => cases h
  | case3 offset bytes hne first hfirst others stopped hothers ih =>
    cases h
    -- the unit lies in the first bytes, so more bytes behind it do not change it
    have hlength := (UnitVisit.read_bounds hfirst).2.1
    have hmore := ih hothers
    rw [List.length_drop, Nat.add_assoc, Nat.add_sub_cancel' hlength,
      ← List.drop_append_of_le_length hlength] at hmore
    have hne' : ¬ (bytes ++ more).isEmpty = true := by
      simp only [List.isEmpty_iff, List.append_eq_nil_iff] at hne ⊢
      exact fun hboth => hne hboth.1
    rw [walkFrom_of_read hne' (UnitVisit.read_append hfirst more) hmore]
    rfl

/-! ## References -/

/-- The reference with another line program. -/
def StatementList.retarget (target : UInt32 → UInt32) (reference : StatementList) : StatementList :=
  { reference with lineOffset := target reference.lineOffset }

/-- Redirecting a visit changes the offset in its statement list and nothing else. -/
theorem UnitVisit.statementList?_redirect (visit : UnitVisit) (lineOffset : UInt32) :
    (visit.redirect lineOffset).statementList? =
      visit.statementList?.map fun reference => { reference with lineOffset } := by
  obtain ⟨offset, header, root⟩ := visit
  cases root <;> rfl

/-- The units of a walk follow each other. -/
theorem walkFrom_pairwise {abbreviations bytes : Bytes} {offset : Nat} {visits : List UnitVisit}
    {stopped : Option DebugError} (h : walkFrom abbreviations offset bytes = (visits, stopped)) :
    visits.Pairwise fun first second => first.span.stop ≤ second.span.start := by
  fun_induction walkFrom abbreviations offset bytes generalizing visits with
  | case1 =>
    cases h
    exact .nil
  | case2 =>
    cases h
    exact .nil
  | case3 offset bytes hne first hfirst others stopped' hothers ih =>
    cases h
    obtain ⟨hoffset, -, -⟩ := UnitVisit.read_bounds hfirst
    refine .cons (fun visit hvisit => ?_) (ih hothers)
    rw [UnitVisit.span, hoffset]
    exact (walkFrom_bounds hothers visit hvisit).1

/-- No two references are stored in one place. -/
theorem statementLists_pairwise (info abbreviations : Bytes) :
    (statementLists info abbreviations).1.Pairwise fun a b => a.span.Apart b.span := by
  have hwalk : walkFrom abbreviations 0 info = (_, _) := (Prod.eta _).symm
  have hbounds := walkFrom_bounds hwalk
  show ((walkFrom abbreviations 0 info).1.filterMap UnitVisit.statementList?).Pairwise _
  rw [List.pairwise_filterMap]
  refine (walkFrom_pairwise hwalk).imp_of_mem fun hfirst hsecond hle a ha b hb => ?_
  have hstop := ((hbounds _ hfirst).2.2 a ha).2
  have hstart := ((hbounds _ hsecond).2.2 b hb).1
  exact Span.apart_of_le (by omega)

/-- Storing other references where a section has its own changes the references and nothing else. -/
theorem statementLists_redirect {info info' abbreviations : Bytes}
    (hcomplete : (statementLists info abbreviations).2 = none) (target : StatementList → UInt32)
    (hlength : info'.length = info.length)
    (hsame : ∀ i, (∀ reference ∈ (statementLists info abbreviations).1, i ∉ reference.span) →
      info'[i]? = info[i]?)
    (hnew : ∀ reference ∈ (statementLists info abbreviations).1, ∀ j < 4,
      info'[reference.valueOffset + j]? = (bytesOfWord32 (target reference))[j]?) :
    statementLists info' abbreviations =
      ((statementLists info abbreviations).1.map fun reference =>
        { reference with lineOffset := target reference }, none) := by
  have hwalk : walkFrom abbreviations 0 info = ((walk info abbreviations).1, none) :=
    Prod.ext rfl hcomplete
  have hmem : ∀ visit ∈ (walk info abbreviations).1, ∀ reference,
      visit.statementList? = some reference →
        reference ∈ (statementLists info abbreviations).1 := fun visit hvisit reference h =>
    List.mem_filterMap.mpr ⟨visit, hvisit, h⟩
  -- Units without a reference have none to change, so any word will do for them.
  have hwalk' := walkFrom_redirect hwalk
    (fun visit => (visit.statementList?.map target).getD 0) hlength
    (fun i hout => hsame i fun reference hreference => by
      obtain ⟨visit, hvisit, hreference⟩ := List.mem_filterMap.mp hreference
      have := hout visit hvisit reference hreference
      rwa [Nat.zero_add] at this)
    (fun visit hvisit reference hreference j hj => by
      rw [hreference, Nat.sub_zero]
      exact hnew reference (hmem visit hvisit reference hreference) j hj)
  rw [statementLists, walk, hwalk']
  refine Prod.ext ?_ rfl
  show List.filterMap _ (List.map _ _) = List.map _ (List.filterMap _ _)
  rw [List.filterMap_map, List.map_filterMap]
  refine List.filterMap_congr fun visit _ => ?_
  rw [Function.comp_apply, UnitVisit.statementList?_redirect]
  cases visit.statementList? <;> rfl

/-- The same where the new references depend on the old ones only. -/
theorem statementLists_retarget {info info' abbreviations : Bytes}
    (hcomplete : (statementLists info abbreviations).2 = none) (target : UInt32 → UInt32)
    (hlength : info'.length = info.length)
    (hsame : ∀ i, (∀ reference ∈ (statementLists info abbreviations).1, i ∉ reference.span) →
      info'[i]? = info[i]?)
    (hnew : ∀ reference ∈ (statementLists info abbreviations).1, ∀ j < 4,
      info'[reference.valueOffset + j]? = (bytesOfWord32 (target reference.lineOffset))[j]?) :
    statementLists info' abbreviations =
      ((statementLists info abbreviations).1.map (StatementList.retarget target), none) :=
  statementLists_redirect hcomplete (fun reference => target reference.lineOffset) hlength hsame hnew

/-- The references of a section are stored within it. -/
theorem statementLists_bounds {info abbreviations : Bytes} {reference : StatementList}
    (h : reference ∈ (statementLists info abbreviations).1) :
    reference.span.stop ≤ info.length := by
  obtain ⟨visit, hvisit, hreference⟩ := List.mem_filterMap.mp h
  have hwalk : walkFrom abbreviations 0 info = (_, _) := (Prod.eta _).symm
  obtain ⟨-, hstop, hspan⟩ := walkFrom_bounds hwalk visit hvisit
  have := (hspan reference hreference).2
  omega

/-- Writing words where a section has its references, in any order, changes the references to these
words: all the units are found again, and the references in the same places. -/
theorem statementLists_writeWords {info abbreviations : Bytes}
    (hcomplete : (statementLists info abbreviations).2 = none) (target : StatementList → UInt32)
    {edits : List (Nat × UInt32)}
    (hedits : edits.Perm ((statementLists info abbreviations).1.map fun reference =>
      (reference.valueOffset, target reference))) :
    statementLists ((Elf.Image.mk info).writeWords edits).bytes abbreviations =
      ((statementLists info abbreviations).1.map fun reference =>
        { reference with lineOffset := target reference }, none) := by
  -- the edits may be in any order, so they are looked at one by one
  have hmem (edit : Nat × UInt32) : edit ∈ edits ↔
      ∃ reference ∈ (statementLists info abbreviations).1,
        (reference.valueOffset, target reference) = edit := by
    rw [hedits.mem_iff, List.mem_map]
  have hlength : ((Elf.Image.mk info).writeWords edits).bytes.length = info.length := by
    refine Elf.Image.length_writeWords fun edit hedit => ?_
    obtain ⟨reference, hreference, rfl⟩ := (hmem edit).mp hedit
    exact statementLists_bounds hreference
  -- no two of them touch the same byte, so the last write of a byte is the only one
  have hapart : edits.Pairwise fun a b => (Elf.Image.editSpan a).Apart (Elf.Image.editSpan b) := by
    refine (hedits.pairwise_iff fun hab => Span.Apart.symm hab).mpr ?_
    rw [List.pairwise_map]
    exact statementLists_pairwise info abbreviations
  refine statementLists_redirect hcomplete target hlength (fun i hout => ?_) ?_
  · by_cases hi : i < info.length
    · refine Elf.Image.getElem?_writeWords_outside hi fun edit hedit => ?_
      obtain ⟨reference, hreference, rfl⟩ := (hmem edit).mp hedit
      exact hout reference hreference
    · rw [List.getElem?_eq_none (by omega), List.getElem?_eq_none (by omega)]
  · intro reference hreference j hj
    exact Elf.Image.getElem?_writeWords_inside hapart ((hmem _).mpr ⟨reference, hreference, rfl⟩) hj

/-- Two compile units and the table that they share, which declares an indirect form. -/
def unitsOfTwoForms : Bytes × Bytes :=
  ([14, 0, 0, 0, 2, 0, 0, 0, 0, 0, 4, 1, 0x06, 50, 0, 0, 0, 9] ++
    [13, 0, 0, 0, 4, 0, 0, 0, 0, 0, 4, 1, 0x17, 50, 0, 0, 0],
  [1, 17, 0, 0x10, 0x16, 0, 0, 0])

/-- The second reference is written first. -/
theorem statementLists_writeWords_unitsOfTwoForms :
    statementLists ((Elf.Image.mk unitsOfTwoForms.1).writeWords [(31, 7), (13, 300)]).bytes
      unitsOfTwoForms.2 = ([⟨0, 13, 300⟩, ⟨18, 31, 7⟩], none) :=
  (statementLists_writeWords (by decide +kernel)
    (fun reference => if reference.unitOffset = 0 then 300 else 7) (by decide +kernel)).trans
      (by decide +kernel)

end DwarfLines
