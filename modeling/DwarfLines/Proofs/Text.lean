import DwarfLines.Text.Columns
import DwarfLines.Text.Path
import Mathlib.Data.List.Basic

/-!
# Numerals, columns and full paths

What the texts of a listing look like, said without the functions that make them: the digits of a
numeral, what fills a column up to its width, and the names that follow each other in a full path.
The functions are then shown to make such texts.
-/

namespace DwarfLines

namespace Text

/-- Whether a text is the hexadecimal numeral of a number: its digits with the highest first, and no
zero in front of others. -/
inductive IsHexadecimal : Nat → String → Prop where
  | digit {n : Nat} : n < 16 → IsHexadecimal n (String.ofList [n.digitChar])
  | append {n digit : Nat} {text : String} : IsHexadecimal n text → 0 < n → digit < 16 →
      IsHexadecimal (16 * n + digit) (text ++ String.ofList [digit.digitChar])

/-- Every number has its digits: by induction on how many there are, the last of them apart. -/
theorem isHexadecimal_hexDigits (n : Nat) : IsHexadecimal n (hexDigits n) := by
  induction n using Nat.strongRecOn with
  | ind n ih =>
    unfold hexDigits
    by_cases hlt : n < 16
    · rw [Nat.toDigits_of_lt_base hlt]
      exact .digit hlt
    · have hdiv : 0 < n / 16 := Nat.div_pos (Nat.not_lt.mp hlt) (by decide)
      have hfront : IsHexadecimal (n / 16) (hexDigits (n / 16)) :=
        ih (n / 16) (Nat.div_lt_self (by omega) (by decide))
      have hdigits := hfront.append hdiv (Nat.mod_lt n (by decide : 0 < 16))
      rw [Nat.div_add_mod] at hdigits
      rw [Nat.toDigits_of_base_le (by decide) (Nat.not_lt.mp hlt), String.ofList_append]
      exact hdigits

/-- Whether a text is some content in a column of a width, aligned to the right: behind as many
filling characters as are missing, and alone if none are. -/
def IsRight (fill : Char) (width : Nat) (content text : String) : Prop :=
  ∃ filling : List Char, text = String.ofList filling ++ content ∧ (∀ c ∈ filling, c = fill) ∧
    text.length = max width content.length

/-- Whether a text is some content in a column of a width, aligned to the left. -/
def IsLeft (width : Nat) (content text : String) : Prop :=
  ∃ filling : List Char, text = content ++ String.ofList filling ∧ (∀ c ∈ filling, c = ' ') ∧
    text.length = max width content.length

theorem isRight_padLeft (fill : Char) (width : Nat) (content : String) :
    IsRight fill width content (padLeft fill width content) := by
  refine ⟨_, rfl, fun c => List.eq_of_mem_replicate, ?_⟩
  rw [padLeft, String.length_append, String.length_ofList, List.length_replicate]
  omega

theorem isLeft_padRight (width : Nat) (content : String) :
    IsLeft width content (padRight width content) := by
  refine ⟨_, rfl, fun c => List.eq_of_mem_replicate, ?_⟩
  rw [padRight, String.length_append, String.length_ofList, List.length_replicate]
  omega

end Text

namespace Path

/-! ## Full paths -/

/-- Whether a text is the path `path` taken from a directory: where the path starts, then its names with
one slash between neighbours, then a slash if the path ends in one. -/
def IsFull (directory path text : String) : Prop :=
  let start := if isAbsolute path then root path else directory
  let slash := if endsInSlash path then "/" else ""
  if names path = [] then text = if endsInSlash path then withSlash start else start
  else text = withSlash start ++ String.intercalate "/" (names path) ++ slash

/-- A piece of a path has no slash: splitting only ever puts a character that is not one into the first
piece. -/
theorem not_mem_of_mem_splitOn {text piece : List Char} (h : piece ∈ text.splitOn '/') :
    '/' ∉ piece := by
  induction text generalizing piece with
  -- a slash opens a new piece, any other character joins the first one
  | nil =>
    rw [List.splitOn_nil, List.mem_singleton] at h
    simp [h]
  | cons c text ih =>
    rw [List.splitOn_cons_eq_if_modifyHead] at h
    split at h
    · rcases List.mem_cons.mp h with rfl | h
      · exact List.not_mem_nil
      · exact ih h
    · rename_i hc
      cases hsplit : text.splitOn '/' with
      | nil => exact absurd hsplit (List.splitOn_ne_nil _ _)
      | cons first others =>
        rw [hsplit] at h ih
        rw [List.modifyHead_cons] at h
        rcases List.mem_cons.mp h with rfl | h
        · rw [List.mem_cons, not_or]
          exact ⟨fun heq => hc (beq_iff_eq.mpr heq.symm), ih List.mem_cons_self⟩
        · exact ih (List.mem_cons_of_mem _ h)

/-- A name is not empty and does not end in a slash. -/
theorem of_mem_names {path name : String} (h : name ∈ names path) :
    name ≠ "" ∧ endsInSlash name = false := by
  obtain ⟨hpiece, hname⟩ := List.mem_filter.mp h
  obtain ⟨piece, hsplit, rfl⟩ := List.mem_map.mp hpiece
  have hslash := not_mem_of_mem_splitOn hsplit
  rw [Bool.and_eq_true, bne_iff_ne] at hname
  refine ⟨hname.1, ?_⟩
  rw [endsInSlash, String.toList_ofList, beq_eq_false_iff_ne]
  exact fun hlast => hslash (List.mem_of_getLast? hlast)

/-- Behind a name there is no slash yet. -/
theorem withSlash_append {front name : String} (hne : name ≠ "") (hslash : endsInSlash name = false) :
    withSlash (front ++ name) = front ++ name ++ "/" := by
  have hlist : name.toList ≠ [] := by simpa using hne
  have hend : endsInSlash (front ++ name) = false := by
    rw [endsInSlash, String.toList_append, List.getLast?_append_of_ne_nil _ hlist]
    exact hslash
  have hempty : front ++ name ≠ "" := by
    rw [Ne, ← String.toList_inj, String.toList_append]
    simp [hlist]
  rw [withSlash, hend, if_neg (by simpa using hempty)]

/-- Names put behind a path one by one stand with one slash between neighbours. -/
theorem foldl_withSlash {first : String} {others : List String} (start : String)
    (hfirst : first ≠ "" ∧ endsInSlash first = false)
    (hothers : ∀ name ∈ others, name ≠ "" ∧ endsInSlash name = false) :
    ((first :: others).foldl (fun base name => withSlash base ++ name) start =
      withSlash start ++ String.intercalate "/" (first :: others)) ∧
    withSlash ((first :: others).foldl (fun base name => withSlash base ++ name) start) =
      withSlash start ++ String.intercalate "/" (first :: others) ++ "/" := by
  -- each name is put behind a slash, so the slash stays at the end of the directory
  induction others generalizing first start with
  | nil =>
    rw [String.intercalate_singleton]
    exact ⟨rfl, withSlash_append hfirst.1 hfirst.2⟩
  | cons second others ih =>
    rw [List.forall_mem_cons] at hothers
    obtain ⟨hall, hslash⟩ := ih (withSlash start ++ first) hothers.1 hothers.2
    rw [withSlash_append hfirst.1 hfirst.2] at hall hslash
    rw [List.foldl_cons, hall, String.intercalate_cons_cons]
    rw [hall] at hslash
    constructor
    · simp only [String.append_assoc]
    · rw [hslash]
      simp only [String.append_assoc]

/-- What stands for a path in a directory is the full path. -/
theorem isFull_absolute (directory path : String) :
    IsFull directory path (absolute directory path) := by
  have hnames (name : String) (h : name ∈ names path) := of_mem_names h
  unfold IsFull absolute
  dsimp only
  -- a path without names is the directory itself
  cases hall : names path with
  | nil => rw [if_pos rfl, List.foldl_nil]
  | cons first others =>
    rw [hall, List.forall_mem_cons] at hnames
    obtain ⟨hfull, hslash⟩ :=
      foldl_withSlash (if isAbsolute path then root path else directory) hnames.1 hnames.2
    rw [if_neg (List.cons_ne_nil _ _)]
    by_cases hend : endsInSlash path = true
    · rw [if_pos hend, if_pos hend, hslash]
    · rw [if_neg hend, if_neg hend, hfull, String.append_empty]

/-- Whether a text is what a path stands for in a directory, if there is one. -/
inductive IsResolved : Option String → String → String → Prop where
  /-- In a directory it is the full path. -/
  | inside {directory path text : String} : IsFull directory path text →
      IsResolved (some directory) path text
  /-- An absolute path needs no directory. -/
  | absolute {path text : String} : isAbsolute path = true → IsFull "/" path text →
      IsResolved none path text
  /-- A relative path without a directory is kept. -/
  | relative {path : String} : isAbsolute path = false → IsResolved none path path

theorem isResolved_resolve (directory : Option String) (path : String) :
    IsResolved directory path (resolve directory path) := by
  cases directory with
  | some directory => exact .inside (isFull_absolute directory path)
  | none =>
    unfold resolve
    by_cases habsolute : isAbsolute path = true
    · dsimp only
      rw [if_pos habsolute]
      exact .absolute habsolute (isFull_absolute "/" path)
    · dsimp only
      rw [if_neg habsolute]
      exact .relative (Bool.eq_false_iff.mpr habsolute)

end Path

end DwarfLines
