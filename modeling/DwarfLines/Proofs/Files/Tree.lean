import DwarfLines.Files.Tree
import DwarfLines.Proofs.Files.Laws
import DwarfLines.Proofs.Outcomes

/-!
# What operations do to a tree

A tree is seen through `lookup`: an insertion changes what stands at one place and nothing else.
Where a path leads depends on the directories of a tree only (`SameDirectories`), so that files may
come and go while a path is followed. `place?` says which place a path stands for, whether or not a
file is there. What is seen of a tree is its `world`, and there are equations for what each operation
does to it.
-/

namespace DwarfLines.Tree

open Outcome

variable {tree : Tree} {place other : List String}

/-! ## One place -/

/-- A place without a directory is not the root. -/
theorem ne_nil_of_lookup_ne_directory (h : tree.lookup place ≠ some .directory) : place ≠ [] := by
  rintro rfl
  exact h rfl

/-- Below the root, a place has what the nodes say. -/
theorem lookup_of_ne_nil (h : place ≠ []) : tree.lookup place = tree.nodes.lookup place := by
  rw [lookup, if_neg (by simpa using h)]

/-- Erasing a place leaves the others. -/
theorem lookup_erase_of_ne (h : other ≠ place) :
    (tree.erase place).lookup other = tree.lookup other := by
  obtain ⟨nodes, current⟩ := tree
  unfold lookup erase
  congr 1
  induction nodes with
  | nil => rfl
  | cons entry nodes ih =>
    obtain ⟨key, node⟩ := entry
    by_cases hkey : key = place
    · subst hkey
      rw [List.filter_cons_of_neg (by simp), ih, List.lookup_cons, beq_false_of_ne h]
    · rw [List.filter_cons_of_pos (by simpa using hkey), List.lookup_cons, List.lookup_cons, ih]

/-- A place has what was put there. -/
theorem lookup_insert_self (h : place ≠ []) (node : Node) :
    (tree.insert place node).lookup place = some node := by
  rw [lookup_of_ne_nil h]
  exact List.lookup_cons_self

/-- Putting something at a place leaves the others. -/
theorem lookup_insert_of_ne (h : other ≠ place) (node : Node) :
    (tree.insert place node).lookup other = tree.lookup other := by
  by_cases hnil : other = []
  · subst hnil
    rfl
  · calc (tree.insert place node).lookup other
        = List.lookup other ((place, node) :: (tree.erase place).nodes) := lookup_of_ne_nil hnil
      _ = (tree.erase place).nodes.lookup other := by rw [List.lookup_cons, beq_false_of_ne h]
      _ = (tree.erase place).lookup other := (lookup_of_ne_nil hnil).symm
      _ = tree.lookup other := lookup_erase_of_ne h

/-- Where a node is erased nothing is left, unless it is the root. -/
theorem lookup_erase_self (h : place ≠ []) : (tree.erase place).lookup place = none := by
  rw [lookup_of_ne_nil h, List.lookup_eq_none_iff]
  rintro ⟨key, node⟩ hentry
  have hkey : key ≠ place := by simpa using (List.mem_filter.mp hentry).2
  exact bne_iff_ne.mpr hkey.symm

/-! ## Following paths -/

/-- A piece of a path leads on where a directory has its name, unless it is one of those that lead
on from everywhere. -/
theorem enter_eq_ok_iff {piece : String} {inner : List String} :
    tree.enter place piece = .ok inner ↔
      if piece == "" || piece == "." then place = inner
      else if piece == ".." then place.dropLast = inner
      else piece.utf8ByteSize ≤ nameLimit ∧ tree.lookup (place ++ [piece]) = some .directory ∧
        place ++ [piece] = inner := by
  unfold enter
  split
  · rw [Except.ok.injEq]
  · split
    · rw [Except.ok.injEq]
    · split
      · rename_i hlong
        simp [Nat.not_le.mpr hlong]
      · rename_i hshort
        rcases tree.lookup (place ++ [piece]) with _ | _ | _ <;> simp [Nat.not_lt.mp hshort]

/-- Whether two trees have the same directories, and the same of them is current. -/
structure SameDirectories (before after : Tree) : Prop where
  current : before.current = after.current
  lookup_iff : ∀ place, before.lookup place = some .directory ↔ after.lookup place = some .directory

namespace SameDirectories

variable {before after : Tree} {path : String}

/-- The same directories are the same the other way. -/
theorem symm (h : SameDirectories before after) : SameDirectories after before :=
  ⟨h.current.symm, fun place => (h.lookup_iff place).symm⟩

/-- A file that takes no directory's place leaves the directories as they are. -/
theorem insert_file (h : tree.lookup place ≠ some .directory) (file : File) :
    SameDirectories tree (tree.insert place (.file file)) := by
  refine ⟨rfl, fun other => ?_⟩
  by_cases hother : other = place
  · subst hother
    rw [lookup_insert_self (ne_nil_of_lookup_ne_directory h)]
    simp [h]
  · rw [lookup_insert_of_ne hother]

/-- Erasing a file leaves the directories as they are. -/
theorem erase_file (h : tree.lookup place ≠ some .directory) :
    SameDirectories tree (tree.erase place) := by
  refine ⟨rfl, fun other => ?_⟩
  by_cases hother : other = place
  · subst hother
    rw [lookup_erase_self (ne_nil_of_lookup_ne_directory h)]
    simp [h]
  · rw [lookup_erase_of_ne hother]

/-- A directory can be entered where the directories are the same. -/
theorem enter_eq_ok (h : SameDirectories before after) {piece : String} {inner : List String}
    (henter : before.enter place piece = .ok inner) : after.enter place piece = .ok inner := by
  rw [enter_eq_ok_iff] at henter ⊢
  rwa [← h.lookup_iff]

/-- So can a row of them. -/
theorem foldlM_enter_eq_ok (h : SameDirectories before after) {pieces : List String}
    {inner : List String} (henter : pieces.foldlM before.enter place = .ok inner) :
    pieces.foldlM after.enter place = .ok inner := by
  induction pieces generalizing place with
  | nil => exact henter
  | cons piece pieces ih =>
    obtain ⟨next, hnext, hrest⟩ := bind_eq_ok_iff.mp henter
    exact bind_eq_ok_iff.mpr ⟨next, h.enter_eq_ok hnext, ih hrest⟩

/-- A path leads to the same place where the directories are the same. -/
theorem target_eq_ok (h : SameDirectories before after) {target : Target}
    (htarget : before.target path = .ok target) : after.target path = .ok target := by
  have hstart : before.start path = after.start path := by rw [start, start, h.current]
  unfold Tree.target at htarget ⊢
  -- The tree is asked only where the path starts and where its pieces lead.
  simp only [throw_bind, ite_throw_eq_ok_iff, hstart] at htarget ⊢
  refine htarget.imp id (.imp id fun htarget => ?_)
  split at htarget
  · exact htarget
  · obtain ⟨directory, hdirectory, htarget⟩ := bind_eq_ok_iff.mp htarget
    exact bind_eq_ok_iff.mpr ⟨directory, h.foldlM_enter_eq_ok hdirectory, htarget⟩

end SameDirectories

/-- Whether a path stands for a place: it leads to a directory, and ends in a name that a file may
have there. -/
structure Names (tree : Tree) (path : String) (directory : List String) (name : String) : Prop where
  holdsNul : Path.holdsNul path = false
  target : tree.target path = .ok ⟨directory, some name, false⟩
  isName : (name == "." || name == "..") = false
  size_le : name.utf8ByteSize ≤ nameLimit

namespace Names

variable {path name : String} {directory : List String}

/-- A path names the same place where the directories are the same. -/
theorem of_sameDirectories {before after : Tree} (hsame : SameDirectories before after)
    (h : before.Names path directory name) : after.Names path directory name :=
  { h with target := hsame.target_eq_ok h.target }

/-- What a path names is what is at its place. -/
theorem find_eq (h : tree.Names path directory name) :
    tree.find path = match tree.lookup (directory ++ [name]) with
      | none => .error .noSuchFile
      | some node => .ok (directory ++ [name], node) := by
  unfold find
  simp only [h.holdsNul, h.target, Bool.false_eq_true, if_false]
  show (if (name == "." || name == "..") = true then _ else _) = _
  rw [if_neg (by simp [h.isName]), if_neg (Nat.not_lt.mpr h.size_le)]
  rcases tree.lookup (directory ++ [name]) with _ | _ | _ <;> rfl

end Names

/-- The place that a path stands for, whether or not a file is there. -/
def place? (tree : Tree) (path : String) : Option (List String) :=
  if Path.holdsNul path then none
  else
    match tree.target path with
    | .ok ⟨directory, some name, false⟩ =>
      if name == "." || name == ".." then none
      else if nameLimit < name.utf8ByteSize then none
      else some (directory ++ [name])
    | _ => none

variable {file : File} {path name : String} {directory : List String}

/-- A path has a place exactly if it names a file in a directory. -/
theorem place?_eq_some_iff : tree.place? path = some place ↔
    ∃ directory name, tree.Names path directory name ∧ directory ++ [name] = place := by
  unfold place?
  -- the directory is found, and what is left is one name with no slash behind it
  constructor
  · intro h
    simp only [Option.ite_none_left_eq_some] at h
    obtain ⟨hnul, h⟩ := h
    split at h
    · rename_i directory name htarget
      simp only [Option.ite_none_left_eq_some, Option.some.injEq] at h
      obtain ⟨hname, hsize, hplace⟩ := h
      rw [Bool.not_eq_true] at hnul hname
      exact ⟨directory, name, ⟨hnul, htarget, hname, Nat.not_lt.mp hsize⟩, hplace⟩
    · cases h
  · rintro ⟨directory, name, hnames, rfl⟩
    rw [hnames.holdsNul, hnames.target]
    simp [hnames.isName, Nat.not_lt.mpr hnames.size_le]

/-- Trees with the same directories follow paths alike. -/
theorem SameDirectories.place?_eq {before after : Tree} (h : SameDirectories before after) :
    after.place? = before.place? := by
  funext path
  refine Option.ext fun place => ?_
  rw [place?_eq_some_iff, place?_eq_some_iff]
  constructor
  · exact fun ⟨directory, name, hnames, hplace⟩ =>
      ⟨directory, name, hnames.of_sameDirectories h.symm, hplace⟩
  · exact fun ⟨directory, name, hnames, hplace⟩ =>
      ⟨directory, name, hnames.of_sameDirectories h, hplace⟩

/-- What is seen of a tree. -/
def world : World Tree (List String) := ⟨lookup, place?⟩

/-- A file put where no directory is. -/
theorem puts_insert (h : tree.lookup place ≠ some .directory) (file : File) :
    world.Puts place (some (.file file)) tree (tree.insert place (.file file)) where
  node_self := lookup_insert_self (ne_nil_of_lookup_ne_directory h) _
  node_other _ hother := lookup_insert_of_ne hother _
  place_eq := (SameDirectories.insert_file h file).place?_eq

/-- A file that is erased. -/
theorem puts_erase (h : tree.lookup place ≠ some .directory) :
    world.Puts place none tree (tree.erase place) where
  node_self := lookup_erase_self (ne_nil_of_lookup_ne_directory h)
  node_other _ hother := lookup_erase_of_ne hother
  place_eq := (SameDirectories.erase_file h).place?_eq

/-! ## Operations -/

/-- A path leads to a file if one stands at the place that the path stands for. -/
theorem find_eq_file_iff : tree.find path = .ok (place, .file file) ↔
    tree.place? path = some place ∧ tree.lookup place = some (.file file) := by
  rw [place?_eq_some_iff]
  constructor
  -- both the path and the node have to name a file; a slash at the end is refused
  · intro h
    unfold find at h
    simp only [throw_bind, ite_throw_eq_ok_iff, bind_eq_ok_iff] at h
    obtain ⟨hnul, ⟨directory, last, slash⟩, htarget, h⟩ := h
    cases last with
    | none => cases h
    | some name =>
      dsimp only at h
      split at h
      · obtain ⟨inner, -, h⟩ := bind_eq_ok_iff.mp h
        cases h
      rename_i hname
      simp only [ite_throw_eq_ok_iff] at h
      obtain ⟨hsize, h⟩ := h
      split at h
      · cases h
      · cases h
      · rename_i hlookup
        simp only [ite_throw_eq_ok_iff] at h
        obtain ⟨hslash, h⟩ := h
        cases h
        rw [Bool.not_eq_true] at hnul hname hslash
        subst hslash
        exact ⟨⟨directory, name, ⟨hnul, htarget, hname, Nat.not_lt.mp hsize⟩, rfl⟩, hlookup⟩
  · rintro ⟨⟨directory, name, hnames, rfl⟩, hlookup⟩
    rw [hnames.find_eq, hlookup]

/-- A file that can be read is there and gives its contents. -/
theorem read_eq_ok {data : Bytes} (h : tree.read path = .ok data) :
    ∃ place file, tree.place? path = some place ∧ tree.lookup place = some (.file file) ∧
      file.contents = data := by
  unfold read at h
  obtain ⟨⟨place, node⟩, hfind, hread⟩ := bind_eq_ok_iff.mp h
  cases node with
  | directory => cases hread
  | file file =>
    obtain ⟨-, hread⟩ := ite_else_throw_eq_ok_iff.mp hread
    obtain ⟨hplace, hlookup⟩ := find_eq_file_iff.mp hfind
    exact ⟨place, file, hplace, hlookup, pure_eq_ok_iff.mp hread⟩

/-- The mode of a path is that of the file at its place. -/
theorem mode_of_lookup (hplace : tree.place? path = some place)
    (hlookup : tree.lookup place = some (.file file)) : tree.mode path = .ok file.mode := by
  rw [mode, find_eq_file_iff.mpr ⟨hplace, hlookup⟩]
  rfl

/-- Nothing is at the place of a temporary file before it is made. -/
theorem lookup_temporaryPlace {directory : String}
    (h : tree.temporaryPlace directory = .ok place) : tree.lookup place = none := by
  unfold temporaryPlace at h
  simp only [throw_bind, ite_throw_eq_ok_iff, bind_eq_ok_iff] at h
  obtain ⟨-, -, inside, -, -, h⟩ := h
  split at h
  · rename_i name hname
    obtain rfl := pure_eq_ok_iff.mp h
    simpa using List.find?_some hname
  · cases h

/-- A new file is put at a free place. -/
theorem createTemporary_eq_ok {directory : String} {after : Tree}
    (h : tree.createTemporary directory = .ok (place, after)) :
    tree.lookup place = none ∧ after = tree.insert place (.file ⟨[], 0o600⟩) := by
  unfold createTemporary at h
  split at h
  · cases h
  · rename_i hplace
    cases h
    exact ⟨lookup_temporaryPlace hplace, rfl⟩

/-- A file that is there can be changed. -/
theorem modifyFile_eq_ok (h : tree.lookup place = some (.file file)) (change : File → File) :
    tree.modifyFile place change = .ok (tree.insert place (.file (change file))) := by
  unfold modifyFile
  rw [h]

/-- A file that is renamed moves to the place that the path stands for, and takes no directory's
place. -/
theorem rename_eq_ok {after : Tree} (h : tree.rename place path = .ok after) :
    ∃ target node, tree.place? path = some target ∧ tree.lookup target ≠ some .directory ∧
      tree.lookup place = some node ∧ after = (tree.erase place).insert target node := by
  unfold rename at h
  simp only [throw_bind, ite_throw_eq_ok_iff, bind_eq_ok_iff] at h
  obtain ⟨hnul, ⟨directory, last, slash⟩, htarget, h⟩ := h
  -- a target that is the root has no name to be replaced
  cases last with
  | none => cases h
  | some name =>
    simp only [ite_throw_eq_ok_iff] at h
    obtain ⟨hname, hsize, hslash, h⟩ := h
    cases hlookup : tree.lookup place with
    | none =>
      rw [hlookup] at h
      cases h
    | some node =>
      simp only [hlookup, ite_throw_eq_ok_iff, pure_eq_ok_iff] at h
      obtain ⟨-, hfree, rfl⟩ := h
      rw [Bool.not_eq_true] at hnul hname hslash
      subst hslash
      have hnames : tree.Names path directory name := ⟨hnul, htarget, hname, Nat.not_lt.mp hsize⟩
      exact ⟨_, node, place?_eq_some_iff.mpr ⟨directory, name, hnames, rfl⟩, hfree, rfl, rfl⟩

/-- The file is where it was moved to and nowhere else. -/
theorem moves_insert_erase {target : List String} (h : tree.lookup place = some (.file file))
    (htarget : tree.lookup target ≠ some .directory) :
    world.Moves place target tree ((tree.erase place).insert target (.file file)) := by
  have hplace : tree.lookup place ≠ some .directory := by simp [h]
  have hsame := SameDirectories.erase_file hplace
  have htarget' : (tree.erase place).lookup target ≠ some .directory := by
    rwa [Ne, ← hsame.lookup_iff]
  have hputs := puts_insert htarget' file
  have herased := puts_erase hplace
  refine ⟨hputs.node_self.trans h.symm, fun hne => ?_, fun other hother hne => ?_,
    hputs.place_eq.trans herased.place_eq⟩
  · rw [hputs.node_other place hne, herased.node_self]
  · rw [hputs.node_other other hne, herased.node_other other hother]

end DwarfLines.Tree
