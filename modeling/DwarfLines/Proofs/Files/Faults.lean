import DwarfLines.Proofs.Files.Tree

/-!
# Files that fail

Any operation on files may fail for a reason that a tree does not show: a device is full, say, or
does not answer. `faultyFileSystem` carries out the operations on a tree and lets given ones fail;
without faults these are the operations on a tree (`faultyFileSystem_none`). Whatever the faults, it keeps
the laws of file systems (`lawful_faultyFileSystem`).
-/

namespace DwarfLines.Tree

open Outcome

variable {ε α : Type}

/-- The operations of a run that fail although the tree may let them succeed, and their errors. -/
structure Faults where
  read : Option SystemError := none
  mode : Option SystemError := none
  /-- The error comes with the path of the file that could not be made. -/
  createTemporary : Option (SystemError × String) := none
  /-- The error comes with what was stored before the write failed. -/
  write : Option (SystemError × Bytes) := none
  flush : Option SystemError := none
  setMode : Option SystemError := none
  rename : Option SystemError := none
  deriving DecidableEq, Repr

/-- Carries out an operation unless it is to fail; then nothing changes. -/
def unlessFault (fault : Option ε) (operation : StateM Tree (Except ε α)) :
    StateM Tree (Except ε α) :=
  match fault with
  | some e => return .error e
  | none => operation

/-- The operations on files, carried out on a tree with faults. A temporary file can always be
removed. -/
def faultyFileSystem (faults : Faults) : FileSystem (StateM Tree) (List String) where
  read path := unlessFault faults.read (fileSystem.read path)
  mode path := unlessFault faults.mode (fileSystem.mode path)
  createTemporary directory :=
    unlessFault faults.createTemporary (fileSystem.createTemporary directory)
  write place contents :=
    match faults.write with
    | some (e, stored) => do
      let _ ← fileSystem.write place stored
      return .error e
    | none => fileSystem.write place contents
  flush place := unlessFault faults.flush (fileSystem.flush place)
  setMode place mode := unlessFault faults.setMode (fileSystem.setMode place mode)
  rename place path := unlessFault faults.rename (fileSystem.rename place path)
  discard := fileSystem.discard

theorem faultyFileSystem_none : faultyFileSystem {} = fileSystem := rfl

section Ensures

variable {before : Tree} {done : α → Tree → Prop} {failed : ε → Tree → Prop}

/-- An operation that is to fail changes nothing. -/
theorem ensures_unlessFault {operation : StateM Tree (Except ε α)} (fault : Option ε)
    (h : Ensures operation before done failed) (hfault : ∀ e, failed e before) :
    Ensures (unlessFault fault operation) before done failed := by
  cases fault with
  | none => exact h
  | some e => exact hfault e

/-- An operation that only looks at the tree leaves it as it is. -/
theorem ensures_ask {ask : Tree → Except ε α} (hdone : ∀ a, ask before = .ok a → done a before)
    (hfailed : ∀ e, failed e before) :
    Ensures (do return ask (← get)) before done failed := by
  have hrun : (do return ask (← get) : StateM Tree (Except ε α)).run before =
      (ask before, before) := rfl
  unfold Ensures
  rw [hrun]
  cases hask : ask before with
  | error e => exact hfailed e
  | ok a => exact hdone a hask

/-- An operation that changes the tree leaves it as it is where it fails. -/
theorem ensures_change {operation : Tree → Except ε (α × Tree)}
    (hdone : ∀ a after, operation before = .ok (a, after) → done a after)
    (hfailed : ∀ e, failed e before) : Ensures (change operation) before done failed := by
  unfold Ensures change
  simp only [StateT.run_bind, StateT.run_get, pure_bind]
  cases hoperation : operation before with
  | error e => exact hfailed e
  | ok result => exact hdone _ _ hoperation

end Ensures

variable {tree : Tree} {place : List String} {file : File}

theorem ne_directory_of_lookup (h : tree.lookup place = some (.file file)) :
    tree.lookup place ≠ some .directory := by
  simp [h]

/-- A file that is put in the place of itself unchanged is where it was. -/
theorem puts_self (h : tree.lookup place = some (.file file)) :
    world.Puts place (some (.file file)) tree tree :=
  ⟨h, fun _ _ => rfl, rfl⟩

/-- To change a file that is there always succeeds, and changes nothing else. -/
theorem ensures_modifyFile {failed : SystemError → Tree → Prop}
    (h : tree.lookup place = some (.file file)) (alter : File → File) :
    Ensures (change fun tree => do return ((), ← tree.modifyFile place alter)) tree
      (fun _ after => world.Puts place (some (.file (alter file))) tree after) failed := by
  unfold Ensures change
  simp only [StateT.run_bind, StateT.run_get, pure_bind, modifyFile_eq_ok h]
  exact puts_insert (ne_directory_of_lookup h) _

/-- Whatever its faults, a tree of files keeps the laws of file systems. -/
theorem lawful_faultyFileSystem (faults : Faults) :
    (faultyFileSystem faults).Lawful world id where
  read path tree := by
    refine ensures_unlessFault _ (ensures_ask (fun data hread => ⟨.refl tree, ?_⟩) ?_) ?_
    · exact read_eq_ok hread
    · exact fun e => .refl tree
    · exact fun e => .refl tree
  mode path tree := by
    refine ensures_unlessFault _ (ensures_ask (fun mode hmode => ⟨.refl tree, ?_⟩) ?_) ?_
    · intro source file hplace hlookup
      exact Except.ok.inj ((mode_of_lookup hplace hlookup).symm.trans hmode)
    · exact fun e => .refl tree
    · exact fun e => .refl tree
  createTemporary directory tree := by
    refine ensures_unlessFault _ (ensures_change (fun place after h => ?_) ?_) ?_
    · obtain ⟨hfree, rfl⟩ := createTemporary_eq_ok h
      exact ⟨hfree, 0o600, puts_insert (by simp [hfree]) _⟩
    · exact fun e => .refl tree
    · exact fun e => .refl tree
  write contents tree hfile := by
    unfold faultyFileSystem
    cases faults.write with
    | none => exact ensures_modifyFile hfile _
    | some fault =>
      obtain ⟨e, stored⟩ := fault
      -- Whatever was stored before the write failed is in the temporary file, and nowhere else.
      have hstored : Ensures (fileSystem.write _ stored) tree
          (fun _ after => world.Puts _ (some (.file ⟨stored, _⟩)) tree after) (fun _ _ => False) :=
        ensures_modifyFile hfile _
      exact hstored.andThen (fun _ after hafter => ⟨_, hafter⟩) nofun
  flush hfile := ensures_unlessFault _ (.refl _) fun e => ⟨_, puts_self hfile⟩
  setMode mode tree hfile :=
    ensures_unlessFault _ (ensures_modifyFile hfile _) fun e => ⟨_, puts_self hfile⟩
  rename path tree hfile := by
    refine ensures_unlessFault _ (ensures_change (fun _ after h => ?_) ?_) ?_
    · obtain ⟨after', hrename, hafter⟩ := bind_eq_ok_iff.mp h
      cases hafter
      obtain ⟨target, node, htarget, hfree, hnode, rfl⟩ := rename_eq_ok hrename
      obtain rfl := Option.some.inj (hfile.symm.trans hnode)
      exact ⟨target, htarget, hfree, moves_insert_erase hfile hfree⟩
    · exact fun e => .refl tree
    · exact fun e => .refl tree
  discard hfile := puts_erase (ne_directory_of_lookup hfile)

end DwarfLines.Tree
