import DwarfLines.Proofs.Files.Faults
import DwarfLines.Proofs.Shrink.Frame

/-!
# All or nothing

A run that shrinks a file either puts the complete result in the place of the target, or leaves all
files as they were, whichever of its operations fails. This is shown of every file system that keeps the
laws, whatever else it does. A run fails only where an operation of it fails, or because the contents
cannot be shrunk (`FileSystem.StopsWith`).

The temporary file stands at a place that was free. Until it is renamed what is seen is what was seen
before, but for some file at that place, so that removing it brings everything back.
-/

namespace DwarfLines

open Outcome

variable {σ τ Place : Type}

namespace FileSystem

/-- The directory in which the temporary file for a target is made. -/
def temporaryDirectory (target : String) : String :=
  match Path.parent? target with
  | none | some "" => "."
  | some directory => directory

/-- What a run that shrinks a file fails with: the error of the operation that fails, in a state that the
run has come to, or the reason why the contents cannot be shrunk. -/
inductive StopsWith (fs : FileSystem (StateM σ) τ) (world : World σ Place) (place : τ → Place)
    (before : σ) (path target : String) : Failure → Prop where
  | reading {e : SystemError} {after : σ} : (fs.read path).run before = (.error e, after) →
      StopsWith fs world place before path target ⟨[.reading path], .system e⟩
  | shrinking {source : Place} {input : File} {failure : Failure} :
      world.place? before path = some source → world.node before source = some (.file input) →
      ((shrink input.contents).during (.shrinking path)).result = .error failure →
      StopsWith fs world place before path target failure
  | inspecting {state after : σ} {e : SystemError} : world.Same before state →
      (fs.mode path).run state = (.error e, after) →
      StopsWith fs world place before path target ⟨[.inspecting path], .system e⟩
  | creatingTemporary {state after : σ} {e : SystemError} {unmade : String} :
      world.Same before state →
      (fs.createTemporary (temporaryDirectory target)).run state = (.error (e, unmade), after) →
      StopsWith fs world place before path target
        ⟨[.creatingTemporary (temporaryDirectory target)], .temporary e unmade⟩
  | writing {temporary : τ} {file : File} {contents : Bytes} {state after : σ} {e : SystemError} :
      world.Puts (place temporary) (some (.file file)) before state →
      (fs.write temporary contents).run state = (.error e, after) →
      StopsWith fs world place before path target ⟨[.writingTemporary], .system e⟩
  | flushing {temporary : τ} {file : File} {state after : σ} {e : SystemError} :
      world.Puts (place temporary) (some (.file file)) before state →
      (fs.flush temporary).run state = (.error e, after) →
      StopsWith fs world place before path target ⟨[.flushingTemporary], .system e⟩
  | settingPermissions {temporary : τ} {file : File} {mode : Mode} {state after : σ}
      {e : SystemError} : world.Puts (place temporary) (some (.file file)) before state →
      (fs.setMode temporary mode).run state = (.error e, after) →
      StopsWith fs world place before path target ⟨[.settingPermissions], .system e⟩
  | replacing {temporary : τ} {file : File} {state after : σ} {e : SystemError} :
      world.Puts (place temporary) (some (.file file)) before state →
      (fs.rename temporary target).run state = (.error e, after) →
      StopsWith fs world place before path target
        ⟨[.replacing target, .keepingTemporary], .system e⟩

/-- Whether a run stops with a failure, and nothing that is seen has changed. -/
def Fails (fs : FileSystem (StateM σ) τ) (world : World σ Place) (place : τ → Place)
    (before : σ) (path target : String) (failure : Failure) (after : σ) : Prop :=
  world.Same before after ∧ fs.StopsWith world place before path target failure

/-- Whether a run stops with a failure, and nothing that is seen has changed but what is at the place of
a temporary file. -/
def FailsBut (fs : FileSystem (StateM σ) τ) (world : World σ Place) (place : τ → Place)
    (before : σ) (path target : String) (temporary : τ) (failure : Failure) (after : σ) : Prop :=
  (∃ left, world.Puts (place temporary) (some (.file left)) before after) ∧
    fs.StopsWith world place before path target failure

end FileSystem

/-- Whether the given file is where a path leads, at a place where no directory stood, and nothing else
that is seen differs. -/
def World.Replaces (world : World σ Place) (path : String) (file : File) (before after : σ) : Prop :=
  ∃ target, world.place? before path = some target ∧ world.node before target ≠ some .directory ∧
    world.Puts target (some (.file file)) before after

namespace FileSystem.Lawful

variable {fs : FileSystem (StateM σ) τ} {world : World σ Place} {place : τ → Place}
  {before state : σ} {path target : String} {temporary : τ} {file : File}

/-- A temporary file that is renamed takes the place of the target, and leaves no trace where it was. -/
theorem replaces_of_moves (hfree : world.node before (place temporary) = none)
    (hputs : world.Puts (place temporary) (some (.file file)) before state) {after : σ}
    (h : ∃ found, world.place? state target = some found ∧
      world.node state found ≠ some .directory ∧ world.Moves (place temporary) found state after) :
    world.Replaces target file before after := by
  obtain ⟨found, hfound, hdirectory, hmoves⟩ := h
  rw [hputs.place_eq] at hfound
  refine ⟨found, hfound, ?_, hputs.move hfree hmoves⟩
  by_cases hplace : found = place temporary
  · rw [hplace, hfree]
    nofun
  · rwa [← hputs.node_other found hplace]

/-- Completing a new temporary file puts it in the place of the target, or leaves it where it is. -/
theorem ensures_complete (laws : fs.Lawful world place) {fresh : Mode}
    (hfree : world.node before (place temporary) = none)
    (hputs : world.Puts (place temporary) (some (.file ⟨[], fresh⟩)) before state)
    (path target : String) (contents : Bytes) (mode : Mode) :
    Ensures (fs.complete temporary target contents mode).run state
      (fun _ after => world.Replaces target ⟨contents, mode⟩ before after)
      (fs.FailsBut world place before path target temporary) := by
  unfold FileSystem.complete
  -- Each step starts from what the one before it left at the place of the temporary file.
  refine ((laws.write contents hputs.node_self).step _ _ ?_).bind ?_
  · exact fun e after hleft hrun => ⟨hleft.imp fun _ => hputs.trans, .writing hputs hrun⟩
  rintro ⟨⟩ written hwritten
  replace hwritten := hputs.trans hwritten
  refine ((laws.flush hwritten.node_self).step _ _ ?_).bind ?_
  · exact fun e after hleft hrun => ⟨hleft.imp fun _ => hwritten.trans, .flushing hwritten hrun⟩
  rintro ⟨⟩ flushed hflushed
  replace hflushed := hwritten.trans_same hflushed
  refine ((laws.setMode mode hflushed.node_self).step _ _ ?_).bind ?_
  · exact fun e after hleft hrun =>
      ⟨hleft.imp fun _ => hflushed.trans, .settingPermissions hflushed hrun⟩
  rintro ⟨⟩ permitted hpermitted
  replace hpermitted := hflushed.trans hpermitted
  refine ((laws.rename target hpermitted.node_self).imp
    (fun _ _ => replaces_of_moves hfree hpermitted) fun _ _ => id).step _ _ ?_
  exact fun e after hsame hrun => ⟨⟨_, hpermitted.trans_same hsame⟩, .replacing hpermitted hrun⟩

/-- Removing the temporary file undoes all that was done. -/
theorem ensures_discard {failure : Failure} {done : Unit → σ → Prop} (laws : fs.Lawful world place)
    (hfree : world.node before (place temporary) = none)
    (h : fs.FailsBut world place before path target temporary failure state) :
    Ensures (do fs.discard temporary; return .error failure) state done
      (fs.Fails world place before path target) := by
  obtain ⟨⟨left, hputs⟩, hstops⟩ := h
  exact ⟨(hputs.trans (laws.discard hputs.node_self)).same hfree, hstops⟩

/-- A target is replaced, or nothing is changed. -/
theorem ensures_replace (laws : fs.Lawful world place) (hsame : world.Same before state)
    (path target : String) (contents : Bytes) (mode : Mode) :
    Ensures (fs.replace target contents mode) state
      (fun _ after => world.Replaces target ⟨contents, mode⟩ before after)
      (fs.Fails world place before path target) := by
  unfold FileSystem.replace
  refine (laws.createTemporary _ state).and_failed.andThen ?_ ?_
  · rintro temporary made ⟨hfree, fresh, hputs⟩
    replace hputs := hsame.trans_puts hputs
    rw [hsame.node_eq] at hfree
    refine (laws.ensures_complete hfree hputs path target contents mode).andThen ?_ ?_
    · exact fun _ after hafter => hafter
    · exact fun failure after hafter => laws.ensures_discard hfree hafter
  · rintro ⟨e, unmade⟩ after ⟨hback, hrun⟩
    exact ⟨hsame.trans hback, .creatingTemporary hsame hrun⟩

/-- A file is shrunk and put in the place of the target, or nothing is changed. -/
theorem ensures_shrinkFile (laws : fs.Lawful world place) (before : σ) (path : String)
    (output : Option String) :
    Ensures (Traced.result <$> fs.shrinkFile path output) before
      (fun stats after => ∃ source input image, world.place? before path = some source ∧
        world.node before source = some (.file input) ∧
        (shrink input.contents).result = .ok (image, stats) ∧
        world.Replaces (output.getD path) ⟨image, input.mode⟩ before after)
      (fs.Fails world place before path (output.getD path)) := by
  unfold FileSystem.shrinkFile
  rw [map_bind]
  refine ((laws.read path before).step _ (fs.Fails world place before path (output.getD path))
    fun e after hsame hrun => ⟨hsame, .reading hrun⟩).andThen ?_ fun _ _ hafter => hafter
  -- up to here only the file was read; what was read is what stands at the place of `path`
  rintro data state ⟨hsame, source, input, hsource, hinput, rfl⟩
  dsimp only
  cases hshrunk : ((shrink input.contents).during (.shrinking path)).result with
  | error failure => exact ⟨hsame, .shrinking hsource hinput hshrunk⟩
  | ok result =>
    obtain ⟨image, stats⟩ := result
    rw [result_during_eq_ok_iff] at hshrunk
    dsimp only
    rw [map_bind]
    refine ((laws.mode path state).step _ (fs.Fails world place before path (output.getD path))
      fun e after hafter hrun => ⟨hsame.trans hafter, .inspecting hsame hrun⟩).andThen ?_
      fun _ _ hafter => hafter
    -- the mode is asked for after the shrinking, of a state that differs in nothing that is looked
    -- at
    rintro mode seen ⟨hseen, hmode⟩
    rw [hsame.place_eq, hsame.node_eq] at hmode
    obtain rfl := hmode source input hsource hinput
    dsimp only
    rw [map_bind]
    refine (laws.ensures_replace (hsame.trans hseen) path (output.getD path) image
      input.mode).andThen ?_ fun _ _ hafter => hafter
    exact fun _ after hafter => ⟨source, input, image, hsource, hinput, hshrunk, hafter⟩

end FileSystem.Lawful

/-- On every file system that keeps the laws, a run that shrinks a file does all of its work or nothing.
If it fails, nothing that is seen has changed, and one of its operations is to blame, or the contents of
the file. If it succeeds, the target is a file with the shrunk contents of the input and its permission
bits, and nothing else has changed. -/
theorem FileSystem.shrinkFile_all_or_nothing {fs : FileSystem (StateM σ) τ} {world : World σ Place}
    {place : τ → Place} (laws : fs.Lawful world place) (before : σ) (path : String)
    (output : Option String) :
    let target := output.getD path
    let run := (fs.shrinkFile path output).run before
    (∀ failure, run.1.result = .error failure →
      world.Same before run.2 ∧ fs.StopsWith world place before path target failure) ∧
    ∀ stats, run.1.result = .ok stats → ∃ source input image,
      world.place? before path = some source ∧ world.node before source = some (.file input) ∧
        (shrink input.contents).result = .ok (image, stats) ∧
        world.Replaces target ⟨image, input.mode⟩ before run.2 := by
  have h := laws.ensures_shrinkFile before path output
  have hrun : (Traced.result <$> fs.shrinkFile path output).run before =
    (((fs.shrinkFile path output).run before).1.result,
      ((fs.shrinkFile path output).run before).2) := rfl
  unfold Ensures at h
  rw [hrun] at h
  dsimp only
  constructor
  · intro failure hresult
    rwa [hresult] at h
  · intro stats hresult
    rwa [hresult] at h

/-- A program in a directory of a user, on a machine where the user may put files into the root. -/
def Tree.userTree : Tree where
  nodes := [(["home"], .directory), (["home", "program"], .file ⟨loadedUnitsFile, 0o755⟩)]
  current := ["home"]
  closed := []

/-- The program is shrunk into the root, and if the result cannot be renamed, the tree is as it was. -/
theorem FileSystem.shrinkFile_all_or_nothing_userTree :
    let fs := Tree.faultyFileSystem {}
    let faulty := Tree.faultyFileSystem { rename := some .permissionDenied }
    let run := (fs.shrinkFile "program" (some "/out")).run Tree.userTree
    let stopped := (faulty.shrinkFile "program" (some "/out")).run Tree.userTree
    fs.Lawful Tree.world id ∧ faulty.Lawful Tree.world id ∧
      (∃ stats source input image, run.1.result = .ok stats ∧
        Tree.world.place? Tree.userTree "program" = some source ∧
        Tree.world.node Tree.userTree source = some (.file input) ∧
        (shrink input.contents).result = .ok (image, stats) ∧
        Tree.world.Replaces "/out" ⟨image, input.mode⟩ Tree.userTree run.2) ∧
      ∃ failure, stopped.1.result = .error failure ∧ Tree.world.Same Tree.userTree stopped.2 ∧
        faulty.StopsWith Tree.world id Tree.userTree "program" "/out" failure := by
  -- two file systems: one without faults and one where the last step, the rename, is refused
  have hlawful := Tree.lawful_faultyFileSystem
  obtain ⟨-, hdone⟩ :=
    shrinkFile_all_or_nothing (hlawful {}) Tree.userTree "program" (some "/out")
  obtain ⟨hstopped, -⟩ := shrinkFile_all_or_nothing (hlawful { rename := some .permissionDenied })
    Tree.userTree "program" (some "/out")
  obtain ⟨stats, hstats⟩ : ∃ stats, (((Tree.faultyFileSystem {}).shrinkFile "program"
      (some "/out")).run Tree.userTree).1.result = .ok stats :=
    exists_of_isSome_toOption (by decide +kernel)
  obtain ⟨failure, hfailure⟩ : ∃ failure, (((Tree.faultyFileSystem
      { rename := some .permissionDenied }).shrinkFile "program" (some "/out")).run
        Tree.userTree).1.result = .error failure :=
    ⟨⟨[.replacing "/out", .keepingTemporary], .system .permissionDenied⟩, by decide +kernel⟩
  obtain ⟨source, input, image, h⟩ := hdone stats hstats
  exact ⟨hlawful {}, hlawful _, ⟨stats, source, input, image, hstats, h⟩, failure, hfailure,
    hstopped failure hfailure⟩

end DwarfLines
