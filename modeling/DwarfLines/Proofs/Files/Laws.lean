import DwarfLines.Files.Replacement

/-!
# Laws of file systems

What a run may rely on, whatever carries out its operations. The states of a file system hold more than
is seen of them: which operations are going to fail, say, or what else a machine is doing. A `World` says
what is seen of a state: what stands at each place, and to which places paths lead. The laws
(`FileSystem.Lawful`) say what each operation leaves of that, whether it succeeds or fails. They say
nothing about when an operation fails, so that any of them may fail at any time.
-/

namespace DwarfLines

variable {σ τ Place ε ε' α β : Type}

/-! ## Outcomes -/

/-- What an operation does in the state `before`: if it succeeds, `done` holds of its value and of the
state after it, and if it fails, `failed` holds of its error and of the state after it. -/
def Ensures (operation : StateM σ (Except ε α)) (before : σ) (done : α → σ → Prop)
    (failed : ε → σ → Prop) : Prop :=
  match operation.run before with
  | (.ok a, after) => done a after
  | (.error e, after) => failed e after

section Ensures

variable {before : σ} {operation : StateM σ (Except ε α)} {done done' : α → σ → Prop}
  {reached : β → σ → Prop} {failed : ε → σ → Prop} {failed' : ε' → σ → Prop}

/-- An operation, and what its outcome leads to. -/
theorem Ensures.andThen {next : Except ε α → StateM σ (Except ε' β)}
    (h : Ensures operation before done failed)
    (hok : ∀ a after, done a after → Ensures (next (.ok a)) after reached failed')
    (herror : ∀ e after, failed e after → Ensures (next (.error e)) after reached failed') :
    Ensures (operation >>= next) before reached failed' := by
  have hrun : (operation >>= next).run before =
      (next (operation.run before).1).run (operation.run before).2 := rfl
  unfold Ensures at h ⊢
  rw [hrun]
  rcases hoperation : operation.run before with ⟨e | a, after⟩ <;> rw [hoperation] at h
  · exact herror e after h
  · exact hok a after h

/-- What follows an operation that fails is not carried out. -/
theorem Ensures.bind {x : ExceptT ε (StateM σ) α} {f : α → ExceptT ε (StateM σ) β}
    (hx : Ensures x.run before done failed)
    (hf : ∀ a after, done a after → Ensures (f a).run after reached failed) :
    Ensures (x >>= f).run before reached failed := by
  rw [ExceptT.run_bind]
  exact hx.andThen hf fun _ _ hafter => hafter

/-- An operation also ensures whatever follows from what it ensures. -/
theorem Ensures.imp {failed' : ε → σ → Prop} (h : Ensures operation before done failed)
    (hdone : ∀ a after, done a after → done' a after)
    (hfailed : ∀ e after, failed e after → failed' e after) :
    Ensures operation before done' failed' := by
  unfold Ensures at h ⊢
  rcases hoperation : operation.run before with ⟨e | a, after⟩ <;> rw [hoperation] at h
  · exact hfailed e after h
  · exact hdone a after h

/-- Of an operation that fails it is known that it did. -/
theorem Ensures.and_failed (h : Ensures operation before done failed) :
    Ensures operation before done fun e after =>
      failed e after ∧ operation.run before = (.error e, after) := by
  unfold Ensures at h ⊢
  rcases hoperation : operation.run before with ⟨e | a, after⟩ <;> rw [hoperation] at h
  · exact ⟨h, rfl⟩
  · exact h

/-- As a part of activities an operation fails with an error that says so. -/
theorem Ensures.step {operation : StateM σ (Except SystemError α)}
    {failed : SystemError → σ → Prop} (h : Ensures operation before done failed)
    (activities : List Activity) (failed' : Failure → σ → Prop)
    (hfailed : ∀ e after, failed e after → operation.run before = (.error e, after) →
      failed' ⟨activities, .system e⟩ after) :
    Ensures (FileSystem.step activities operation).run before done failed' := by
  have hrun : (FileSystem.step activities operation).run.run before =
      ((operation.run before).1.mapError fun e => ⟨activities, .system e⟩,
        (operation.run before).2) := rfl
  have h := h.and_failed
  unfold Ensures at h ⊢
  rw [hrun]
  rcases hoperation : operation.run before with ⟨e | a, after⟩ <;> rw [hoperation] at h
  · exact hfailed e after h.1 hoperation
  · exact h

end Ensures

/-! ## What is seen -/

/-- What is seen of the states of a file system. -/
structure World (σ Place : Type) where
  /-- What stands at a place. -/
  node : σ → Place → Option Node
  /-- The place that a path leads to, whether or not something stands there. -/
  place? : σ → String → Option Place

namespace World

variable (world : World σ Place)

/-- Whether nothing that is seen differs. -/
structure Same (before after : σ) : Prop where
  node_eq : world.node after = world.node before
  place_eq : world.place? after = world.place? before

/-- Whether there is the given content at a place, and nothing else that is seen differs. -/
structure Puts (place : Place) (content : Option Node) (before after : σ) : Prop where
  node_self : world.node after place = content
  node_other : ∀ other, other ≠ place → world.node after other = world.node before other
  place_eq : world.place? after = world.place? before

/-- Whether what stood at one place is at another, whatever was there before, and nothing else that is
seen differs. -/
structure Moves (source target : Place) (before after : σ) : Prop where
  node_target : world.node after target = world.node before source
  node_source : source ≠ target → world.node after source = none
  node_other : ∀ other, other ≠ source → other ≠ target →
    world.node after other = world.node before other
  place_eq : world.place? after = world.place? before

variable {world} {before middle after : σ} {place target : Place} {content content' : Option Node}

theorem Same.refl (state : σ) : world.Same state state := ⟨rfl, rfl⟩

theorem Same.trans (h : world.Same before middle) (h' : world.Same middle after) :
    world.Same before after :=
  ⟨h'.node_eq.trans h.node_eq, h'.place_eq.trans h.place_eq⟩

theorem Same.trans_puts (h : world.Same before middle)
    (h' : world.Puts place content middle after) : world.Puts place content before after :=
  ⟨h'.node_self, fun other hother => by rw [h'.node_other other hother, h.node_eq],
    h'.place_eq.trans h.place_eq⟩

theorem Puts.trans_same (h : world.Puts place content before middle)
    (h' : world.Same middle after) : world.Puts place content before after :=
  ⟨by rw [h'.node_eq, h.node_self], fun other hother => by rw [h'.node_eq, h.node_other other hother],
    h'.place_eq.trans h.place_eq⟩

/-- What is put at a place replaces what was put there before. -/
theorem Puts.trans (h : world.Puts place content before middle)
    (h' : world.Puts place content' middle after) : world.Puts place content' before after :=
  ⟨h'.node_self, fun other hother => by rw [h'.node_other other hother, h.node_other other hother],
    h'.place_eq.trans h.place_eq⟩

/-- What is put at a free place and removed again leaves no trace. -/
theorem Puts.same (h : world.Puts place none before after) (hfree : world.node before place = none) :
    world.Same before after := by
  refine ⟨funext fun other => ?_, h.place_eq⟩
  by_cases hother : other = place
  · rw [hother, h.node_self, hfree]
  · exact h.node_other other hother

/-- What is put at a free place and moved away is put where it is moved to. -/
theorem Puts.move (h : world.Puts place content before middle)
    (hfree : world.node before place = none) (hmoves : world.Moves place target middle after) :
    world.Puts target content before after := by
  refine ⟨by rw [hmoves.node_target, h.node_self], fun other hother => ?_,
    hmoves.place_eq.trans h.place_eq⟩
  by_cases hplace : other = place
  · subst hplace
    rw [hmoves.node_source hother, hfree]
  · rw [hmoves.node_other other hplace hother, h.node_other other hplace]

end World

/-! ## Laws -/

/-- The laws of operations on files. `place` says at which place a temporary file was made. -/
structure FileSystem.Lawful (fs : FileSystem (StateM σ) τ) (world : World σ Place)
    (place : τ → Place) : Prop where
  /-- To read a file gives its contents and changes nothing. -/
  read (path : String) (state : σ) : Ensures (fs.read path) state
    (fun contents after => world.Same state after ∧ ∃ source file,
      world.place? state path = some source ∧ world.node state source = some (.file file) ∧
        file.contents = contents)
    (fun _ after => world.Same state after)
  /-- To look at the permission bits of a file gives them and changes nothing. -/
  mode (path : String) (state : σ) : Ensures (fs.mode path) state
    (fun mode after => world.Same state after ∧ ∀ source file,
      world.place? state path = some source → world.node state source = some (.file file) →
        file.mode = mode)
    (fun _ after => world.Same state after)
  /-- A new temporary file is empty, and is made at a place where nothing was. -/
  createTemporary (directory : String) (state : σ) : Ensures (fs.createTemporary directory) state
    (fun temporary after => world.node state (place temporary) = none ∧
      ∃ mode, world.Puts (place temporary) (some (.file ⟨[], mode⟩)) state after)
    (fun _ after => world.Same state after)
  /-- To write to an empty temporary file gives it its contents. If that fails, anything may be in the
  temporary file, but no other file is written to. -/
  write {temporary : τ} {mode : Mode} (contents : Bytes) {state : σ} :
    world.node state (place temporary) = some (.file ⟨[], mode⟩) →
    Ensures (fs.write temporary contents) state
      (fun _ after => world.Puts (place temporary) (some (.file ⟨contents, mode⟩)) state after)
      (fun _ after => ∃ left, world.Puts (place temporary) (some (.file left)) state after)
  /-- To wait until a temporary file is stored changes nothing that is seen, unless the file is lost in
  part. -/
  flush {temporary : τ} {file : File} {state : σ} :
    world.node state (place temporary) = some (.file file) →
    Ensures (fs.flush temporary) state (fun _ after => world.Same state after)
      (fun _ after => ∃ left, world.Puts (place temporary) (some (.file left)) state after)
  /-- Permission bits are set of the temporary file only. -/
  setMode {temporary : τ} {file : File} (mode : Mode) {state : σ} :
    world.node state (place temporary) = some (.file file) →
    Ensures (fs.setMode temporary mode) state
      (fun _ after =>
        world.Puts (place temporary) (some (.file { file with mode })) state after)
      (fun _ after => ∃ left, world.Puts (place temporary) (some (.file left)) state after)
  /-- A temporary file is renamed in one step or not at all. It takes no directory's place. -/
  rename {temporary : τ} {file : File} (path : String) {state : σ} :
    world.node state (place temporary) = some (.file file) →
    Ensures (fs.rename temporary path) state
      (fun _ after => ∃ target, world.place? state path = some target ∧
        world.node state target ≠ some .directory ∧
        world.Moves (place temporary) target state after)
      (fun _ after => world.Same state after)
  /-- A temporary file that is discarded is gone. -/
  discard {temporary : τ} {file : File} {state : σ} :
    world.node state (place temporary) = some (.file file) →
    world.Puts (place temporary) none state ((fs.discard temporary).run state).2

end DwarfLines
