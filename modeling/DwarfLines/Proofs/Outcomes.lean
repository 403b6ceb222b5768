import DwarfLines.Traced

/-!
# What a success says

A computation that may fail succeeds exactly when its steps succeed one after the other. These laws
take the outcome of a whole computation apart into the outcomes of its steps, for plain outcomes, for
computations with a state, and for runs with a log. A loop that succeeds keeps what each of its steps
keeps.
-/

namespace DwarfLines.Outcome

variable {ε σ α β : Type}

/-- Two steps succeed if the first does and the second after it. -/
theorem bind_eq_ok_iff {x : Except ε α} {f : α → Except ε β} {b : β} :
    x >>= f = .ok b ↔ ∃ a, x = .ok a ∧ f a = .ok b := by
  cases x <;> simp [bind, Except.bind]

/-- A value is its own outcome. -/
theorem pure_eq_ok_iff {a b : α} : (pure a : Except ε α) = .ok b ↔ a = b := by
  simp [pure, Except.pure]

theorem throw_ne_ok {e : ε} {a : α} : (throw e : Except ε α) ≠ .ok a := nofun

theorem ok_bind {a : α} {f : α → Except ε β} : Except.ok a >>= f = f a := rfl

theorem throw_bind {e : ε} {f : α → Except ε β} : (throw e >>= f : Except ε β) = throw e := rfl

/-- A check that throws lets only those pass that it does not apply to. -/
theorem ite_throw_eq_ok_iff {c : Prop} [Decidable c] {e : ε} {x : Except ε α} {a : α} :
    (if c then throw e else x) = .ok a ↔ ¬ c ∧ x = .ok a := by
  by_cases hc : c <;> simp [hc, throw_ne_ok]

/-- A guarded step succeeds if the guard holds and the step succeeds. -/
theorem ite_else_throw_eq_ok_iff {c : Prop} [Decidable c] {e : ε} {x : Except ε α} {a : α} :
    (if c then x else throw e) = .ok a ↔ c ∧ x = .ok a := by
  by_cases hc : c <;> simp [hc, throw_ne_ok]

/-- A check that is made only sometimes. -/
theorem ite_check_eq_ok_iff {c : Prop} [Decidable c] {check : Except ε Unit} {x : Except ε α}
    {a : α} : (if c then check >>= fun _ => x else x) = .ok a ↔ (c → check = .ok ()) ∧ x = .ok a := by
  by_cases hc : c
  · rw [if_pos hc, bind_eq_ok_iff]
    constructor
    · rintro ⟨⟨⟩, hcheck, hx⟩
      exact ⟨fun _ => hcheck, hx⟩
    · rintro ⟨hcheck, hx⟩
      exact ⟨(), hcheck hc, hx⟩
  · simp [hc]

/-- What is read is there unless it is truncated. -/
theorem orTruncated_eq_ok_iff {o : Option α} {a : α} : orTruncated o = .ok a ↔ o = some a := by
  cases o <;> simp [orTruncated]

theorem orTruncated_some_bind {a : α} {f : α → Except DebugError β} :
    orTruncated (some a) >>= f = f a := rfl

/-- An outcome with a value is a success. -/
theorem exists_of_isSome_toOption {x : Except ε α} (h : x.toOption.isSome = true) :
    ∃ a, x = .ok a := by
  cases x with
  | error e => cases h
  | ok a => exact ⟨a, rfl⟩

/-- A test of what a computation gives says that it gives something. -/
theorem exists_of_any_toOption {x : Except ε α} {test : α → Bool}
    (h : x.toOption.any test = true) : ∃ a, x = .ok a ∧ test a = true := by
  cases x with
  | error e => cases h
  | ok a => exact ⟨a, rfl, h⟩

/-! ## Computations with a state -/

/-- Two steps with a state succeed if the first does and the second from where it leads. -/
theorem state_bind_eq_ok_iff {x : EStateM ε σ α} {f : α → EStateM ε σ β} {s s'' : σ} {b : β} :
    (x >>= f) s = .ok b s'' ↔ ∃ a s', x s = .ok a s' ∧ f a s' = .ok b s'' := by
  simp only [bind, EStateM.bind]
  cases x s with
  | ok a s' =>
    simp only [EStateM.Result.ok.injEq]
    constructor
    · exact fun h => ⟨a, s', ⟨rfl, rfl⟩, h⟩
    · rintro ⟨_, _, ⟨rfl, rfl⟩, h⟩
      exact h
  | error e s' => simp

/-- A value leaves the state. -/
theorem state_pure_eq_ok_iff {a b : α} {s s' : σ} :
    (pure a : EStateM ε σ α) s = .ok b s' ↔ a = b ∧ s = s' := by
  simp [pure, EStateM.pure]

/-- Looking at the state leaves it. -/
theorem state_get_eq_ok_iff {s s' s'' : σ} :
    (get : EStateM ε σ σ) s = .ok s' s'' ↔ s = s' ∧ s = s'' := by
  show EStateM.Result.ok s s = .ok s' s'' ↔ _
  simp

/-- A change of the state succeeds. -/
theorem state_modify_eq_ok_iff {f : σ → σ} {s s' : σ} {u : Unit} :
    (modify f : EStateM ε σ Unit) s = .ok u s' ↔ f s = s' := by
  show EStateM.Result.ok () (f s) = .ok u s' ↔ _
  simp

theorem state_throw_ne_ok {e : ε} {a : α} {s s' : σ} :
    (throw e : EStateM ε σ α) s ≠ .ok a s' := nofun

/-- A loop leads from what holds at its start to what its steps lead to. -/
theorem state_foldlM_induction {f : β → α → EStateM ε σ β} {motive : List α → β → σ → Prop}
    {xs : List α} {b b' : β} {s s' : σ} (h : xs.foldlM f b s = .ok b' s') (start : motive [] b s)
    (step : ∀ done a b s b' s', motive done b s → f b a s = .ok b' s' →
      motive (done ++ [a]) b' s') : motive xs b' s' := by
  suffices ∀ done, motive done b s → motive (done ++ xs) b' s' from this [] start
  clear start
  induction xs generalizing b s with
  | nil =>
    intro done hdone
    obtain ⟨rfl, rfl⟩ := state_pure_eq_ok_iff.mp h
    rwa [List.append_nil]
  | cons a xs ih =>
    intro done hdone
    obtain ⟨b₁, s₁, ha, h⟩ := state_bind_eq_ok_iff.mp h
    have := ih h (done ++ [a]) (step done a b s b₁ s₁ hdone ha)
    rwa [List.append_assoc] at this

/-- Two loops go the same way if their steps do: where the first succeeds, so does the second. What the
steps need of a state may be known at the end only, if no step is what brings it about. -/
theorem state_foldlM_lockstep {τ : Type} {f : β → α → EStateM ε σ β} {g : β → α → EStateM ε τ β}
    (needs : σ → Prop) (related : σ → τ → Prop) {xs : List α} {b b' : β} {s s' : σ} {t : τ}
    (h : xs.foldlM f b s = .ok b' s') (hneeds : needs s') (start : related s t)
    (back : ∀ a b s b' s', f b a s = .ok b' s' → needs s' → needs s)
    (step : ∀ a b s b' s' t, f b a s = .ok b' s' → needs s' → related s t →
      ∃ t', g b a t = .ok b' t' ∧ related s' t') :
    ∃ t', xs.foldlM g b t = .ok b' t' ∧ related s' t' := by
  induction xs generalizing b s t with
  | nil =>
    obtain ⟨rfl, rfl⟩ := state_pure_eq_ok_iff.mp h
    exact ⟨t, rfl, start⟩
  | cons a xs ih =>
    obtain ⟨b₁, s₁, ha, h⟩ := state_bind_eq_ok_iff.mp h
    have hneeds₁ : needs s₁ := state_foldlM_induction h (motive := fun _ _ s => needs s → needs s₁)
      id (fun _ a b s b' s' hdone hstep hs' => hdone (back a b s b' s' hstep hs')) hneeds
    obtain ⟨t₁, hg, hrelated⟩ := step a b s b₁ s₁ t ha hneeds₁ start
    obtain ⟨t', hg', hrelated'⟩ := ih h hrelated
    exact ⟨t', state_bind_eq_ok_iff.mpr ⟨b₁, t₁, hg, hg'⟩, hrelated'⟩

/-! ## Runs with a log -/

theorem result_fail_ne_ok {cause : Cause} {a : α} : (Traced.fail cause).result ≠ .ok a := nofun

/-- What may be missing is the result if it is there. -/
theorem result_orFail_eq_ok_iff {cause : Cause} {o : Option α} {a : α} :
    (Traced.orFail cause o).result = .ok a ↔ o = some a := by
  cases o <;> simp [Traced.orFail, result_fail_ne_ok]

/-- A traced outcome has the result of the plain one. -/
theorem result_ofDebug_eq_ok_iff {x : Except DebugError α} {a : α} :
    (Traced.ofDebug x).result = .ok a ↔ x = .ok a := by
  cases x <;> simp [Traced.ofDebug, result_fail_ne_ok]

/-- So has that of a step on sections. -/
theorem result_ofElf_eq_ok_iff {x : Except Elf.Error α} {a : α} :
    (Traced.ofElf x).result = .ok a ↔ x = .ok a := by
  cases x <;> simp [Traced.ofElf, result_fail_ne_ok]

/-- Naming an activity changes no result. -/
theorem result_during_eq_ok_iff {activity : Activity} {x : Traced α} {a : α} :
    (x.during activity).result = .ok a ↔ x.result = .ok a := by
  unfold Traced.during
  cases x.result with
  | ok b => exact Iff.rfl
  | error failure => exact ⟨nofun, nofun⟩

end DwarfLines.Outcome
