import DwarfLines.Failure
import DwarfLines.Log

/-!
# Runs with a log

A traced value is the outcome of a run together with what the run had to tell. A run that fails
keeps what it told before.
-/

namespace DwarfLines

/-- The outcome of a run, and what happened on the way. -/
structure Traced (α : Type) where
  log : List Event
  result : Except Failure α

namespace Traced

variable {α β : Type}

/-- Goes on with the outcome of a run. -/
def bind (x : Traced α) (f : α → Traced β) : Traced β :=
  match x.result with
  | .ok a => ⟨x.log ++ (f a).log, (f a).result⟩
  | .error e => ⟨x.log, .error e⟩

instance : Monad Traced where
  pure a := ⟨[], .ok a⟩
  bind := bind

/-- Tells of some events. -/
def tell (events : List Event) : Traced Unit := ⟨events, .ok ()⟩

/-- Fails for a cause. -/
def fail (cause : Cause) : Traced α := ⟨[], .error (.ofCause cause)⟩

/-- The value, or a failure for a cause. -/
def orFail (cause : Cause) : Option α → Traced α
  | some a => pure a
  | none => fail cause

/-- A value of the codec, or its error as the cause of a failure. -/
def ofDebug : Except DebugError α → Traced α
  | .ok a => pure a
  | .error e => fail (.debug e)

/-- A value of the container, or its error as the cause of a failure. -/
def ofElf : Except Elf.Error α → Traced α
  | .ok a => pure a
  | .error e => fail (.elf e)

/-- Makes the run a part of an activity. -/
def during (activity : Activity) (x : Traced α) : Traced α :=
  ⟨x.log, x.result.mapError (Failure.during activity)⟩

@[simp]
theorem result_pure (a : α) : (pure a : Traced α).result = .ok a := rfl

/-- The outcome of a run does not depend on what it tells. -/
@[simp]
theorem result_bind (x : Traced α) (f : α → Traced β) :
    (x >>= f).result = x.result >>= fun a => (f a).result := by
  show (bind x f).result = _
  unfold bind
  cases x.result <;> rfl

@[simp]
theorem result_tell (events : List Event) : (tell events).result = .ok () := rfl

end Traced

end DwarfLines
