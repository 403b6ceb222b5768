import DwarfLines.Span
import Mathlib.Algebra.Group.Int.Defs
import Mathlib.Algebra.Group.Nat.Defs
import Mathlib.Data.List.Basic

/-!
# Computing within bounds

The numbers of this library are as large as they need to be, and a range that is not there yields
what there is of it. A machine is not so lenient: a number has to fit its width, a divisor must not be
zero, a range has to lie within the bytes that it is taken from, and a loop has to end.

A *guarded* computation does nothing that a machine could not do. Wherever it would, it stops with a
fault, which is not an outcome: an error is. `Agrees` says that a guarded computation stops at no
fault and has the outcome of one without bounds. It is kept by sequencing, so it is shown for each
computation from those that it is made of.
-/

namespace DwarfLines

/-- What a machine cannot do. -/
inductive Fault where
  /-- An index or a range that is not there. -/
  | outOfBounds
  /-- A number that does not fit its width. -/
  | overflow
  | divisionByZero
  /-- Bytes to be copied over a range of another length. -/
  | unequalLengths
  /-- A loop that is not over after as many rounds as it may take. -/
  | endless
  deriving DecidableEq, Repr

/-- A computation that stops at the first fault. If it meets none, it has an outcome. -/
abbrev Guarded (ε : Type) := ExceptT ε (Except Fault)

namespace Guarded

variable {ε ε' σ α β γ δ : Type}

/-- Stops at a fault. -/
def fault (f : Fault) : Guarded ε α := ExceptT.mk (.error f)

/-- The value, if the condition that it takes is met. -/
def require (c : Prop) [Decidable c] (f : Fault) (a : α) : Guarded ε α :=
  if c then pure a else fault f

/-! ## Numbers -/

/-- The sum of two numbers, which has to fit `bits` bits. -/
def add (bits a b : Nat) : Guarded ε Nat := require (a + b < 2 ^ bits) .overflow (a + b)

/-- The product of two numbers, which has to fit `bits` bits. -/
def mul (bits a b : Nat) : Guarded ε Nat := require (a * b < 2 ^ bits) .overflow (a * b)

/-- The difference of two numbers, which must not be negative. -/
def sub (a b : Nat) : Guarded ε Nat := require (b ≤ a) .overflow (a - b)

/-- The difference of two words, which must not be negative. -/
def subWord (a b : UInt32) : Guarded ε UInt32 := require (b ≤ a) .overflow (a - b)

/-- The quotient of two numbers. -/
def div (a b : Nat) : Guarded ε Nat := require (b ≠ 0) .divisionByZero (a / b)

/-- The remainder of two numbers. -/
def mod (a b : Nat) : Guarded ε Nat := require (b ≠ 0) .divisionByZero (a % b)

/-- A signed number, which has to fit `bits` bits. -/
def fitSigned (bits : Nat) (n : Int) : Guarded ε Int :=
  require (-2 ^ (bits - 1) ≤ n ∧ n < 2 ^ (bits - 1)) .overflow n

/-! ## Lists and bytes -/

/-- The item at an index. -/
def nth (items : List α) (index : Nat) : Guarded ε α :=
  match items[index]? with
  | some item => pure item
  | none => fault .outOfBounds

/-- The bytes from `start` up to `stop`. -/
def slice (bytes : Bytes) (start stop : Nat) : Guarded ε Bytes :=
  require (start ≤ stop ∧ stop ≤ bytes.length) .outOfBounds (Span.slice ⟨start, stop⟩ bytes)

/-- The bytes with those from `start` on replaced by `new`, up to `stop`. -/
def overwrite (bytes : Bytes) (start stop : Nat) (new : Bytes) : Guarded ε Bytes := do
  let old ← slice bytes start stop
  require (old.length = new.length) .unequalLengths (bytes.take start ++ new ++ bytes.drop stop)

/-- The number whose digits are the first `width` bytes, lowest first. Each byte is looked up. -/
def digits (bytes : Bytes) (width : Nat) : Guarded ε Nat := do
  let found ← (List.range width).mapM (nth bytes)
  return decodeLittleEndian found

/-! ## Loops -/

/-- Takes steps until one of them has the result, which has to be within so many rounds. -/
def loop (step : σ → Guarded ε (σ ⊕ α)) : (rounds : Nat) → σ → Guarded ε α
  | 0, _ => fault .endless
  | rounds + 1, s => do
    match ← step s with
    | .inl s => loop step rounds s
    | .inr a => return a

/-! ## Guards that hold -/

/-- A check that passes does nothing. -/
theorem require_eq {c : Prop} [Decidable c] {f : Fault} {a : α} (h : c) :
    (require c f a : Guarded ε α) = pure a := if_pos h

/-- A sum that fits passes its check. -/
theorem add_eq {bits a b : Nat} (h : a + b < 2 ^ bits) :
    (add bits a b : Guarded ε Nat) = pure (a + b) := require_eq h

/-- A product that fits passes its check. -/
theorem mul_eq {bits a b : Nat} (h : a * b < 2 ^ bits) :
    (mul bits a b : Guarded ε Nat) = pure (a * b) := require_eq h

/-- A difference that is not negative passes its check. -/
theorem sub_eq {a b : Nat} (h : b ≤ a) : (sub a b : Guarded ε Nat) = pure (a - b) := require_eq h

/-- A difference of words that is not negative passes its check. -/
theorem subWord_eq {a b : UInt32} (h : b ≤ a) :
    (subWord a b : Guarded ε UInt32) = pure (a - b) := require_eq h

/-- A quotient by a number other than 0 passes its check. -/
theorem div_eq {a b : Nat} (h : b ≠ 0) : (div a b : Guarded ε Nat) = pure (a / b) := require_eq h

/-- A remainder by a number other than 0 passes its check. -/
theorem mod_eq {a b : Nat} (h : b ≠ 0) : (mod a b : Guarded ε Nat) = pure (a % b) := require_eq h

/-- A signed number that fits passes its check. -/
theorem fitSigned_eq {bits : Nat} {n : Int} (h : -2 ^ (bits - 1) ≤ n ∧ n < 2 ^ (bits - 1)) :
    (fitSigned bits n : Guarded ε Int) = pure n := require_eq h

/-- An item that is there is looked up. -/
theorem nth_eq {items : List α} {index : Nat} {item : α} (h : items[index]? = some item) :
    (nth items index : Guarded ε α) = pure item := by
  rw [nth, h]

/-- A slice within the bytes is taken. -/
theorem slice_eq {bytes : Bytes} {start stop : Nat} (hstart : start ≤ stop)
    (hstop : stop ≤ bytes.length) :
    (slice bytes start stop : Guarded ε Bytes) = pure (Span.slice ⟨start, stop⟩ bytes) :=
  require_eq ⟨hstart, hstop⟩

example : (slice [1, 2, 3] 2 4 : Guarded ε Bytes).run = .error .outOfBounds := rfl

/-- Bytes within the others are overwritten. -/
theorem overwrite_eq {bytes new : Bytes} {start stop : Nat} (hstop : start + new.length = stop)
    (hlength : stop ≤ bytes.length) : (overwrite bytes start stop new : Guarded ε Bytes) =
      pure (bytes.take start ++ new ++ bytes.drop stop) := by
  rw [overwrite, slice_eq (by omega) hlength, pure_bind, require_eq]
  rw [Span.length_slice hlength, Span.length]
  dsimp only
  omega

/-- If every item passes, all do. -/
theorem mapM_eq_pure {f : α → Guarded ε β} {g : α → β} {items : List α}
    (h : ∀ item ∈ items, f item = pure (g item)) : items.mapM f = pure (items.map g) := by
  induction items with
  | nil => rfl
  | cons item items ih =>
    rw [List.forall_mem_cons] at h
    rw [List.mapM_cons, h.1, ih h.2, pure_bind, pure_bind, List.map_cons]

/-- A number is read of bytes that are there. -/
theorem digits_eq {bytes : Bytes} {width : Nat} (h : width ≤ bytes.length) :
    (digits bytes width : Guarded ε Nat) = pure (decodeLittleEndian (bytes.take width)) := by
  have hfound : ∀ i ∈ List.range width,
      (nth bytes i : Guarded ε UInt8) = pure (bytes.getD i 0) := by
    intro i hi
    have hi' : i < bytes.length := Nat.lt_of_lt_of_le (List.mem_range.mp hi) h
    simp [nth, hi']
  have htake : (List.range width).map (fun i => bytes.getD i 0) = bytes.take width := by
    apply List.ext_getElem
    · simp [h]
    · intro i hi _
      rw [List.length_map, List.length_range] at hi
      simp [Nat.lt_of_lt_of_le hi h]
  rw [digits, mapM_eq_pure hfound, htake, pure_bind]

/-- A loop with a round to go makes a step and stops or goes on. -/
theorem loop_succ {step : σ → Guarded ε (σ ⊕ α)} {rounds : Nat} {s : σ} :
    loop step (rounds + 1) s = step s >>= fun
      | .inl s => loop step rounds s
      | .inr a => pure a := rfl

/-- What holds of a loop, by induction on a measure. It holds of a round and what follows, if it
holds of all that may follow on a lower measure. -/
theorem loop_induction {step : σ → Guarded ε (σ ⊕ α)} {P : σ → Guarded ε α → Prop}
    (measure : σ → Nat)
    (hstep : ∀ s (next : σ → Guarded ε α), (∀ s', measure s' < measure s → P s' (next s')) →
      P s (step s >>= fun
        | .inl s => next s
        | .inr a => pure a))
    (s : σ) {rounds : Nat} (hrounds : measure s < rounds) : P s (loop step rounds s) := by
  induction rounds generalizing s with
  | zero => exact absurd hrounds (Nat.not_lt_zero _)
  | succ rounds ih => exact hstep s (loop step rounds) fun s' hless => ih s' (by omega)

/-! ## Agreement -/

/-- Whether a guarded computation stops at no fault and has the outcome of a computation without
bounds, up to `R` on the values. -/
def Agrees (R : α → β → Prop) (x : Guarded ε α) (y : Except ε β) : Prop :=
  match y with
  | .ok b => ∃ a, x = pure a ∧ R a b
  | .error e => x = throw e

/-- To agree on the very value is to run to the outcome without a fault. -/
theorem agrees_eq_iff {x : Guarded ε α} {y : Except ε α} : Agrees Eq x y ↔ x.run = .ok y := by
  cases y with
  | ok b =>
    constructor
    · rintro ⟨a, rfl, rfl⟩
      rfl
    · exact fun h => ⟨b, h, rfl⟩
  | error e => exact Iff.rfl

namespace Agrees

variable {R : α → β → Prop} {S : γ → δ → Prop} {x : Guarded ε α} {y : Except ε β}

/-- Values that are related agree. -/
theorem pure {a : α} {b : β} (h : R a b) : Agrees R (Pure.pure a : Guarded ε α) (.ok b) :=
  ⟨a, rfl, h⟩

/-- The same error agrees. -/
theorem throw (e : ε) : Agrees R (throw e : Guarded ε α) (.error e) := rfl

/-- What agrees with a value is that value. -/
theorem eq_pure {x : Guarded ε α} {a : α} (h : Agrees Eq x (.ok a)) : x = Pure.pure a := by
  obtain ⟨_, hx, rfl⟩ := h
  exact hx

/-- What agrees with an error is that error. -/
theorem eq_throw {e : ε} (h : Agrees R x (.error e)) : x = MonadExcept.throw e := h

/-- An outcome agrees with itself. -/
theorem ofExcept (x : Except ε α) : Agrees Eq (MonadExcept.ofExcept x : Guarded ε α) x := by
  cases x with
  | ok a => exact .pure rfl
  | error e => exact .throw e

/-- Computations that agree may be followed by computations that agree on what they come to. -/
theorem bind {f : α → Guarded ε γ} {g : β → Except ε δ} (h : Agrees R x y)
    (hf : ∀ a b, y = .ok b → R a b → Agrees S (f a) (g b)) : Agrees S (x >>= f) (y >>= g) := by
  cases y with
  | ok b =>
    obtain ⟨a, rfl, hab⟩ := h
    rw [pure_bind]
    exact hf a b rfl hab
  | error e =>
    rw [h.eq_throw]
    rfl

/-- What agrees agrees by a weaker relation of the values. -/
theorem mono {R' : α → β → Prop} (h : Agrees R x y) (hR : ∀ a b, y = .ok b → R a b → R' a b) :
    Agrees R' x y := by
  cases y with
  | ok b =>
    obtain ⟨a, rfl, hab⟩ := h
    exact ⟨a, rfl, hR a b rfl hab⟩
  | error e => exact h

/-- What comes of a value may be put in another form. -/
theorem reshape {f : α → γ} {S : γ → β → Prop} (h : Agrees R x y)
    (hf : ∀ a b, y = .ok b → R a b → S (f a) b) :
    Agrees S (x >>= fun a => Pure.pure (f a)) y := by
  cases y with
  | ok b =>
    obtain ⟨a, rfl, hab⟩ := h
    exact ⟨f a, pure_bind _ _, hf a b rfl hab⟩
  | error e =>
    rw [h.eq_throw]
    rfl

/-- The value without bounds may be put in another form, too. -/
theorem map_right {f : β → δ} {S : α → δ → Prop} (h : Agrees R x y)
    (hf : ∀ a b, y = .ok b → R a b → S a (f b)) : Agrees S x (y.map f) := by
  cases y with
  | ok b =>
    obtain ⟨a, rfl, hab⟩ := h
    exact ⟨a, rfl, hf a b rfl hab⟩
  | error e => exact h

/-- Both may branch alike. -/
theorem ite {c : Prop} [Decidable c] {x' : Guarded ε α} {y' : Except ε β}
    (h : c → Agrees R x y) (h' : ¬ c → Agrees R x' y') :
    Agrees R (if c then x else x') (if c then y else y') := by
  split
  · exact h ‹_›
  · exact h' ‹_›

/-- A check that both make. -/
theorem check_iff {c c' : Prop} [Decidable c] [Decidable c'] {e : ε} {x : Unit → Guarded ε α}
    {y : Unit → Except ε β} (hc : c ↔ c') (h : ¬ c → Agrees R (x ()) (y ())) :
    Agrees R (if c then MonadExcept.throw e >>= x else x ())
      (if c' then MonadExcept.throw e >>= y else y ()) := by
  by_cases hc' : c
  · rw [if_pos hc', if_pos (hc.mp hc')]
    rfl
  · rw [if_neg hc', if_neg (mt hc.mpr hc')]
    exact h hc'

/-- Both may check the same condition first. -/
theorem check {c : Prop} [Decidable c] {e : ε} {x : Unit → Guarded ε α} {y : Unit → Except ε β}
    (h : ¬ c → Agrees R (x ()) (y ())) :
    Agrees R (if c then MonadExcept.throw e >>= x else x ())
      (if c then MonadExcept.throw e >>= y else y ()) := check_iff Iff.rfl h

/-- A check that both make, the other way round. -/
theorem check_not {c : Prop} [Decidable c] {e : ε} {x : Unit → Guarded ε α} {y : Unit → Except ε β}
    (h : c → Agrees R (x ()) (y ())) :
    Agrees R (if c then x () else MonadExcept.throw e >>= x)
      (if c then y () else MonadExcept.throw e >>= y) :=
  .ite h fun _ => rfl

/-- A check that only the computation without bounds makes afterwards. -/
theorem bind_check {c : Prop} [Decidable c] {e : ε} {f : α → Guarded ε γ}
    {g : β → Unit → Except ε δ}
    (h : Agrees R x (y >>= fun b => if c then MonadExcept.throw e else Pure.pure b))
    (hf : ∀ a b, ¬ c → y = .ok b → R a b → Agrees S (f a) (g b ())) :
    Agrees S (x >>= f) (y >>= fun b => if c then MonadExcept.throw e >>= g b else g b ()) := by
  by_cases hc : c
  · simp only [if_pos hc] at h ⊢
    have := h.bind (S := S) (f := f) (g := fun b => g b ()) fun _ b hb _ => by
      cases y <;> cases hb
    cases y <;> exact this
  · simp only [if_neg hc, bind_pure] at h ⊢
    exact h.bind fun a b => hf a b hc

/-- Errors may be put in other words. -/
theorem adapt (f : ε → ε') (h : Agrees R x y) :
    Agrees R (ExceptT.adapt f x) (y.mapError f) := by
  cases y with
  | ok b =>
    obtain ⟨a, rfl, hab⟩ := h
    exact ⟨a, rfl, hab⟩
  | error e =>
    rw [h.eq_throw]
    rfl

end Agrees

/-! ## Computations with a state -/

/-- What a computation with a state comes to, and the state that it leaves. -/
def outcome (x : EStateM ε σ α) (s : σ) : Except ε (α × σ) :=
  match x s with
  | .ok a s => .ok (a, s)
  | .error e _ => .error e

/-- The outcome of two steps is that of the second from where the first has led. -/
theorem outcome_bind (x : EStateM ε σ α) (f : α → EStateM ε σ β) (s : σ) :
    outcome (x >>= f) s = outcome x s >>= fun (a, s) => outcome (f a) s := by
  unfold outcome
  simp only [bind, EStateM.bind]
  cases x s <;> rfl

end Guarded

end DwarfLines
