import Mathlib

/-!
Programs over a mutable state whose failures keep the state reached so far.

`EStateM` is the monad; this module adds the handling of failures used by
sequential system code (`attempt`, `ignore`) and a set of rules. `wp` states
what a program does from one state, with one postcondition for its result and one
for its failure.
-/

namespace Posix

variable {ε ε' σ α β : Type} {x : EStateM ε σ α} {b : β} {s s' : σ} {a : α} {e : ε}

/-- Run `x` and hand its outcome, failure included, to the caller. -/
def attempt (x : EStateM ε σ α) : EStateM ε' σ (Except ε α) := fun s =>
  match x s with
  | .ok a s' => .ok (.ok a) s'
  | .error e s' => .ok (.error e) s'

/-- Run `x` for its effect only. -/
def ignore (x : EStateM ε σ α) : EStateM ε' σ Unit := fun s =>
  match x s with
  | .ok _ s' => .ok () s'
  | .error _ s' => .ok () s'

/-- Run `x` with its failures renamed. -/
def failing (f : ε → ε') (x : EStateM ε σ α) : EStateM ε' σ α := fun s =>
  match x s with
  | .ok a s' => .ok a s'
  | .error e s' => .error (f e) s'

/-- A read of the state. -/
def reading (f : σ → Except ε α) : EStateM ε σ α := fun s =>
  match f s with
  | .ok a => .ok a s
  | .error e => .error e s

/-- The state a run ends in, whatever its outcome. -/
def final (x : EStateM ε σ α) (s : σ) : σ :=
  match x s with
  | .ok _ s' => s'
  | .error _ s' => s'

/-- The outcome of a run, without its state. -/
def outcome (x : EStateM ε σ α) (s : σ) : Except ε α :=
  match x s with
  | .ok a _ => .ok a
  | .error e _ => .error e

@[simp] theorem except_ok_bind (a : α) (f : α → Except ε β) : (Except.ok a >>= f) = f a := rfl

@[simp] theorem except_error_bind (e : ε) (f : α → Except ε β) :
    (Except.error e >>= f) = Except.error e := rfl

theorem except_bind_ok {x : Except ε α} {f : α → Except ε β} (h : (x >>= f) = .ok b) :
    ∃ a, x = .ok a ∧ f a = .ok b := by
  cases x with
  | error e => cases h
  | ok a => exact ⟨a, rfl, h⟩

@[simp] theorem pure_apply (a : α) (s : σ) : (pure a : EStateM ε σ α) s = .ok a s := rfl

@[simp] theorem throw_apply (e : ε) (s : σ) : (throw e : EStateM ε σ α) s = .error e s := rfl

theorem bind_apply (x : EStateM ε σ α) (f : α → EStateM ε σ β) (s : σ) :
    (x >>= f) s = match x s with
      | .ok a s' => f a s'
      | .error e s' => .error e s' := rfl

theorem bind_ok {f : α → EStateM ε σ β} :
    (x >>= f) s = .ok b s' ↔ ∃ a s₁, x s = .ok a s₁ ∧ f a s₁ = .ok b s' := by
  rw [bind_apply]
  cases x s <;> simp

theorem failing_run {f : ε → ε'} {t : σ} (h : x s = .ok a t) : failing f x s = .ok a t := by
  simp [failing, h]

theorem reading_run {f : σ → Except ε α} (h : f s = .ok a) : reading f s = .ok a s := by
  simp [reading, h]

theorem outcome_error : outcome x s = .error e ↔ x s = .error e (final x s) := by
  unfold outcome final
  cases x s <;> simp

theorem final_of_ok (h : x s = .ok a s') : final x s = s' := by
  simp [final, h]

theorem run_of_isOk {x : EStateM ε σ Unit} (h : (outcome x s).isOk = true) :
    x s = .ok () (final x s) := by
  unfold outcome at h
  unfold final
  cases run : x s with
  | ok a t => rfl
  | error err t => simp [run, Except.isOk, Except.toBool] at h

theorem final_of_error (h : x s = .error e s') : final x s = s' := by
  simp [final, h]

/-! ### Weakest preconditions -/

/-- From `s`, the program `x` ends in `Q` when it returns and in `E` when it fails. -/
def wp (x : EStateM ε σ α) (Q : α → σ → Prop) (E : ε → σ → Prop) (s : σ) : Prop :=
  match x s with
  | .ok a s' => Q a s'
  | .error e s' => E e s'

section WP

variable {Q Q' : α → σ → Prop} {E E' : ε → σ → Prop} {s s' t : σ} {x : EStateM ε σ α} {a : α}
    {f : σ → Except ε α}

theorem wp_ok (h : wp x Q E s) (run : x s = .ok a s') : Q a s' := by
  simpa [wp, run] using h

theorem wp_error {e : ε} (h : wp x Q E s) (run : x s = .error e s') : E e s' := by
  simpa [wp, run] using h

theorem wp_cases (onOk : ∀ a t, x s = .ok a t → Q a t) (onError : ∀ e t, x s = .error e t → E e t) :
    wp x Q E s := by
  unfold wp
  cases h : x s with
  | ok a t => exact onOk a t h
  | error e t => exact onError e t h

/-- What holds whatever the outcome holds of the final state. -/
theorem wp_final {P : σ → Prop} (h : wp x (fun _ => P) (fun _ => P) s) : P (final x s) := by
  unfold wp at h
  unfold final
  split at h <;> exact h

theorem wp_of_run (run : x s = .ok a t) (h : Q a t) : wp x Q E s := by
  simpa [wp, run] using h

theorem wp_of_error {err : ε} (run : x s = .error err t) (h : E err t) : wp x Q E s := by
  simpa [wp, run] using h

theorem wp_mono (h : wp x Q E s) (onOk : ∀ a s', Q a s' → Q' a s')
    (onError : ∀ e s', E e s' → E' e s') : wp x Q' E' s := by
  unfold wp at h ⊢
  split <;> simp_all

theorem wp_pure : wp (pure a : EStateM ε σ α) Q E s ↔ Q a s := Iff.rfl

theorem wp_bind {x : EStateM ε σ β} {f : β → EStateM ε σ α} :
    wp (x >>= f) Q E s ↔ wp x (fun b => wp (f b) Q E) E s := by
  unfold wp
  rw [bind_apply]
  cases x s <;> rfl

theorem wp_attempt {x : EStateM ε' σ α} {Q : Except ε' α → σ → Prop} :
    wp (attempt x : EStateM ε σ (Except ε' α)) Q E s ↔
      wp x (fun a => Q (.ok a)) (fun e => Q (.error e)) s := by
  unfold wp attempt
  cases x s <;> rfl

theorem wp_ignore {x : EStateM ε' σ α} {Q : Unit → σ → Prop} :
    wp (ignore x : EStateM ε σ Unit) Q E s ↔ wp x (fun _ => Q ()) (fun _ => Q ()) s := by
  unfold wp ignore
  cases x s <;> rfl

theorem wp_failing {f : ε' → ε} {x : EStateM ε' σ α} :
    wp (failing f x) Q E s ↔ wp x Q (fun e => E (f e)) s := by
  unfold wp failing
  cases x s <;> rfl

theorem wp_reading :
    wp (reading f) Q E s ↔ match f s with
      | .ok a => Q a s
      | .error e => E e s := by
  unfold wp reading
  cases f s <;> rfl

theorem wp_reading_ok (h : f s = .ok a) : wp (reading f) Q E s ↔ Q a s := by
  rw [wp_reading, h]

theorem wp_get {f : σ → α} :
    wp (reading fun s => (.ok (f s) : Except ε α)) Q E s ↔ Q (f s) s :=
  wp_reading_ok rfl

theorem wp_reading_const {r : Except ε α} (h : r = .ok a) :
    wp (reading fun _ : σ => r) Q E s ↔ Q a s :=
  wp_reading_ok h

theorem wp_ite {c : Prop} [Decidable c] {y : EStateM ε σ α} :
    wp (if c then x else y) Q E s ↔ (c → wp x Q E s) ∧ (¬ c → wp y Q E s) := by
  by_cases h : c <;> simp [h]

theorem wp_and (h : wp x Q E s) (h' : wp x Q' E' s) :
    wp x (fun a s' => Q a s' ∧ Q' a s') (fun e s' => E e s' ∧ E' e s') s := by
  unfold wp at *
  split <;> simp_all

end WP

end Posix
