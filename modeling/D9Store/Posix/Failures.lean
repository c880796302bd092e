import D9Store.Posix.Prog

/-!
What a program can fail with.

`FailsIn P x` says that every failure of `x`, from whatever state, satisfies `P`. It is closed
under the constructs programs are built from, so it is proved by following a program's text.
-/

namespace Posix

variable {ε ε' σ α β : Type}

def FailsIn (P : ε → Prop) (x : EStateM ε σ α) : Prop :=
  ∀ s err t, x s = .error err t → P err

namespace FailsIn

variable {P : ε → Prop} {err : ε} {x : EStateM ε σ α}

theorem pure (a : α) : FailsIn P (pure a : EStateM ε σ α) := by
  intro s err t run
  cases run

theorem throw (h : P err) : FailsIn P (throw err : EStateM ε σ α) := by
  intro s err' t run
  cases run
  exact h

theorem bind {f : α → EStateM ε σ β} (hx : FailsIn P x) (hf : ∀ a, FailsIn P (f a)) :
    FailsIn P (x >>= f) := by
  intro s err t run
  rw [bind_apply] at run
  cases first : x s with
  | ok a s' =>
    rw [first] at run
    exact hf a s' err t run
  | error err' s' =>
    rw [first] at run
    cases run
    exact hx s err t first

theorem attempt (x : EStateM ε' σ α) :
    FailsIn P (attempt x : EStateM ε σ (Except ε' α)) := by
  intro s err t run
  unfold Posix.attempt at run
  split at run <;> cases run

/-- A failure that is caught may be thrown again. -/
theorem bind_attempt {f : Except ε α → EStateM ε σ β} (hx : FailsIn P x)
    (onOk : ∀ a, FailsIn P (f (.ok a))) (onError : ∀ err, P err → FailsIn P (f (.error err))) :
    FailsIn P (Posix.attempt x >>= f) := by
  intro s err t run
  rw [bind_apply] at run
  unfold Posix.attempt at run
  cases tried : x s with
  | ok a s' =>
    rw [tried] at run
    exact onOk a s' err t run
  | error err' s' =>
    rw [tried] at run
    exact onError err' (hx s err' s' tried) s' err t run

theorem ignore (x : EStateM ε' σ α) : FailsIn P (ignore x : EStateM ε σ Unit) := by
  intro s err t run
  unfold Posix.ignore at run
  split at run <;> cases run

theorem failing {f : ε' → ε} (h : ∀ err, P (f err)) (x : EStateM ε' σ α) :
    FailsIn P (failing f x) := by
  intro s err t run
  unfold Posix.failing at run
  split at run
  · cases run
  · cases run
    exact h _

theorem reading {f : σ → Except ε α} (h : ∀ s err, f s = .error err → P err) :
    FailsIn P (reading f) := by
  intro s err t run
  unfold Posix.reading at run
  split at run
  · cases run
  · rename_i failed
    cases run
    exact h s err failed

theorem get (f : σ → α) : FailsIn P (Posix.reading fun s => (.ok (f s) : Except ε α)) :=
  reading fun _ _ h => by cases h

theorem ite {c : Prop} [Decidable c] {y : EStateM ε σ α} (hx : FailsIn P x) (hy : FailsIn P y) :
    FailsIn P (if c then x else y) := by
  split
  · exact hx
  · exact hy

theorem outcome (h : FailsIn P x) {s : σ} (failed : outcome x s = .error err) : P err :=
  h s err _ (outcome_error.mp failed)

end FailsIn

end Posix
