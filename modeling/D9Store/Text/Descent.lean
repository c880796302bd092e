import Mathlib.Data.List.Basic
import Mathlib.Tactic.Common

/-!
Recursive descent over an array of tokens.

A parser reads its tokens by index and moves an index of its own. It can refuse the tokens, read
outside of them, or run out of the steps it was given. `Safe` says that it does neither of the last
two, and what holds where it succeeds; the rules below follow the constructs parsers are built from.
-/

namespace Descent

/-- Why a parser stops without a result. -/
inductive Stop (ε : Type) where
  | refused (why : ε)
  | outOfRange
  | spent
  deriving DecidableEq

/-- A parser takes the tokens and an index, and returns its result with the next index. -/
def Parser (τ ε α : Type) : Type := List τ → Nat → Except (Stop ε) (α × Nat)

variable {τ ε α β : Type}

instance : Monad (Parser τ ε) where
  pure a := fun _ pos => .ok (a, pos)
  bind p f := fun toks pos =>
    match p toks pos with
    | .error stop => .error stop
    | .ok (a, next) => f a toks next

/-- The token `k` places on. -/
def look (k : Nat) : Parser τ ε τ := fun toks pos =>
  match toks[pos + k]? with
  | some t => .ok (t, pos)
  | none => .error .outOfRange

def peek : Parser τ ε τ := look 0

/-- Takes a token; the last one is not passed. -/
def next : Parser τ ε τ := fun toks pos =>
  match toks[pos]? with
  | some t => .ok (t, if pos < toks.length - 1 then pos + 1 else pos)
  | none => .error .outOfRange

def refuse (why : ε) : Parser τ ε α := fun _ _ => .error (.refused why)

/-- Goes on if the condition holds. -/
def require (c : Bool) (why : ε) : Parser τ ε Unit := if c then pure () else refuse why

/-- The end of the steps a loop was given. -/
def spent : Parser τ ε α := fun _ _ => .error .spent

/-! ### Results -/

variable {toks rest : List τ} {pos : Nat} {t u : τ}

theorem pure_apply (a : α) : (pure a : Parser τ ε α) toks pos = .ok (a, pos) := rfl

theorem bind_apply (p : Parser τ ε α) (f : α → Parser τ ε β) :
    (p >>= f) toks pos =
      match p toks pos with
      | .error stop => .error stop
      | .ok (a, next) => f a toks next := rfl

theorem bind_of_ok {p : Parser τ ε α} {f : α → Parser τ ε β} {a : α} {next : Nat}
    (h : p toks pos = .ok (a, next)) : (p >>= f) toks pos = f a toks next := by
  rw [bind_apply, h]

theorem bind_of_error {p : Parser τ ε α} {f : α → Parser τ ε β} {stop : Stop ε}
    (h : p toks pos = .error stop) : (p >>= f) toks pos = .error stop := by
  rw [bind_apply, h]

theorem look_eq {k : Nat} (h : toks[pos + k]? = some t) :
    (look k : Parser τ ε τ) toks pos = .ok (t, pos) := by
  rw [look, h]

theorem peek_eq (h : toks[pos]? = some t) : (peek : Parser τ ε τ) toks pos = .ok (t, pos) :=
  look_eq h

theorem next_eq (h : toks[pos]? = some t) (more : pos + 1 < toks.length) :
    (next : Parser τ ε τ) toks pos = .ok (t, pos + 1) := by
  rw [next, h]
  exact congrArg (fun n => Except.ok (t, n)) (if_pos (by omega))

theorem require_true {c : Bool} {why : ε} {f : Unit → Parser τ ε β} (h : c = true) :
    (require c why >>= f) toks pos = f () toks pos := by
  rw [h]
  rfl

/-! ### Tokens from an index on -/

/-- The tokens from the index on. -/
def At (toks : List τ) (pos : Nat) (rest : List τ) : Prop := toks.drop pos = rest

theorem At.get (h : At toks pos (t :: rest)) : toks[pos]? = some t := by
  have first : (toks.drop pos)[0]? = some t := by rw [show toks.drop pos = t :: rest from h]; rfl
  rwa [List.getElem?_drop] at first

theorem At.tail (h : At toks pos (t :: rest)) : At toks (pos + 1) rest := by
  have drop : toks.drop (pos + 1) = (toks.drop pos).drop 1 := by rw [List.drop_drop]
  rw [At, drop, show toks.drop pos = t :: rest from h]
  rfl

theorem At.length (h : At toks pos (t :: rest)) (more : rest ≠ []) : pos + 1 < toks.length := by
  have length := congrArg List.length (show toks.drop pos = t :: rest from h)
  have some_ := List.length_pos_of_ne_nil more
  rw [List.length_drop, List.length_cons] at length
  omega

theorem At.peek (h : At toks pos (t :: rest)) :
    (Descent.peek : Parser τ ε τ) toks pos = .ok (t, pos) := peek_eq h.get

theorem At.next (h : At toks pos (t :: rest)) (more : rest ≠ []) :
    (Descent.next : Parser τ ε τ) toks pos = .ok (t, pos + 1) := next_eq h.get (h.length more)

theorem At.peek_bind (h : At toks pos (t :: rest)) (f : τ → Parser τ ε β) :
    (Descent.peek >>= f) toks pos = f t toks pos := bind_of_ok h.peek

theorem At.next_bind (h : At toks pos (t :: rest)) (more : rest ≠ []) (f : τ → Parser τ ε β) :
    (Descent.next >>= f) toks pos = f t toks (pos + 1) := bind_of_ok (h.next more)

/-- The parser gives this result, and moves to this index if it is one. -/
def Gives (p : Parser τ ε α) (toks : List τ) (pos : Nat) (result : Except (Stop ε) α) (next : Nat) :
    Prop := p toks pos = result.map fun a => (a, next)

theorem Gives.bind {p : Parser τ ε α} {result : Except (Stop ε) α} {next : Nat}
    (h : Gives p toks pos result next) (f : α → Parser τ ε β) :
    (p >>= f) toks pos = result >>= fun a => f a toks next := by
  cases result with
  | error stop => exact bind_of_error h
  | ok a => exact bind_of_ok h

/-! ### Safe parsers -/

/-- The parser stays inside the tokens and ends, with a result as described or refusing the tokens. -/
def Safe (p : Parser τ ε α) (toks : List τ) (pos : Nat) (Q : α → Nat → Prop) : Prop :=
  match p toks pos with
  | .ok (a, next) => Q a next
  | .error (.refused _) => True
  | .error _ => False

variable {p : Parser τ ε α} {f : α → Parser τ ε β} {Q Q' : α → Nat → Prop} {R : β → Nat → Prop}

theorem Safe.ok (h : Safe p toks pos Q) {a : α} {next : Nat} (run : p toks pos = .ok (a, next)) :
    Q a next := by
  rwa [Safe, run] at h

theorem Safe.not_spent (h : Safe p toks pos Q) : p toks pos ≠ .error .spent := by
  intro run
  rw [Safe, run] at h
  exact h

theorem Safe.in_range (h : Safe p toks pos Q) : p toks pos ≠ .error .outOfRange := by
  intro run
  rw [Safe, run] at h
  exact h

theorem safe_pure {a : α} (h : Q a pos) : Safe (pure a : Parser τ ε α) toks pos Q := h

theorem safe_refuse {why : ε} : Safe (refuse why : Parser τ ε α) toks pos Q := trivial

theorem safe_require {c : Bool} {why : ε} {f : Unit → Parser τ ε β}
    (h : c = true → Safe (f ()) toks pos R) : Safe (require c why >>= f) toks pos R := by
  cases c with
  | false => trivial
  | true => exact h rfl

theorem safe_bind (h : Safe p toks pos fun a next => Safe (f a) toks next R) :
    Safe (p >>= f) toks pos R := by
  unfold Safe at h ⊢
  rw [bind_apply]
  cases run : p toks pos with
  | ok pair =>
    rw [run] at h
    exact h
  | error stop =>
    rw [run] at h
    cases stop with
    | refused why => trivial
    | outOfRange => exact h
    | spent => exact h

theorem Safe.mono (h : Safe p toks pos Q) (imp : ∀ a next, Q a next → Q' a next) :
    Safe p toks pos Q' := by
  unfold Safe at h ⊢
  cases run : p toks pos with
  | ok pair =>
    rw [run] at h
    exact imp _ _ h
  | error stop =>
    rw [run] at h
    cases stop with
    | refused why => trivial
    | outOfRange => exact h
    | spent => exact h

/-- A parser is followed by one that is safe wherever the first one may end. -/
theorem Safe.bind (h : Safe p toks pos Q)
    (rest : ∀ a next, Q a next → Safe (f a) toks next R) : Safe (p >>= f) toks pos R :=
  safe_bind (h.mono rest)

/-! ### Tokens with an end marker -/

/-- The tokens end with the marker, and have no other. -/
def Marked (eof : τ) (toks : List τ) : Prop := ∃ body, toks = body ++ [eof] ∧ eof ∉ body

variable {eof : τ}

/-- A token that is not the marker has another one after it. -/
theorem Marked.more (h : Marked eof toks) (found : toks[pos]? = some t) (other : t ≠ eof) :
    pos + 1 < toks.length := by
  obtain ⟨body, rfl, -⟩ := h
  obtain ⟨bound, eq⟩ := List.getElem?_eq_some_iff.mp found
  simp only [List.length_append, List.length_singleton] at bound ⊢
  rcases Nat.lt_or_ge pos body.length with inside | outside
  · omega
  · have last : pos = body.length := by omega
    subst last
    rw [List.getElem_append_right (Nat.le_refl _)] at eq
    simp only [Nat.sub_self, List.getElem_singleton] at eq
    exact absurd eq.symm other

/-- The marker stands at the last index. -/
theorem Marked.last (h : Marked eof toks) (found : toks[pos]? = some eof) :
    pos + 1 = toks.length := by
  obtain ⟨body, rfl, absent⟩ := h
  obtain ⟨bound, eq⟩ := List.getElem?_eq_some_iff.mp found
  rw [List.length_append, List.length_singleton] at bound ⊢
  rcases Nat.lt_or_ge pos body.length with inside | outside
  · rw [List.getElem_append_left inside] at eq
    exact absurd (eq ▸ List.getElem_mem inside) absent
  · omega

/-- Looking at the current token. -/
theorem safe_peek {f : τ → Parser τ ε β} (bound : pos < toks.length)
    (h : ∀ t, toks[pos]? = some t → Safe (f t) toks pos R) : Safe (peek >>= f) toks pos R := by
  obtain ⟨t, found⟩ : ∃ t, toks[pos]? = some t := ⟨_, List.getElem?_eq_getElem bound⟩
  apply safe_bind
  rw [Safe, peek_eq found]
  exact h t found

/-- Looking one token further, when the current one is not the last. -/
theorem safe_look {f : τ → Parser τ ε β} (bound : pos + 1 < toks.length)
    (h : ∀ t, toks[pos + 1]? = some t → Safe (f t) toks pos R) :
    Safe (look 1 >>= f) toks pos R := by
  obtain ⟨t, found⟩ : ∃ t, toks[pos + 1]? = some t := ⟨_, List.getElem?_eq_getElem bound⟩
  apply safe_bind
  rw [Safe, look_eq found]
  exact h t found

/-- Taking a token that is not the last. -/
theorem safe_next {f : τ → Parser τ ε β} (found : toks[pos]? = some t)
    (more : pos + 1 < toks.length) (h : Safe (f t) toks (pos + 1) R) :
    Safe (next >>= f) toks pos R := by
  apply safe_bind
  rw [Safe, next_eq found more]
  exact h

/-- Taking a token that may be the last. -/
theorem safe_next_any {f : τ → Parser τ ε β} (bound : pos < toks.length)
    (h : ∀ t next, toks[pos]? = some t → pos ≤ next → next < toks.length →
      Safe (f t) toks next R) : Safe (next >>= f) toks pos R := by
  obtain ⟨t, found⟩ : ∃ t, toks[pos]? = some t := ⟨_, List.getElem?_eq_getElem bound⟩
  apply safe_bind
  rw [Safe, Descent.next, found]
  apply h t _ found
  · split
    · exact Nat.le_succ pos
    · exact Nat.le_refl pos
  · split
    · omega
    · exact bound

end Descent
