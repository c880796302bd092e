import Mathlib

/-!
The loops of `stripExcessSpaces` (`internal/auth/sigv4.go`).

Strings are lists over any alphabet with a blank; a read or a write outside of one is `none`. The first
two loops find the part without blanks at its ends, the third one moves what is kept to the front of
the buffer while it is still being read.
-/

namespace D9Store.Auth.Spaces

variable {α : Type} [DecidableEq α] (blank : α)

/-! ### The loops -/

/-- The loop for `j`, downwards; the number is `j + 1`. -/
def trimRight (str : List α) : Nat → Option Nat
  | 0 => some 0
  | n + 1 => do
    let c ← str[n]?
    if c = blank then trimRight str n else some (n + 1)

/-- The loop for `k`, upwards while it is below `j`; `left` is what is missing. -/
def trimLeft (str : List α) : (left k : Nat) → Option Nat
  | 0, k => some k
  | left + 1, k => do
    let c ← str[k]?
    if c = blank then trimLeft str left (k + 1) else some k

/-- `str[k:n]`. -/
def slice (str : List α) (k n : Nat) : Option (List α) :=
  if k ≤ n ∧ n ≤ str.length then some ((str.take n).drop k) else none

/-- `strings.Index(str, doubleSpace)`. -/
def doubleAt : List α → Option Nat
  | a :: b :: rest =>
    if a = blank ∧ b = blank then some 0 else (doubleAt (b :: rest)).map (· + 1)
  | _ => none

/-- `buf[m] = c`. -/
def store (buf : List α) (m : Nat) (c : α) : Option (List α) :=
  if m < buf.length then some (buf.set m c) else none

/-- The loop over the buffer; `left` characters are still to be read at `k`. -/
def compact : (buf : List α) → (left k m spaces : Nat) → Option (List α)
  | buf, 0, _, m, _ => slice buf 0 m
  | buf, left + 1, k, m, spaces => do
    let c ← buf[k]?
    if c = blank then
      if spaces = 0 then do
        let buf ← store buf m c
        compact buf left (k + 1) (m + 1) (spaces + 1)
      else compact buf left (k + 1) m (spaces + 1)
    else do
      let buf ← store buf m c
      compact buf left (k + 1) (m + 1) 0

/-- `stripExcessSpaces`. -/
def strip (str : List α) : Option (List α) := do
  let n ← trimRight blank str str.length
  let k ← trimLeft blank str (n - 1) 0
  let str ← slice str k n
  match doubleAt blank str with
  | none => some str
  | some j => compact blank str (str.length - j) j j 0

/-! ### What they compute -/

/-- The string without the blanks that follow a blank; `after` tells that one came before. -/
def squeeze (after : Bool) : List α → List α
  | [] => []
  | c :: s =>
    if c = blank then if after then squeeze true s else c :: squeeze true s
    else c :: squeeze false s

/-- The string without blanks at its ends. -/
def trimmed (str : List α) : List α := (str.rdropWhile (· = blank)).dropWhile (· = blank)

/-- The string without blanks at its ends, every run of blanks inside made one. -/
def normal (str : List α) : List α := squeeze blank false (trimmed blank str)

variable {blank} {n : Nat}

theorem trimRight_spec {str : List α} (bound : n ≤ str.length) :
    ∃ m ≤ n, trimRight blank str n = some m ∧ str.take m = (str.take n).rdropWhile (· = blank) := by
  induction n with
  | zero => exact ⟨0, le_rfl, rfl, rfl⟩
  | succ n ih =>
    have here : str[n]? = some str[n] := List.getElem?_eq_getElem bound
    have shape : str.take (n + 1) = str.take n ++ [str[n]] := List.take_succ_eq_append_getElem bound
    rw [trimRight, here, Option.bind_eq_bind, Option.bind_some, shape, List.rdropWhile_concat]
    by_cases isBlank : str[n] = blank
    · obtain ⟨m, le, run, eq⟩ := ih (by omega)
      refine ⟨m, by omega, ?_, ?_⟩
      · rw [if_pos isBlank, run]
      · rw [eq, if_pos (decide_eq_true isBlank)]
    · refine ⟨n + 1, le_rfl, if_neg isBlank, ?_⟩
      rw [shape, if_neg (by simpa using isBlank)]

/-- The part up to `n` ends in no blank, so the second loop stops in front of its last character. -/
theorem trimLeft_spec {str t : List α} (part : str.take n = t) (bound : n ≤ str.length)
    (last : ∀ c ∈ t.getLast?, c ≠ blank) {left k : Nat} (rest : k + left = n - 1) :
    ∃ k' ≤ n, trimLeft blank str left k = some k' ∧ t.drop k' = (t.drop k).dropWhile (· = blank) := by
  have length : t.length = n := by rw [← part, List.length_take, min_eq_left bound]
  induction left generalizing k with
  | zero =>
    refine ⟨k, by omega, rfl, ?_⟩
    rcases Nat.eq_zero_or_pos n with rfl | pos
    · rw [List.length_eq_zero_iff.mp length]
      simp
    · have inside : k < t.length := by omega
      have final : t.drop k = [t[k]] := by
        rw [List.drop_eq_getElem_cons inside, List.drop_eq_nil_of_le (by omega)]
      have solid : t[k] ≠ blank := by
        apply last
        rw [List.getLast?_eq_getElem?, show t.length - 1 = k by omega]
        exact List.getElem?_eq_getElem inside
      rw [final, List.dropWhile_cons_of_neg (by simpa using solid)]
  | succ left ih =>
    have inside : k < t.length := by omega
    have here : str[k]? = some t[k] := by
      rw [← List.getElem?_eq_getElem inside, ← part, List.getElem?_take_of_lt (by omega)]
    rw [trimLeft, here, Option.bind_eq_bind, Option.bind_some, List.drop_eq_getElem_cons inside]
    by_cases isBlank : t[k] = blank
    · obtain ⟨k', le, run, eq⟩ := ih (k := k + 1) (by omega)
      refine ⟨k', le, ?_, ?_⟩
      · rw [if_pos isBlank, run]
      · rw [eq, List.dropWhile_cons_of_pos (by simpa using isBlank)]
    · refine ⟨k, by omega, if_neg isBlank, ?_⟩
      rw [List.dropWhile_cons_of_neg (by simpa using isBlank), List.drop_eq_getElem_cons inside]

/-- The buffer holds what is kept, characters that were read already, and the rest. -/
theorem compact_spec (rest out junk : List α) (spaces : Nat) :
    compact blank (out ++ junk ++ rest) rest.length (out ++ junk).length out.length spaces =
      some (out ++ squeeze blank (spaces ≠ 0) rest) := by
  induction rest generalizing out junk spaces with
  | nil => simp [compact, slice, squeeze]
  | cons c rest ih =>
    have here : (out ++ junk ++ c :: rest)[(out ++ junk).length]? = some c := by simp
    have skipped : compact blank (out ++ junk ++ c :: rest) rest.length ((out ++ junk).length + 1)
        out.length (spaces + 1) = some (out ++ squeeze blank true rest) := by
      have next := ih out (junk ++ [c]) (spaces + 1)
      simpa [← Nat.add_assoc] using next
    have kept (spaces' : Nat) : (store (out ++ junk ++ c :: rest) out.length c).bind (fun buf =>
        compact blank buf rest.length ((out ++ junk).length + 1) (out.length + 1) spaces') =
        some (out ++ c :: squeeze blank (spaces' ≠ 0) rest) := by
      rw [store, if_pos (by simp), Option.bind_some]
      cases junk with
      | nil =>
        have next := ih (out ++ [c]) [] spaces'
        simpa using next
      | cons x junk =>
        have next := ih (out ++ [c]) (junk ++ [c]) spaces'
        simpa [← Nat.add_assoc] using next
    rw [List.length_cons, compact, here, Option.bind_eq_bind, Option.bind_some, squeeze]
    by_cases isBlank : c = blank
    · rw [if_pos isBlank, if_pos isBlank]
      by_cases first : spaces = 0
      · subst first
        rw [if_pos rfl, Option.bind_eq_bind, kept]
        simp
      · rw [if_neg first, skipped]
        simp [first]
    · rw [if_neg isBlank, if_neg isBlank, Option.bind_eq_bind, kept]
      simp

/-- Up to the first two blanks nothing is dropped. -/
theorem squeeze_doubleAt (str : List α) :
    match doubleAt blank str with
    | none => squeeze blank false str = str
    | some j => j ≤ str.length ∧ squeeze blank false str = str.take j ++ squeeze blank false (str.drop j) := by
  induction str with
  | nil => rfl
  | cons a str ih =>
    cases str with
    | nil => by_cases isBlank : a = blank <;> simp [doubleAt, squeeze, isBlank]
    | cons b rest =>
      by_cases both : a = blank ∧ b = blank
      · simp [doubleAt, both]
      have step : squeeze blank false (a :: b :: rest) = a :: squeeze blank false (b :: rest) := by
        by_cases first : a = blank
        · have second : b ≠ blank := fun eq => both ⟨first, eq⟩
          simp [squeeze, first, second]
        · simp [squeeze, first]
      rw [doubleAt, if_neg both, step]
      cases found : doubleAt blank (b :: rest) with
      | none =>
        rw [found] at ih
        exact congrArg (a :: ·) ih
      | some j =>
        rw [found] at ih
        exact ⟨Nat.succ_le_succ ih.1, congrArg (a :: ·) ih.2⟩

/-- No index is out of range, and the result is the normal form. -/
theorem strip_eq (str : List α) : strip blank str = some (normal blank str) := by
  obtain ⟨n, bound, right, part⟩ := @trimRight_spec _ _ blank _ _ (le_refl str.length)
  rw [List.take_length] at part
  have last : ∀ c ∈ (str.rdropWhile (· = blank)).getLast?, c ≠ blank := by
    intro c mem eq
    have ne : str.rdropWhile (· = blank) ≠ [] := by
      intro empty
      rw [empty] at mem
      cases mem
    refine List.rdropWhile_last_not (· = blank) str ne ?_
    rw [List.getLast?_eq_some_getLast ne] at mem
    cases mem
    exact decide_eq_true eq
  obtain ⟨k, le, run, shape⟩ := trimLeft_spec part bound last (show 0 + (n - 1) = n - 1 by omega)
  have cut : slice str k n = some (trimmed blank str) := by
    rw [slice, if_pos ⟨le, bound⟩, part, shape]
    rfl
  simp only [strip, right, run, cut, Option.bind_eq_bind, Option.bind_some, normal]
  have squeezed := @squeeze_doubleAt _ _ blank (trimmed blank str)
  cases found : doubleAt blank (trimmed blank str) with
  | none =>
    rw [found] at squeezed
    exact congrArg some squeezed.symm
  | some j =>
    rw [found] at squeezed
    obtain ⟨inside, squeezed⟩ := squeezed
    have loop := @compact_spec _ _ blank ((trimmed blank str).drop j) ((trimmed blank str).take j) [] 0
    rw [List.append_nil, List.take_append_drop, List.length_take, min_eq_left inside,
      List.length_drop] at loop
    rw [squeezed]
    exact loop

end D9Store.Auth.Spaces
