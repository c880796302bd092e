import D9Store.Auth.SigV4
import D9Store.Auth.Spaces

/-!
The whitespace of signed header values.

The loops of `stripExcessSpaces` stay inside the string and compute its normal form, which is its own.
On the characters of a text they compute what the signature check is modelled with.
-/

namespace D9Store.Auth

open Text Spaces

namespace Spaces

variable {α : Type}

theorem rdropWhile_cons (p : α → Bool) (c : α) (s : List α) :
    (c :: s).rdropWhile p = if s.rdropWhile p = [] then [c].dropWhile p else c :: s.rdropWhile p := by
  rw [List.rdropWhile, List.reverse_cons, List.dropWhile_append, List.rdropWhile]
  by_cases empty : s.reverse.dropWhile p = []
  · rw [empty]
    by_cases drop : p c = true <;> simp [drop]
  · simp [empty]

/-- It does not matter which end is trimmed first. -/
theorem dropWhile_rdropWhile (p : α → Bool) (s : List α) :
    (s.rdropWhile p).dropWhile p = (s.dropWhile p).rdropWhile p := by
  induction s with
  | nil => rfl
  | cons c s ih =>
    rw [rdropWhile_cons]
    by_cases drop : p c = true
    · have rest : (c :: s).dropWhile p = s.dropWhile p := List.dropWhile_cons_of_pos drop
      rw [rest, ← ih]
      by_cases empty : s.rdropWhile p = [] <;> simp [empty, drop]
    · have whole : (c :: s).dropWhile p = c :: s := List.dropWhile_cons_of_neg drop
      rw [whole, rdropWhile_cons]
      by_cases empty : s.rdropWhile p = [] <;> simp [empty, drop]

variable [DecidableEq α] {blank c : α}

theorem squeeze_squeeze (after : Bool) (s : List α) :
    squeeze blank after (squeeze blank after s) = squeeze blank after s := by
  induction s generalizing after with
  | nil => rfl
  | cons c s ih =>
    by_cases isBlank : c = blank
    · cases after <;> simp [squeeze, isBlank, ih]
    · simp [squeeze, isBlank, ih]

theorem squeeze_concat (solid : c ≠ blank) (after : Bool) (s : List α) :
    squeeze blank after (s ++ [c]) = squeeze blank after s ++ [c] := by
  induction s generalizing after with
  | nil => simp [squeeze, solid]
  | cons d s ih =>
    by_cases isBlank : d = blank
    · cases after <;> simp [squeeze, isBlank, ih]
    · simp [squeeze, isBlank, ih]

/-- Nothing but blanks is dropped. -/
theorem filter_squeeze (after : Bool) (s : List α) :
    (squeeze blank after s).filter (· ≠ blank) = s.filter (· ≠ blank) := by
  induction s generalizing after with
  | nil => rfl
  | cons c s ih =>
    by_cases isBlank : c = blank
    · cases after <;> simp_all [squeeze]
    · simp_all [squeeze]

theorem filter_dropWhile (s : List α) :
    (s.dropWhile (· = blank)).filter (· ≠ blank) = s.filter (· ≠ blank) := by
  induction s with
  | nil => rfl
  | cons c s ih => by_cases isBlank : c = blank <;> simp_all

theorem filter_normal (s : List α) : (normal blank s).filter (· ≠ blank) = s.filter (· ≠ blank) := by
  rw [normal, filter_squeeze, trimmed, filter_dropWhile, List.rdropWhile, List.filter_reverse,
    filter_dropWhile, List.filter_reverse, List.reverse_reverse]

theorem trimmed_normal (s : List α) : trimmed blank (normal blank s) = normal blank s := by
  have front : ∀ t : List α, (∀ c ∈ t.head?, c ≠ blank) → t.dropWhile (· = blank) = t := by
    intro t solid
    cases t with
    | nil => rfl
    | cons c t => exact List.dropWhile_cons_of_neg (by simpa using solid c rfl)
  have solid : ∀ c ∈ (trimmed blank s).head?, c ≠ blank := by
    intro c mem eq
    have here := List.head?_dropWhile_not (· = blank) (s.rdropWhile (· = blank))
    unfold trimmed at mem
    rw [Option.mem_def.mp mem] at here
    simp [eq] at here
  have back : (normal blank s).rdropWhile (· = blank) = normal blank s := by
    rw [normal]
    rcases (trimmed blank s).eq_nil_or_concat with empty | ⟨t, c, shape⟩
    · rw [empty]
      rfl
    · have last : c ≠ blank := by
        have ne : (s.dropWhile (· = blank)).rdropWhile (· = blank) ≠ [] := by
          rw [← dropWhile_rdropWhile]
          intro empty
          rw [trimmed, empty] at shape
          simp at shape
        have stop := List.rdropWhile_last_not (· = blank) _ ne
        simp only [← dropWhile_rdropWhile] at stop
        simp only [show (s.rdropWhile (· = blank)).dropWhile (· = blank) = t ++ [c] by
          rw [← List.concat_eq_append]; exact shape, List.getLast_append_singleton] at stop
        simpa using stop
      rw [shape, List.concat_eq_append, squeeze_concat last,
        List.rdropWhile_concat_neg _ _ _ (by simpa using last)]
  rw [trimmed, back]
  apply front
  intro c mem
  apply solid
  rw [normal] at mem
  cases shape : trimmed blank s with
  | nil =>
    rw [shape] at mem
    cases mem
  | cons d t =>
    have first : d ≠ blank := solid d (by rw [shape]; rfl)
    rw [shape] at mem
    simpa [squeeze, first] using mem

end Spaces

/-- The blank of header values. -/
def space : UInt8 := 32

/-- Every byte string has a normal form: `stripExcessSpaces` returns it, it keeps the other bytes in
their order and is its own normal form; and where there is no double space, the loop over the buffer
returns what the fast path returns. -/
theorem spaces_normalised (str : List UInt8) :
    strip space str = some (normal space str) ∧
      (normal space str).filter (· ≠ space) = str.filter (· ≠ space) ∧
      strip space (normal space str) = some (normal space str) ∧
      (doubleAt space (trimmed space str) = none →
        compact space (trimmed space str) (trimmed space str).length 0 0 0 =
          some (trimmed space str)) := by
  refine ⟨strip_eq str, filter_normal str, ?_, fun single => ?_⟩
  · rw [strip_eq, normal, trimmed_normal, normal, squeeze_squeeze]
  · have loop := @compact_spec _ _ space (trimmed space str) [] [] 0
    have fast := @squeeze_doubleAt _ _ space (trimmed space str)
    rw [single] at fast
    simpa [fast] using loop

theorem collapse_eq (s : List Char) : collapse s = squeeze ' ' false s := by
  fun_induction collapse s with
  | case1 s ih =>
    rw [ih]
    simp [squeeze]
  | case2 c s other ih =>
    rw [ih]
    by_cases isBlank : c = ' '
    · subst isBlank
      cases s with
      | nil => rfl
      | cons d s =>
        have solid : d ≠ ' ' := fun eq => other s rfl (by rw [eq])
        simp [squeeze, solid]
    · simp [squeeze, isBlank]
  | case3 => rfl

/-- The loops compute the model of `stripExcessSpaces`. -/
theorem strip_toList (s : String) : strip ' ' s.toList = some (stripExcessSpaces s).toList := by
  rw [strip_eq, stripExcessSpaces, String.toList_ofList, collapse_eq, trimBoth, String.toList_ofList,
    normal, trimmed, dropWhile_rdropWhile, List.rdropWhile]
  rfl

end D9Store.Auth
