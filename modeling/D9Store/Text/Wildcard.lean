import D9Store.Text.Regexp

/-!
Patterns with two wildcards, one for any run of characters and one for a single character.

A pattern is matched through a regular expression: its wildcards become dots, everything else is
quoted, and both ends are anchored. What the expression accepts is compared with the splittings of
the text that the pattern describes.
-/

namespace Wildcard

open Regexp

/-- The two wildcards. Neither is a line break. -/
structure Alphabet where
  many : Char
  single : Char
  distinct : many ≠ single
  many_ne : many ≠ '\n'
  single_ne : single ≠ '\n'

variable (a : Alphabet)

/-- The expression of a pattern, without its anchors. -/
def body (pattern : List Char) : List Char :=
  pattern.flatMap fun r =>
    if r = a.many then ['.', '*'] else if r = a.single then ['.'] else quoteMeta [r]

/-- The expression of a pattern. -/
def expression (pattern : List Char) : List Char := '^' :: body a pattern ++ ['$']

def item (r : Char) : Item :=
  if r = a.many then .star .dot else if r = a.single then .one .dot else .one (.char r)

/-- What a pattern describes: a run of characters for each `many`, one character for each `single`,
and every other character for itself. -/
inductive Covers : List Char → List Char → Prop where
  | nil : Covers [] []
  | many {p s : List Char} (run : List Char) (h : Covers p s) : Covers (a.many :: p) (run ++ s)
  | single {p s : List Char} (c : Char) (h : Covers p s) : Covers (a.single :: p) (c :: s)
  | char {p s : List Char} {c : Char} (notMany : c ≠ a.many) (notSingle : c ≠ a.single)
      (h : Covers p s) : Covers (c :: p) (c :: s)

variable {a} {c : Char} {p pattern s : List Char}

/-! ### The expression -/

theorem scan_body (items : List Item) (pattern rest : List Char) :
    (body a pattern ++ rest).foldlM Scan.step { items := items } =
      rest.foldlM Scan.step { items := (pattern.map (item a)).reverse ++ items } := by
  induction pattern generalizing items with
  | nil => rfl
  | cons r pattern ih =>
    rw [body, List.flatMap_cons, ← body, List.append_assoc, List.map_cons, List.reverse_cons,
      List.append_assoc, List.singleton_append, item]
    by_cases many : r = a.many
    · rw [if_pos many, if_pos many]
      exact (scan_dots items _).trans (ih _)
    by_cases single : r = a.single
    · rw [if_neg many, if_pos single, if_neg many, if_pos single]
      exact (scan_dot items _).trans (ih _)
    · rw [if_neg many, if_neg single, if_neg many, if_neg single, scan_quoteMeta]
      exact ih _

/-- The expression of a pattern is one of the language, with one item for each character. -/
theorem parse_expression (pattern : List Char) :
    parse (expression a pattern) = some (.start :: pattern.map (item a) ++ [.stop]) := by
  have scanned : (expression a pattern).foldlM Scan.step {} =
      ['$'].foldlM Scan.step { items := (pattern.map (item a)).reverse ++ [.start] } :=
    scan_body [.start] pattern ['$']
  rw [parse, scanned]
  simp [Scan.step, Scan.push]

/-! ### What it matches -/

theorem item_many : item a a.many = .star .dot := if_pos rfl

theorem item_single : item a a.single = .one .dot := by
  rw [item, if_neg a.distinct.symm, if_pos rfl]

theorem item_char (notMany : c ≠ a.many) (notSingle : c ≠ a.single) :
    item a c = .one (.char c) := by
  rw [item, if_neg notMany, if_neg notSingle]

section Matching

variable {same : Char → Char → Bool}

/-- No item of a pattern looks at where it is. -/
theorem matchHere_anywhere (pattern : List Char) (first : Bool) (s : List Char) :
    matchHere same (pattern.map (item a) ++ [.stop]) first s =
      matchHere same (pattern.map (item a) ++ [.stop]) true s := by
  induction pattern generalizing first s with
  | nil => rfl
  | cons r pattern ih =>
    rw [List.map_cons, List.cons_append]
    rcases item_cases : item a r with b | b | _ | _
    · cases s <;> rfl
    · cases s with
      | nil => exact ih first []
      | cons c s =>
        rw [matchHere, matchHere, runs, runs, ih first]
    all_goals
      unfold item at item_cases
      split at item_cases
      · cases item_cases
      · split at item_cases <;> cases item_cases

end Matching

/-! ### What it describes -/

theorem covers_nil_iff : Covers a [] s ↔ s = [] := by
  constructor
  · intro h
    cases h
    rfl
  · rintro rfl
    exact .nil

theorem covers_many_iff : Covers a (a.many :: p) s ↔ ∃ run t, s = run ++ t ∧ Covers a p t := by
  constructor
  · intro h
    generalize shape : a.many :: p = q at h
    cases h with
    | nil => cases shape
    | many run h =>
      cases shape
      exact ⟨run, _, rfl, h⟩
    | single c h => exact absurd (List.cons.inj shape).1 a.distinct
    | char notMany _ h => exact absurd (List.cons.inj shape).1.symm notMany
  · rintro ⟨run, t, rfl, h⟩
    exact .many run h

theorem covers_single_iff : Covers a (a.single :: p) s ↔ ∃ c t, s = c :: t ∧ Covers a p t := by
  constructor
  · intro h
    generalize shape : a.single :: p = q at h
    cases h with
    | nil => cases shape
    | many run h => exact absurd (List.cons.inj shape).1.symm a.distinct
    | single c h =>
      cases shape
      exact ⟨c, _, rfl, h⟩
    | char _ notSingle h => exact absurd (List.cons.inj shape).1.symm notSingle
  · rintro ⟨c, t, rfl, h⟩
    exact .single c h

theorem covers_char_iff (notMany : c ≠ a.many) (notSingle : c ≠ a.single) :
    Covers a (c :: p) s ↔ ∃ t, s = c :: t ∧ Covers a p t := by
  constructor
  · intro h
    cases h with
    | many run h => exact absurd rfl notMany
    | single d h => exact absurd rfl notSingle
    | char _ _ h => exact ⟨_, rfl, h⟩
  · rintro ⟨t, rfl, h⟩
    exact .char notMany notSingle h

/-- The line breaks of a pattern stand for different ones of the text. -/
theorem Covers.count_le (h : Covers a p s) : p.count '\n' ≤ s.count '\n' := by
  induction h with
  | nil => exact le_rfl
  | many run _ ih =>
    rw [List.count_cons_of_ne a.many_ne, List.count_append]
    omega
  | single c _ ih =>
    rw [List.count_cons_of_ne a.single_ne]
    exact ih.trans List.count_le_count_cons
  | char _ _ _ ih =>
    rw [List.count_cons, List.count_cons]
    omega

/-- A text is matched when it is covered and no wildcard stands for a line break. -/
theorem matchHere_iff :
    matchHere (· == ·) (pattern.map (item a) ++ [.stop]) true s = true ↔
      Covers a pattern s ∧ s.count '\n' = pattern.count '\n' := by
  induction pattern generalizing s with
  | nil =>
    rw [covers_nil_iff]
    cases s <;> simp [matchHere]
  | cons r pattern ih =>
    rw [List.map_cons, List.cons_append]
    by_cases isMany : r = a.many
    · subst isMany
      rw [item_many, matchHere, runs_iff (matchHere_anywhere pattern), covers_many_iff,
        List.count_cons_of_ne a.many_ne]
      constructor
      · rintro ⟨run, t, rfl, dots, h⟩
        obtain ⟨covers, count⟩ := ih.mp h
        have none : run.count '\n' = 0 :=
          List.count_eq_zero.mpr fun mem => by simpa [Class.accepts] using dots _ mem
        exact ⟨⟨run, t, rfl, covers⟩, by rw [List.count_append, none, count, Nat.zero_add]⟩
      · rintro ⟨⟨run, t, rfl, covers⟩, count⟩
        have least := covers.count_le
        rw [List.count_append] at count
        have none : run.count '\n' = 0 := by omega
        refine ⟨run, t, rfl, fun c mem => ?_, ih.mpr ⟨covers, by omega⟩⟩
        exact bne_iff_ne.mpr fun eq => List.count_eq_zero.mp none (eq ▸ mem)
    by_cases isSingle : r = a.single
    · subst isSingle
      rw [item_single, covers_single_iff, List.count_cons_of_ne a.single_ne]
      constructor
      · intro h
        cases s with
        | nil => cases h
        | cons c s =>
          rw [matchHere, Bool.and_eq_true, matchHere_anywhere] at h
          obtain ⟨covers, count⟩ := ih.mp h.2
          have ne : c ≠ '\n' := bne_iff_ne.mp h.1
          exact ⟨⟨c, s, rfl, covers⟩, by rw [List.count_cons_of_ne ne, count]⟩
      · rintro ⟨⟨c, s, rfl, covers⟩, count⟩
        have least := covers.count_le
        rw [List.count_cons] at count
        rw [matchHere, Bool.and_eq_true, matchHere_anywhere]
        by_cases eq : c = '\n'
        · rw [if_pos (beq_iff_eq.mpr eq)] at count
          omega
        · rw [if_neg (by simpa using eq), Nat.add_zero] at count
          exact ⟨bne_iff_ne.mpr eq, ih.mpr ⟨covers, count⟩⟩
    · rw [item_char isMany isSingle, covers_char_iff isMany isSingle]
      constructor
      · intro h
        cases s with
        | nil => cases h
        | cons c s =>
          rw [matchHere, Bool.and_eq_true, matchHere_anywhere] at h
          obtain ⟨covers, count⟩ := ih.mp h.2
          obtain rfl : r = c := beq_iff_eq.mp h.1
          exact ⟨⟨s, rfl, covers⟩, by rw [List.count_cons, List.count_cons, count]⟩
      · rintro ⟨⟨s, rfl, covers⟩, count⟩
        rw [matchHere, Bool.and_eq_true, matchHere_anywhere]
        rw [List.count_cons, List.count_cons] at count
        exact ⟨beq_self_eq_true r, ih.mpr ⟨covers, by omega⟩⟩

/-- The expression of a pattern accepts a text exactly when the pattern covers it and both have the
same number of line breaks. -/
theorem matchString_iff :
    matchString (· == ·) (.start :: pattern.map (item a) ++ [.stop]) s = true ↔
      Covers a pattern s ∧ s.count '\n' = pattern.count '\n' := by
  rw [List.cons_append, matchString_start, matchHere_iff]

/-- A pattern covers every text that it describes with its characters for themselves. -/
theorem Covers.refl (p : List Char) : Covers a p p := by
  induction p with
  | nil => exact .nil
  | cons c p ih =>
    by_cases isMany : c = a.many
    · subst isMany
      exact .many [a.many] ih
    by_cases isSingle : c = a.single
    · subst isSingle
      exact .single a.single ih
    · exact .char isMany isSingle ih

theorem Covers.append {q t : List Char} (h : Covers a p s) (h' : Covers a q t) :
    Covers a (p ++ q) (s ++ t) := by
  induction h with
  | nil => exact h'
  | many run _ ih =>
    rw [List.append_assoc]
    exact .many run ih
  | single c _ ih => exact .single c ih
  | char notMany notSingle _ ih => exact .char notMany notSingle ih

end Wildcard
