import D9Store.S3Select.Execute

/-!
The predicates of a query: `LIKE` and the comparisons.

The expression of a `LIKE` pattern is anchored and quoted, but its dots do not stand for line breaks,
so a field of several lines escapes a pattern that describes it. Comparisons decide equality and order
by two functions; they agree on numbers that have a place in the order and on texts, and disagree
where both operands are read as numbers and one of them is not a number.
-/

namespace D9Store.S3Select

open Text

variable {F O : Type} {lib : Lib F}

/-! ### Patterns -/

/-- The characters of a value, in the order of its text. -/
def characters (lib : Lib F) (v : Value F) : List Char := lib.runes (asString lib v)

/-- The texts that a pattern describes. -/
def LikeCovers (pattern : String) (text : List Char) : Prop :=
  Wildcard.Covers likeAlphabet pattern.toList text

/-- The value of an expression is present and is one of those. -/
def PresentAnd (lib : Lib F) (rec_ : Record F) (alias_ : String) (left : ValExpr F)
    (good : Value F → Prop) : Prop :=
  ∃ v, left.eval lib rec_ alias_ = some v ∧ good v

/-- What the test of a pattern answers. -/
theorem likePred_test_iff (pattern : String) (left : ValExpr F) (rec_ : Record F) (alias_ : String)
    {re : Bool × List Regexp.Item} (compiled : likeToRegexp pattern = some re) (neg : Bool) :
    PredExpr.test lib rec_ alias_ (.likePred left re neg) = .ok true ↔
      PresentAnd lib rec_ alias_ left fun v => (neg = true ↔
        ¬ (LikeCovers pattern (characters lib v) ∧
          (characters lib v).count '\n' = pattern.toList.count '\n')) := by
  rw [likeToRegexp_eq] at compiled
  cases compiled
  rw [PredExpr.test, PresentAnd]
  cases left.eval lib rec_ alias_ with
  | none => simp
  | some v =>
    have matched := @Wildcard.matchString_iff likeAlphabet pattern.toList (characters lib v)
    simp only [Option.some.injEq, exists_eq_left']
    rw [LikeCovers, ← matched]
    cases neg <;> simp [characters]

/-- A pattern follows SQL on exactly those values that it does not describe, or that have as many line
breaks as it has; its negation holds for the present values for which it does not. -/
theorem like_follows_sql_iff (lib : Lib F) (pattern : String) (left : ValExpr F) (rec_ : Record F)
    (alias_ : String) :
    ∃ re, likeToRegexp pattern = some re ∧
      (((PredExpr.test lib rec_ alias_ (.likePred left re false) = .ok true ↔
          PresentAnd lib rec_ alias_ left fun v => LikeCovers pattern (characters lib v)) ∧
        (PredExpr.test lib rec_ alias_ (.likePred left re true) = .ok true ↔
          PresentAnd lib rec_ alias_ left fun _ =>
            ¬ PredExpr.test lib rec_ alias_ (.likePred left re false) = .ok true)) ↔
      ∀ v, left.eval lib rec_ alias_ = some v → LikeCovers pattern (characters lib v) →
        (characters lib v).count '\n' = pattern.toList.count '\n') := by
  refine ⟨_, likeToRegexp_eq pattern, ?_⟩
  rw [likePred_test_iff pattern left rec_ alias_ (likeToRegexp_eq pattern),
    likePred_test_iff pattern left rec_ alias_ (likeToRegexp_eq pattern)]
  unfold PresentAnd
  cases left.eval lib rec_ alias_ with
  | none => simp
  | some v =>
    simp only [Option.some.injEq, exists_eq_left', Bool.false_eq_true, false_iff, not_not, true_iff,
      forall_eq']
    constructor
    · rintro ⟨same, -⟩ covers
      exact (same.mpr covers).2
    · intro equal
      exact ⟨⟨And.left, fun covers => ⟨covers, equal covers⟩⟩, trivial⟩

/-- A field that holds a line break: the pattern for every text does not match it. -/
theorem line_break_escapes_like :
    ∃ re, likeToRegexp "%" = some re ∧
      PredExpr.test smallLib (.csv [[10]] none) "" (.likePred (.colRef ["_1"]) re false) = .ok false ∧
      PredExpr.test smallLib (.csv [[10]] none) "" (.likePred (.colRef ["_1"]) re true) = .ok true ∧
      LikeCovers "%" (characters smallLib (.str [10])) := by
  refine ⟨_, likeToRegexp_eq "%", by decide, by decide, ?_⟩
  exact Wildcard.Covers.many (a := likeAlphabet) ['\n'] .nil

/-! ### Comparisons -/

/-- The numbers are those of IEEE 754: each has a place in an order, or is not a number. -/
structure Ieee (lib : Lib F) (O : Type) [LinearOrder O] where
  value : F → Option O
  less_iff : ∀ f g, lib.less f g = true ↔ ∃ x y, value f = some x ∧ value g = some y ∧ x < y
  equal_iff : ∀ f g, lib.equal f g = true ↔ ∃ x y, value f = some x ∧ value g = some y ∧ x = y

/-- The operators agree with each other on two values. -/
structure Consistent (lib : Lib F) (l r : Value F) : Prop where
  one : [compareOp lib l r .lt, compareOp lib l r .eq, compareOp lib l r .gt].count true = 1
  le : compareOp lib l r .le = (compareOp lib l r .lt || compareOp lib l r .eq)
  ge : compareOp lib l r .ge = (compareOp lib l r .gt || compareOp lib l r .eq)
  ltgt : compareOp lib l r .ltgt = !compareOp lib l r .eq
  bangEq : compareOp lib l r .bangEq = !compareOp lib l r .eq

/-- The operators agree exactly when equality is what the order says. -/
theorem consistent_iff {l r : Value F} :
    Consistent lib l r ↔ (valuesEqual lib l r = true ↔ order lib l r = .eq) := by
  constructor
  · intro h
    have one := h.one
    simp only [compareOp] at one
    revert one
    cases valuesEqual lib l r <;> cases order lib l r <;> decide
  · intro h
    refine ⟨?_, ?_, ?_, by simp only [compareOp], by simp only [compareOp]⟩
    all_goals
      simp only [compareOp]
      revert h
      cases valuesEqual lib l r <;> cases order lib l r <;> decide

theorem order_num {l r : Value F} {f g : F} (left : asFloat lib l = some f)
    (right : asFloat lib r = some g) :
    order lib l r = if lib.less f g then .lt else if lib.less g f then .gt else .eq := by
  rw [order, left, right]

theorem valuesEqual_num {l r : Value F} {f g : F} (left : asFloat lib l = some f)
    (right : asFloat lib r = some g) : valuesEqual lib l r = lib.equal f g := by
  unfold valuesEqual
  split
  · cases left
  · rw [left, right]

/-- Without two numbers, texts are compared. -/
theorem order_text {l r : Value F} (none_ : asFloat lib l = none ∨ asFloat lib r = none) :
    order lib l r = .eq ↔ asString lib l = asString lib r := by
  have texts : order lib l r =
      if asString lib l < asString lib r then .lt
      else if asString lib r < asString lib l then .gt else .eq := by
    rw [order]
    split
    · rename_i left right
      rw [left, right] at none_
      simp at none_
    · rfl
  rw [texts]
  constructor
  · intro same
    split at same
    · cases same
    · split at same
      · cases same
      · rename_i notLess notMore
        exact List.le_antisymm notMore notLess
  · intro same
    rw [same, if_neg (List.lt_irrefl _), if_neg (List.lt_irrefl _)]

theorem valuesEqual_text {l r : Value F} (none_ : asFloat lib l = none ∨ asFloat lib r = none) :
    valuesEqual lib l r = true ↔ asString lib l = asString lib r := by
  unfold valuesEqual
  split
  · rename_i lb rb
    cases lb <;> cases rb <;> simp [asString] <;> decide
  · split
    · rename_i left right
      rw [left, right] at none_
      simp at none_
    · exact beq_iff_eq

/-- Two values are compared consistently exactly when not both are read as numbers, or both of these
have a place in the order. -/
theorem comparisons_consistent_iff [LinearOrder O] (ieee : Ieee lib O) (l r : Value F) :
    Consistent lib l r ↔ ∀ f g, asFloat lib l = some f → asFloat lib r = some g →
      (ieee.value f).isSome = true ∧ (ieee.value g).isSome = true := by
  rw [consistent_iff]
  cases left : asFloat lib l with
  | none => simp [order_text (.inl left), valuesEqual_text (.inl left)]
  | some f =>
    cases right : asFloat lib r with
    | none => simp [order_text (.inr right), valuesEqual_text (.inr right)]
    | some g =>
      have below := ieee.less_iff f g
      have above := ieee.less_iff g f
      have equal := ieee.equal_iff f g
      rw [order_num left right, valuesEqual_num left right]
      cases first : ieee.value f with
      | none => simp_all
      | some x =>
        cases second : ieee.value g with
        | none => simp_all
        | some y =>
          simp only [first, second, Option.some.injEq, exists_eq_left', exists_and_left] at below above equal
          rcases lt_trichotomy x y with lt | rfl | gt
          · simp_all [lt.ne, lt.asymm]
          · simp_all
          · simp_all [gt.ne', gt.asymm]

/-- Whole numbers in their order. -/
def smallIeee : Ieee smallLib Int where
  value := some
  less_iff f g := by simp [smallLib]
  equal_iff f g := by
    rw [show smallLib.equal f g = (f == g) from rfl, beq_iff_eq]
    constructor
    · intro same
      exact ⟨f, g, rfl, rfl, same⟩
    · rintro ⟨x, y, ⟨⟩, ⟨⟩, same⟩
      exact same

theorem whole_numbers_consistent :
    asFloat smallLib (.num 1) = some 1 ∧ asFloat smallLib (.str (Utf8.encode "2")) = some 2 ∧
      Consistent smallLib (.num 1) (.str (Utf8.encode "2")) :=
  ⟨rfl, by decide,
    (comparisons_consistent_iff smallIeee _ _).mpr fun _ _ _ _ => ⟨rfl, rfl⟩⟩

/-- Whole numbers, and one that is not a number. -/
def nanLib : Lib (Option Int) where
  isLetter := smallLib.isLetter
  isDigit := smallLib.isDigit
  quote := smallLib.quote
  parseFloat text :=
    if text = Utf8.encode "nan" then some none else (smallLib.parseFloat text).map some
  formatFloat f := (f.map smallLib.formatFloat).getD (Utf8.encode "NaN")
  less a b := match a, b with
    | some a, some b => a < b
    | _, _ => false
  equal a b := a == b && a.isSome
  zero := some 0
  truncate f := f
  sprint _ := []
  marshal
    | .str s => some s
    | _ => none
  runes := smallLib.runes
  gunzip _ := none
  readJSON _ _ := ([], none)
  marshal_str _ := rfl
  letter_ascii := smallLib.letter_ascii
  digit_ascii := smallLib.digit_ascii
  letter_not_space := smallLib.letter_not_space
  digit_not_space := smallLib.digit_not_space
  letter_not_digit := smallLib.letter_not_digit

/-- The text `nan` against a number: none of the three holds, and both weak comparisons do. -/
theorem nan_unordered :
    [CmpOp.lt, .eq, .gt, .le, .ge, .ltgt].map
        (compareOp nanLib (.str (Utf8.encode "nan")) (.num (some 1))) =
      [false, false, false, true, true, true] := by
  decide

end D9Store.S3Select
