import D9Store.Authz.Policy
import D9Store.Text.Wildcard

/-!
The expressions that policy patterns are compiled to (`compileGlob` in `internal/authz/authz.go`).

`wildcardMatch` and `wildcardMatchFold` are given as functions on the pattern; here they are what the
compiled expression accepts.
-/

namespace D9Store

open Text Regexp

/-- The wildcards of policies. -/
def globAlphabet : Wildcard.Alphabet where
  many := '*'
  single := '?'
  distinct := by decide
  many_ne := by decide
  single_ne := by decide

/-- `compileGlob`, as the text of the expression. -/
def compileGlob (pattern : String) (fold : Bool) : List Char :=
  (if fold then "(?i)".toList else []) ++ Wildcard.expression globAlphabet pattern.toList

def sameRune (fold : Bool) (p c : Char) : Bool := if fold then foldRune p == foldRune c else p == c

/-- `MatchString` of the expression with a text; `none` when the text is no expression. -/
def matchExpression (text : List Char) (s : String) : Option Bool :=
  (Regexp.compile text).map fun x => matchString (sameRune x.1) x.2 s.toList

theorem runs_eq_stars {ok : Char → Bool} {rest : Bool → List Char → Bool} {rest' : List Char → Bool}
    (dots : ∀ c, ok c = (c != '\n')) (same : ∀ first s, rest first s = rest' s) (first : Bool)
    (s : List Char) : runs ok rest first s = glob.stars rest' s := by
  induction s generalizing first with
  | nil => exact same first []
  | cons c s ih => rw [runs, glob.stars, same, dots, ih]

/-- The items of a pattern match what the pattern matches. -/
theorem matchHere_eq_glob (same : Char → Char → Bool) (pattern : List Char) (first : Bool)
    (s : List Char) :
    matchHere same (pattern.map (Wildcard.item globAlphabet) ++ [.stop]) first s =
      glob same pattern s := by
  induction pattern generalizing first s with
  | nil => exact Bool.and_true _
  | cons p pattern ih =>
    rw [List.map_cons, List.cons_append, Wildcard.item, glob.eq_def]
    by_cases many : p = '*'
    · subst many
      exact runs_eq_stars (fun _ => rfl) ih first s
    have notMany : p ≠ globAlphabet.many := many
    by_cases single : p = '?'
    · subst single
      cases s with
      | nil => rfl
      | cons c s => exact congrArg (_ && ·) (ih false s)
    · have notSingle : p ≠ globAlphabet.single := single
      rw [if_neg notMany, if_neg notSingle]
      simp only [if_neg many, if_neg single]
      cases s with
      | nil => rfl
      | cons c s => exact congrArg (_ && ·) (ih false s)

theorem matchExpression_compileGlob (pattern s : String) (fold : Bool) :
    matchExpression (compileGlob pattern fold) s =
      some (glob (sameRune fold) pattern.toList s.toList) := by
  have parsed := Wildcard.parse_expression (a := globAlphabet) pattern.toList
  have compiled : Regexp.compile (compileGlob pattern fold) =
      some (fold, .start :: pattern.toList.map (Wildcard.item globAlphabet) ++ [.stop]) := by
    cases fold with
    | false =>
      exact congrArg (Option.map fun items => (false, items)) parsed
    | true => exact congrArg (Option.map fun items => (true, items)) parsed
  rw [matchExpression, compiled, Option.map_some, List.cons_append, matchString_start,
    matchHere_eq_glob]

/-- `wildcardMatch` is the match of the compiled pattern. -/
theorem wildcardMatch_compiled (pattern s : String) :
    matchExpression (compileGlob pattern false) s = some (wildcardMatch pattern s) :=
  matchExpression_compileGlob pattern s false

theorem wildcardMatchFold_compiled (pattern s : String) :
    matchExpression (compileGlob pattern true) s = some (wildcardMatchFold pattern s) :=
  matchExpression_compileGlob pattern s true

end D9Store
