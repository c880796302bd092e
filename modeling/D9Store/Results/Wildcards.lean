import D9Store.Authz.Glob
import D9Store.Text.Trim

/-!
Policy patterns as globs.

The expression of a pattern is anchored and its characters are quoted, but its dots do not stand for
line breaks. A text with more line breaks than the pattern is therefore never matched, and a statement
about all keys of a bucket passes over the keys that contain one.
-/

namespace D9Store

open Text Regexp

/-- The texts that a glob describes. -/
def GlobCovers (pattern s : String) : Prop :=
  Wildcard.Covers globAlphabet pattern.toList s.toList

def lineBreaks (s : String) : Nat := s.toList.count '\n'

theorem wildcardMatch_iff (pattern s : String) :
    wildcardMatch pattern s = true ↔ GlobCovers pattern s ∧ lineBreaks s = lineBreaks pattern := by
  rw [wildcardMatch, ← matchHere_eq_glob _ _ true]
  exact Wildcard.matchHere_iff

/-- The keys of a bucket are all described by its star pattern. -/
theorem globCovers_keys (bucket key : String) :
    GlobCovers (bucket ++ "/*") (bucket ++ "/" ++ key) := by
  have tail : Wildcard.Covers globAlphabet ['*'] key.toList := by
    have := Wildcard.Covers.many (a := globAlphabet) key.toList .nil
    rwa [List.append_nil] at this
  have slash := (Wildcard.Covers.refl (a := globAlphabet) ['/']).append tail
  have whole := (Wildcard.Covers.refl (a := globAlphabet) bucket.toList).append slash
  simpa [GlobCovers, String.toList_append] using whole

theorem wildcardMatch_keys (bucket key : String) :
    wildcardMatch (bucket ++ "/*") (bucket ++ "/" ++ key) = true ↔ '\n' ∉ key.toList := by
  have count : lineBreaks (bucket ++ "/" ++ key) = lineBreaks (bucket ++ "/*") + lineBreaks key := by
    simp [lineBreaks, String.toList_append, List.count_append]
  rw [wildcardMatch_iff, and_iff_right (globCovers_keys bucket key), count, Nat.add_eq_left,
    lineBreaks, List.count_eq_zero]

/-- A resource for all keys of a bucket, as a policy names it. -/
theorem matchResource_keys (req : PolicyRequest) (named : req.key ≠ "") :
    matchResource (some (.str (arnPrefix ++ (req.bucket ++ "/*")))) req =
      wildcardMatch (req.bucket ++ "/*") (req.bucket ++ "/" ++ req.key) := by
  have shape : (arnPrefix ++ (req.bucket ++ "/*")).toList =
      'a' :: ("rn:aws:s3:::".toList ++ (req.bucket.toList ++ ['/'])) ++ ['*'] := by
    simp [arnPrefix, String.toList_append]
  have trimmed : trimSpace (arnPrefix ++ (req.bucket ++ "/*")) = arnPrefix ++ (req.bucket ++ "/*") :=
    trimSpace_of_ends shape (by decide) (by decide)
  have notStar : arnPrefix ++ (req.bucket ++ "/*") ≠ "*" := by
    intro star
    rw [star] at shape
    exact absurd (List.cons.inj shape).1 (by decide)
  have decoded : decodeStringOrSlice (some (.str (arnPrefix ++ (req.bucket ++ "/*")))) =
      some [arnPrefix ++ (req.bucket ++ "/*")] := rfl
  rw [matchResource, decoded]
  simp only [named, ne_eq, not_false_eq_true, if_true, List.any_cons, List.any_nil, Bool.or_false,
    trimmed, trimPrefix_append, beq_eq_false_iff_ne.mpr notStar, Bool.false_or]

/-- A pattern follows the semantics of globs on exactly those texts that it does not describe, or
that have as many line breaks as it has. -/
theorem wildcard_follows_glob_iff (pattern s : String) (req : PolicyRequest) (named : req.key ≠ "") :
    ((wildcardMatch pattern s = true ↔ GlobCovers pattern s) ↔
        (GlobCovers pattern s → lineBreaks s = lineBreaks pattern)) ∧
      (matchResource (some (.str (arnPrefix ++ (req.bucket ++ "/*")))) req = true ↔
        '\n' ∉ req.key.toList) := by
  constructor
  · rw [wildcardMatch_iff]
    exact ⟨fun same covers => (same.mpr covers).2, fun equal =>
      ⟨And.left, fun covers => ⟨covers, equal covers⟩⟩⟩
  · rw [matchResource_keys req named, wildcardMatch_keys]

/-- Without line breaks the two agree, and the star pattern of a bucket matches its keys. -/
theorem plain_key_covered :
    wildcardMatch "b/*" "b/k" = true ∧ GlobCovers "b/*" "b/k" ∧
      matchResource (some (.str "arn:aws:s3:::b/*"))
        { principal := "", isAuthenticated := false, action := "s3:GetObject", bucket := "b",
          key := "k", sourceIP := "" } = true := by
  let req : PolicyRequest :=
    { principal := "", isAuthenticated := false, action := "s3:GetObject", bucket := "b", key := "k",
      sourceIP := "" }
  have covers : GlobCovers "b/*" "b/k" := globCovers_keys "b" "k"
  have both := wildcard_follows_glob_iff "b/*" "b/k" req (by decide)
  exact ⟨(both.1.mpr fun _ => by decide).mpr covers, covers, both.2.mpr (by decide)⟩

/-- A key that contains a line break is one of the bucket's, and the pattern passes over it. -/
theorem line_break_not_covered :
    wildcardMatch "b/*" "b/\n" = false ∧ GlobCovers "b/*" "b/\n" ∧
      matchResource (some (.str "arn:aws:s3:::b/*"))
        { principal := "", isAuthenticated := false, action := "s3:GetObject", bucket := "b",
          key := "\n", sourceIP := "" } = false :=
  ⟨by decide, globCovers_keys "b" "\n", by decide⟩

end D9Store
