import D9Store.Runs
import D9Store.S3Api.Server
import D9Store.Text

/-!
Preflight requests.

A rule is selected by its origins and its methods. Its headers are not looked at, a request without a
method passes for one that is allowed, and the two sides of a star may overlap in the origin. Otherwise
the rule that answers is the first one that grants what is asked for.
-/

namespace D9Store

open Posix Text

namespace Server

variable {sv : Server} {r : HTTPRequest} {rule : CORSRule}

/-! ### What a rule grants -/

/-- A pattern is the text, or has a star for a part of it. -/
def StarCovers (pattern s : List Char) : Prop :=
  pattern = s ∨ ∃ before run after, '*' ∉ before ∧ pattern = before ++ '*' :: after ∧
    s = before ++ run ++ after

/-- The names in `Access-Control-Request-Headers`. -/
def requestedHeaders (r : HTTPRequest) : List String :=
  ((split (r.headers.get "Access-Control-Request-Headers") ',').map trimSpace).filter (· ≠ "")

/-- The rule allows the origin, the method and every header of the request. -/
structure Grants (sv : Server) (r : HTTPRequest) (rule : CORSRule) : Prop where
  origin : ∃ a ∈ rule.allowedOrigins, StarCovers a.toList (r.headers.get "Origin").toList
  method : ∃ m ∈ rule.allowedMethods,
    equalFold m (r.headers.get "Access-Control-Request-Method") = true
  headers : ∀ name ∈ requestedHeaders r, ∃ a ∈ rule.allowedHeaders,
    StarCovers (sv.lower a).toList (sv.lower name).toList

/-- What `matchCORS` asks of a rule. -/
def passes (r : HTTPRequest) (rule : CORSRule) : Bool :=
  originMatches rule.allowedOrigins (r.headers.get "Origin") &&
    (r.headers.get "Access-Control-Request-Method" == "" || rule.allowedMethods.any fun m =>
      equalFold m (r.headers.get "Access-Control-Request-Method"))

/-- What the check leaves out: a method is given, the sides of the star do not overlap in the origin,
and every header is allowed. -/
structure Complete (sv : Server) (r : HTTPRequest) (rule : CORSRule) : Prop where
  method : r.headers.get "Access-Control-Request-Method" ≠ "" ∨ "" ∈ rule.allowedMethods
  apart : ∃ a ∈ rule.allowedOrigins, a = r.headers.get "Origin" ∨
    ∃ before after, '*' ∉ before ∧ a.toList = before ++ '*' :: after ∧
      before <+: (r.headers.get "Origin").toList ∧ after <:+ (r.headers.get "Origin").toList ∧
      before.length + after.length ≤ (r.headers.get "Origin").toList.length
  headers : ∀ name ∈ requestedHeaders r, ∃ a ∈ rule.allowedHeaders,
    StarCovers (sv.lower a).toList (sv.lower name).toList

/-- The rule is the first of the list that is `good`. -/
def FirstSuch (good : CORSRule → Prop) (rules : List CORSRule) (rule : CORSRule) : Prop :=
  ∃ before after, rules = before ++ rule :: after ∧ good rule ∧ ∀ x ∈ before, ¬ good x

theorem originMatches_of_covers {allowed : List String} {a origin : String} (mem : a ∈ allowed)
    (covers : StarCovers a.toList origin.toList) : originMatches allowed origin = true := by
  refine List.any_eq_true.mpr ⟨a, mem, ?_⟩
  rcases covers with same | ⟨before, run, after, plain, pattern, text⟩
  · simp [String.toList_injective same]
  · have all : ∀ c ∈ before, (c != '*') = true := fun c mem => bne_iff_ne.mpr fun eq => plain (eq ▸ mem)
    have cut : a.toList.span (· != '*') = (before, '*' :: after) := by
      rw [pattern, List.span_eq_takeWhile_dropWhile, List.takeWhile_append_of_pos all,
        List.dropWhile_append_of_pos all]
      simp
    rw [cut, Bool.or_eq_true]
    refine .inr ?_
    have ending : after <:+ before ++ (run ++ after) :=
      (List.suffix_append run after).trans (List.suffix_append before _)
    simp [text, List.isPrefixOf_iff_prefix, List.isSuffixOf_iff_suffix, ending]

theorem Grants.passes (grants : sv.Grants r rule) : passes r rule = true := by
  obtain ⟨a, mem, covers⟩ := grants.origin
  obtain ⟨m, memM, same⟩ := grants.method
  rw [Server.passes, originMatches_of_covers mem covers, Bool.true_and, Bool.or_eq_true]
  exact .inr (List.any_eq_true.mpr ⟨m, memM, same⟩)

/-- A star has a part of its own where its sides do not overlap. -/
theorem starCovers_iff {pattern s : List Char} :
    StarCovers pattern s ↔ pattern = s ∨ ∃ before after, '*' ∉ before ∧
      pattern = before ++ '*' :: after ∧ before <+: s ∧ after <:+ s ∧
      before.length + after.length ≤ s.length := by
  refine or_congr_right ⟨?_, ?_⟩
  · rintro ⟨before, run, after, plain, shape, rfl⟩
    refine ⟨before, after, plain, shape, ⟨run ++ after, by simp⟩, List.suffix_append _ _, ?_⟩
    simp only [List.length_append]
    omega
  · rintro ⟨before, after, plain, shape, ⟨rest, rfl⟩, ending, short⟩
    have own : after <:+ rest := by
      refine List.suffix_of_suffix_length_le ending (List.suffix_append before rest) ?_
      rw [List.length_append] at short
      omega
    obtain ⟨run, rfl⟩ := own
    exact ⟨before, run, after, plain, shape, by simp⟩

theorem equalFold_empty {m : String} (h : equalFold m "" = true) : m = "" := by
  have none : m.toList.map foldRune = [] := beq_iff_eq.mp h
  exact String.toList_injective (List.map_eq_nil_iff.mp none)

theorem grants_iff (selected : passes r rule = true) : sv.Grants r rule ↔ sv.Complete r rule := by
  constructor
  · rintro ⟨⟨a, mem, covers⟩, ⟨m, memM, same⟩, headers⟩
    refine ⟨?_, ⟨a, mem, (starCovers_iff.mp covers).imp_left fun eq => String.toList_injective eq⟩,
      headers⟩
    by_contra neither
    obtain ⟨absent, other⟩ := not_or.mp neither
    rw [not_not.mp absent] at same
    exact other (equalFold_empty same ▸ memM)
  · rintro ⟨method, ⟨a, mem, covers⟩, headers⟩
    refine ⟨⟨a, mem, starCovers_iff.mpr (covers.imp_left (congrArg String.toList))⟩, ?_, headers⟩
    have asked := (Bool.and_eq_true_iff.mp selected).2
    by_cases absent : r.headers.get "Access-Control-Request-Method" = ""
    · rw [absent]
      exact ⟨"", method.resolve_left (not_not.mpr absent), rfl⟩
    · rw [beq_eq_false_iff_ne.mpr absent, Bool.false_or] at asked
      exact List.any_eq_true.mp asked

theorem matchCORS_eq_some_iff {rules : List CORSRule} :
    matchCORS rules (r.headers.get "Origin") (r.headers.get "Access-Control-Request-Method") =
      some rule ↔ FirstSuch (fun x => passes r x = true) rules rule := by
  rw [show matchCORS rules (r.headers.get "Origin")
    (r.headers.get "Access-Control-Request-Method") = rules.find? (passes r) from rfl,
    List.find?_eq_some_iff_append]
  simp only [FirstSuch, Bool.not_eq_true, Bool.not_eq_true']
  constructor
  · rintro ⟨good, before, after, shape, none_⟩
    exact ⟨before, after, shape, good, none_⟩
  · rintro ⟨before, after, shape, good, none_⟩
    exact ⟨good, before, after, shape, none_⟩

/-! ### The answer -/

/-- A preflight request is answered from a rule exactly when it names a bucket and an origin and the
rule is selected. -/
theorem preflight_iff {s : Session} :
    outcome (sv.handleCORSPreflight r) s = .ok (.preflight rule) ↔
      (splitPath r.path).1 ≠ "" ∧ r.headers.get "Origin" ≠ "" ∧
        ∃ bm, sv.e.getBucketMeta s.backend.disk (splitPath r.path).1 = .ok bm ∧
          FirstSuch (fun x => passes r x = true) bm.cors rule := by
  simp only [← matchCORS_eq_some_iff]
  unfold handleCORSPreflight outcome
  dsimp only
  by_cases absent : (splitPath r.path).1 = "" ∨ r.headers.get "Origin" = ""
  · rw [if_pos absent]
    constructor
    · intro eq
      cases eq
    · rintro ⟨bucket, origin, -⟩
      exact absurd absent (not_or.mpr ⟨bucket, origin⟩)
  · obtain ⟨bucket, origin⟩ := not_or.mp absent
    rw [if_neg absent, bind_apply, attempt, Api.ask, reading]
    cases found : sv.e.getBucketMeta s.backend.disk (splitPath r.path).1 with
    | error err => simp [bucket, origin]
    | ok bm =>
      simp only [bucket, origin, ne_eq, not_false_eq_true, true_and, Except.ok.injEq, exists_eq_left']
      cases matchCORS bm.cors (r.headers.get "Origin")
        (r.headers.get "Access-Control-Request-Method") <;> simp

/-- The answer to a preflight request is that of the first rule that grants it exactly when the check
of the first rule that is selected leaves nothing out. -/
theorem preflight_granted_iff (sv : Server) (r : HTTPRequest) (s : Session) :
    (∀ rule, outcome (sv.handleCORSPreflight r) s = .ok (.preflight rule) →
        ∃ bm, sv.e.getBucketMeta s.backend.disk (splitPath r.path).1 = .ok bm ∧
          FirstSuch (sv.Grants r) bm.cors rule) ↔
      ((splitPath r.path).1 ≠ "" → r.headers.get "Origin" ≠ "" → ∀ bm rule,
        sv.e.getBucketMeta s.backend.disk (splitPath r.path).1 = .ok bm →
        FirstSuch (fun x => passes r x = true) bm.cors rule → sv.Complete r rule) := by
  simp only [preflight_iff]
  constructor
  · intro granted bucket origin bm rule found first
    obtain ⟨-, -, before, after, -, grants, -⟩ := granted rule ⟨bucket, origin, bm, found, first⟩
    obtain ⟨-, -, -, selected, -⟩ := first
    exact (grants_iff selected).mp grants
  · rintro granted rule ⟨bucket, origin, bm, found, first⟩
    have complete := granted bucket origin bm rule found first
    obtain ⟨before, after, shape, selected, none_⟩ := first
    exact ⟨bm, found, before, after, shape, (grants_iff selected).mpr complete,
      fun x mem h => none_ x mem h.passes⟩

/-- A disk with a bucket that has these rules. -/
def corsDisk (rules : List CORSRule) : Disk :=
  final ((smallEnv false).writeJSON ((smallEnv false).bucketMetaPath "b")
    (.bucketMeta { name := "b", cors := rules })) (smallDisk false)

/-- A rule without headers answers a request for one. -/
theorem ungranted_header_answered :
    let rule : CORSRule := { allowedOrigins := ["*"], allowedMethods := ["GET"] }
    let r : HTTPRequest :=
      { method := .options, path := "/b/k"
        headers := [("Origin", ["o"]), ("Access-Control-Request-Method", ["GET"]),
          ("Access-Control-Request-Headers", ["x-secret"])] }
    outcome ((smallServer (smallEnv false)).handleCORSPreflight r)
        { backend := { disk := corsDisk [rule] } } = .ok (.preflight rule) ∧
      ¬ (smallServer (smallEnv false)).Grants r rule := by
  intro rule r
  constructor
  · rw [preflight_iff]
    refine ⟨by decide +kernel, by decide +kernel, { name := "b", cors := [rule] }, by decide +kernel, [], [],
      rfl, by decide +kernel, nofun⟩
  · intro grants
    obtain ⟨a, mem, -⟩ := grants.headers "x-secret" (by decide +kernel)
    cases mem

end Server

end D9Store
