import D9Store.S3Api.CopySource

/-!
Copy sources and request paths.

A copy source is decoded as a query and a request path as a path, so that a plus sign stands for a
blank in the one and for itself in the other. Nothing else tells them apart.
-/

namespace D9Store.CopySource

open Percent

variable {sep : UInt8} {s : Bytes}

theorem cut_of_not_mem (absent : sep ∉ s) : cut sep s = (s, []) := by
  have all : ∀ c ∈ s, (c != sep) = true := fun c mem => bne_iff_ne.mpr fun eq => absent (eq ▸ mem)
  rw [cut, List.span_eq_takeWhile_dropWhile, List.takeWhile_eq_self_iff.mpr all,
    List.dropWhile_eq_nil_iff.mpr all]

theorem cut_append (absent : sep ∉ s) (rest : Bytes) :
    cut sep (s ++ sep :: rest) = (s, sep :: rest) := by
  have all : ∀ c ∈ s, (c != sep) = true := fun c mem => bne_iff_ne.mpr fun eq => absent (eq ▸ mem)
  rw [cut, List.span_eq_takeWhile_dropWhile, List.takeWhile_append_of_pos all,
    List.dropWhile_append_of_pos all, List.takeWhile_cons_of_neg (by simp),
    List.dropWhile_cons_of_neg (by simp), List.append_nil]

/-- A text with a separator is its two sides and the separator. -/
theorem exists_cut (mem : sep ∈ s) :
    ∃ before after, s = before ++ sep :: after ∧ cut sep s = (before, sep :: after) := by
  obtain ⟨before, after, shape, absent⟩ := List.eq_append_cons_of_mem mem
  exact ⟨before, after, shape, by rw [shape, cut_append absent]⟩

/-- The version that was encoded into a query. -/
theorem versionOf_queryEscape (v : Bytes) : versionOf (versionId ++ 61 :: queryEscape v) = v := by
  have clean : ∀ c ∈ versionId ++ 61 :: queryEscape v, c ≠ 38 ∧ c ≠ 59 := by
    intro c mem
    rcases List.mem_append.mp mem with name | mem
    · exact (show ∀ c ∈ versionId, c ≠ 38 ∧ c ≠ 59 by decide +kernel) c name
    rcases List.mem_cons.mp mem with rfl | mem
    · decide
    · have := clean_queryEscape mem
      simp only [List.mem_cons, not_or] at this
      exact ⟨this.1, this.2.1⟩
  have one : (versionId ++ 61 :: queryEscape v).splitOn 38 = [versionId ++ 61 :: queryEscape v] :=
    List.splitOnP_eq_singleton fun c mem => by simpa using (clean c mem).1
  have pair : parsePair (versionId ++ 61 :: queryEscape v) = some (versionId, v) := by
    rw [parsePair, if_neg fun mem => (clean 59 mem).2 rfl, cut_append (by decide +kernel)]
    simp only [List.drop_one, List.tail_cons, unescape_queryEscape,
      show unescape true versionId = some versionId by decide +kernel]
    rfl
  have parsed : parseQuery (versionId ++ 61 :: queryEscape v) = some [(versionId, v)] := by
    rw [parseQuery, one, List.filter_cons_of_pos (by simp), List.filter_nil, List.mapM_cons, pair]
    rfl
  rw [versionOf, parsed]
  simp

/-- A source is what its decoded path is cut into. -/
theorem parseCopySource_eq {src path query tail decoded : Bytes} (parts : cut 63 src = (path, query))
    (trimmed : trimSlash path = tail) (decodes : unescape true tail = some decoded)
    (slash : 47 ∈ decoded) :
    parseCopySource src = some ((cut 47 decoded).1, (cut 47 decoded).2.drop 1,
      if query = [] then [] else versionOf (query.drop 1)) := by
  obtain ⟨bucket, key, -, here⟩ := exists_cut slash
  simp [parseCopySource, parts, trimmed, decodes, here]

/-- The source returns what a request for the path uses, with and without the leading slash and with
any version. -/
def Agrees (p : Bytes) : Prop :=
  ∀ src ∈ [p, p.drop 1],
    parseCopySource src = (requested p).map (fun t => (t.1, t.2, [])) ∧
      ∀ v, parseCopySource (src ++ 63 :: (versionId ++ 61 :: queryEscape v)) =
        (requested p).map fun t => (t.1, t.2, v)

/-- The path of an object agrees with its copy source exactly when it has no plus sign. -/
theorem copy_source_agrees_iff {b k : Bytes} (named : b ≠ []) (noSlash : 47 ∉ b) (noQuery : 63 ∉ b ++ k)
    (encoded : (unescape false (47 :: (b ++ 47 :: k))).isSome = true) :
    Agrees (47 :: (b ++ 47 :: k)) ↔ 43 ∉ 47 :: (b ++ 47 :: k) := by
  set tail := b ++ 47 :: k with shape
  have noQuery' : 63 ∉ tail := by
    rw [shape]
    simpa using noQuery
  obtain ⟨d, path⟩ : ∃ d, unescape false tail = some d := by
    rw [unescape_plain (by decide), Option.isSome_map] at encoded
    exact Option.isSome_iff_exists.mp encoded
  obtain ⟨q, query⟩ : ∃ q, unescape true tail = some q := exists_unescape tail path
  have slash {mode : Bool} {d : Bytes} (decoded : unescape mode tail = some d) : 47 ∈ d :=
    mem_unescape (by decide) (by decide) tail decoded (by cases mode <;> rfl) (by simp [shape])
  have target : requested (47 :: tail) = some ((cut 47 d).1, (cut 47 d).2.drop 1) := by
    rw [requested, unescape_plain (by decide), path]
    rfl
  have first : tail.head? ≠ some 47 := by
    obtain ⟨c, b', rfl⟩ := List.exists_cons_of_ne_nil named
    intro eq
    cases eq
    exact noSlash List.mem_cons_self
  have trims : ∀ src ∈ [47 :: tail, (47 :: tail).drop 1], trimSlash src = tail ∧ 63 ∉ src := by
    intro src mem
    fin_cases mem
    · exact ⟨rfl, by simpa using noQuery'⟩
    · exact ⟨if_neg first, noQuery'⟩
  have source : ∀ src ∈ [47 :: tail, (47 :: tail).drop 1],
      parseCopySource src = some ((cut 47 q).1, (cut 47 q).2.drop 1, []) ∧
        ∀ v, parseCopySource (src ++ 63 :: (versionId ++ 61 :: queryEscape v)) =
          some ((cut 47 q).1, (cut 47 q).2.drop 1, v) := by
    intro src mem
    obtain ⟨trimmed, absent⟩ := trims src mem
    refine ⟨parseCopySource_eq (cut_of_not_mem absent) trimmed query (slash query), fun v => ?_⟩
    rw [parseCopySource_eq (cut_append absent _) trimmed query (slash query), if_neg (by simp)]
    simp [versionOf_queryEscape]
  rw [List.mem_cons, not_or, ← unescape_eq_iff tail path, query, Option.some.injEq]
  constructor
  · intro agrees
    have same := (source _ List.mem_cons_self).1.symm.trans (agrees _ List.mem_cons_self).1
    rw [target] at same
    obtain ⟨bucket, key, eq, here⟩ := exists_cut (slash query)
    obtain ⟨bucket', key', eq', here'⟩ := exists_cut (slash path)
    simp only [here, here', Option.map_some, Option.some.injEq, Prod.mk.injEq, List.drop_one,
      List.tail_cons, and_true] at same
    exact ⟨by decide, by rw [eq, eq', same.1, same.2]⟩
  · rintro ⟨-, rfl⟩ src mem
    obtain ⟨bare, versioned⟩ := source src mem
    rw [target]
    exact ⟨bare, versioned⟩

/-- A key with a blank, encoded as `%20`. -/
theorem encoded_blank_agrees :
    Agrees (Utf8.encode "/b/a%20c") := by
  refine (copy_source_agrees_iff (b := Utf8.encode "b") (k := Utf8.encode "a%20c") ?_ ?_ ?_ ?_).mpr ?_ <;>
    decide +kernel

/-- A plus sign: the request reads the key `a+c`, the copy the key `a c`. -/
theorem plus_read_as_blank :
    requested (Utf8.encode "/b/a+c") = some (Utf8.encode "b", Utf8.encode "a+c") ∧
      parseCopySource (Utf8.encode "/b/a+c") = some (Utf8.encode "b", Utf8.encode "a c", []) := by
  decide +kernel

end D9Store.CopySource
