import D9Store.Results.SelectParser

/-!
The rows of a query.

A query is meant to write the rows of the first records that satisfy its condition, as many as its
limit allows, and a count one row with the number of all of them. The limit is checked before a record
is counted, so a count stops there too; and a row of a value that has no JSON text ends the query.
-/

namespace D9Store.S3Select

open Text Descent Posix

variable {F α : Type} {lib : Lib F} {out : Output} {q : Query F} {records : List (Record F)}
    {rec_ : Record F} {st : Progress} {limit : Int} {taken : Nat} {last : Option ExecErr}

/-! ### The reference -/

/-- The record satisfies the condition of the query. -/
def satisfies (lib : Lib F) (q : Query F) (rec_ : Record F) : Bool :=
  match passes lib q rec_ with
  | .ok b => b
  | .error _ => false

/-- As many as a limit allows after `taken`. -/
def limited {α : Type} (limit : Int) (taken : Nat) (l : List α) : List α :=
  if limit < 0 then l else l.take (limit.toNat - taken)

/-- What the query is meant to write. -/
def reference (lib : Lib F) (out : Output) (q : Query F) (records : List (Record F)) :
    Except ExecErr Bytes :=
  let hits := records.filter (satisfies lib q)
  if q.proj.countStar then .ok (writeCount out hits.length)
  else ((limited q.limit 0 hits).mapM (writeRow lib out q)).map List.flatten

/-- Every value of the row has a text. -/
def Writable (lib : Lib F) (out : Output) (q : Query F) (rec_ : Record F) : Prop :=
  outFormat out = "JSON" →
    if q.proj.star then ∀ v, rec_ = .json v → (lib.marshal v).isSome = true
    else ∀ item ∈ q.proj.items, ∀ e v, item.expr = some e → e.eval lib rec_ q.alias_ = some v →
      (lib.marshal v).isSome = true

/-! ### One record -/

theorem passes_eq (rec_ : Record F) : passes lib q rec_ = .ok (satisfies lib q rec_) := by
  obtain ⟨b, passed⟩ := passes_ok lib q rec_
  rw [satisfies, passed]

/-- A record that does not satisfy the condition changes nothing. -/
theorem handle_miss (miss : satisfies lib q rec_ = false) (st : Progress) :
    handle lib out q st rec_ = .ok st := by
  rw [handle, passes_eq, miss, except_ok_bind]
  rfl

theorem handle_full (hit : satisfies lib q rec_ = true) (full : 0 ≤ q.limit ∧ q.limit ≤ st.matched) :
    handle lib out q st rec_ = .error .limitReached := by
  rw [handle, passes_eq, hit, except_ok_bind]
  exact if_pos full

theorem handle_count (hit : satisfies lib q rec_ = true)
    (room : ¬ (0 ≤ q.limit ∧ q.limit ≤ st.matched)) (count : q.proj.countStar = true) :
    handle lib out q st rec_ =
      .ok { st with matched := st.matched + 1, count := st.count + 1 } := by
  rw [handle, passes_eq, hit, except_ok_bind]
  exact (if_neg room).trans (if_pos count)

theorem handle_row (hit : satisfies lib q rec_ = true)
    (room : ¬ (0 ≤ q.limit ∧ q.limit ≤ st.matched)) (rows : q.proj.countStar = false) :
    handle lib out q st rec_ =
      (writeRow lib out q rec_).map fun row =>
        { st with matched := st.matched + 1, body := st.body ++ row } := by
  rw [handle, passes_eq, hit, except_ok_bind]
  refine (if_neg room).trans ((if_neg (by rw [rows]; exact Bool.false_ne_true)).trans ?_)
  cases writeRow lib out q rec_ <;> rfl

/-! ### All records -/

theorem limited_full (full : 0 ≤ limit ∧ limit ≤ taken) (l : List α) :
    limited limit taken l = [] := by
  rw [limited, if_neg (by omega), show limit.toNat - taken = 0 by omega, List.take_zero]

theorem limited_cons (room : ¬ (0 ≤ limit ∧ limit ≤ taken)) (a : α) (l : List α) :
    limited limit taken (a :: l) = a :: limited limit (taken + 1) l := by
  unfold limited
  split
  · rfl
  · rw [show limit.toNat - taken = limit.toNat - (taken + 1) + 1 by omega, List.take_succ_cons]

/-- A reader that ends without an error, or at the limit, has done its work. -/
def Done (end_ : Option ExecErr) : Prop := end_ = none ∨ end_ = some .limitReached

/-- A count takes as many of the records that satisfy the condition as the limit allows. -/
theorem deliver_count (lib : Lib F) (out : Output) (count : q.proj.countStar = true)
    (records : List (Record F)) (st : Progress) :
    Done (deliver lib out q none records st).2 ∧
      (deliver lib out q none records st).1.body = st.body ∧
      (deliver lib out q none records st).1.count = st.count +
        (limited q.limit st.matched (records.filter (satisfies lib q))).length := by
  induction records generalizing st with
  | nil =>
    refine ⟨.inl rfl, rfl, ?_⟩
    simp [deliver, limited]
  | cons rec_ rest ih =>
    rw [deliver]
    by_cases hit : satisfies lib q rec_ = true
    · rw [List.filter_cons_of_pos hit]
      by_cases full : 0 ≤ q.limit ∧ q.limit ≤ st.matched
      · rw [handle_full hit full, limited_full full]
        exact ⟨.inr rfl, rfl, rfl⟩
      · rw [handle_count hit full count, limited_cons full]
        obtain ⟨done, body, total⟩ := ih { st with matched := st.matched + 1, count := st.count + 1 }
        refine ⟨done, body, total.trans ?_⟩
        rw [List.length_cons]
        dsimp only
        omega
    · rw [Bool.not_eq_true] at hit
      rw [List.filter_cons_of_neg (by rw [hit]; exact Bool.false_ne_true), handle_miss hit]
      exact ih st

/-- Without a count, the rows are those of the records that satisfy the condition, as many as the limit
allows, up to the first that cannot be written. -/
theorem deliver_rows (lib : Lib F) (out : Output) (rows : q.proj.countStar = false)
    (records : List (Record F)) (st : Progress) :
    match (limited q.limit st.matched (records.filter (satisfies lib q))).mapM (writeRow lib out q) with
    | .ok texts =>
      Done (deliver lib out q none records st).2 ∧
        (deliver lib out q none records st).1.body = st.body ++ texts.flatten
    | .error err =>
      (deliver lib out q none records st).2 = some err ∧ err ≠ .limitReached := by
  induction records generalizing st with
  | nil =>
    have empty : limited q.limit st.matched (([] : List (Record F)).filter (satisfies lib q)) = [] := by
      simp [limited]
    rw [empty]
    exact ⟨.inl rfl, (List.append_nil _).symm⟩
  | cons rec_ rest ih =>
    rw [deliver]
    by_cases hit : satisfies lib q rec_ = true
    · rw [List.filter_cons_of_pos hit]
      by_cases full : 0 ≤ q.limit ∧ q.limit ≤ st.matched
      · rw [handle_full hit full, limited_full full]
        exact ⟨.inr rfl, (List.append_nil _).symm⟩
      · rw [handle_row hit full rows, limited_cons full, List.mapM_cons]
        cases row : writeRow lib out q rec_ with
        | error err =>
          refine ⟨rfl, ?_⟩
          rcases writeRow_error row with ⟨rfl, -⟩ | rfl
          · exact fun h => by cases h
          · exact fun h => by cases h
        | ok text =>
          have next := ih { st with matched := st.matched + 1, body := st.body ++ text }
          dsimp only at next
          rw [except_ok_bind]
          cases more : (limited q.limit (st.matched + 1) (rest.filter (satisfies lib q))).mapM
              (writeRow lib out q) with
          | error err =>
            rw [more] at next
            exact next
          | ok texts =>
            rw [more] at next
            refine ⟨next.1, next.2.trans ?_⟩
            rw [List.append_assoc]
            rfl
    · rw [Bool.not_eq_true] at hit
      rw [List.filter_cons_of_neg (by rw [hit]; exact Bool.false_ne_true), handle_miss hit]
      exact ih st

theorem runQuery_of_done (done : Done (deliver lib out q last records {}).2) :
    runQuery lib out q (records, last) =
      .ok ((deliver lib out q last records {}).1.body ++
        if q.proj.countStar then writeCount out (deliver lib out q last records {}).1.count else []) :=
  if_pos done

theorem runQuery_of_error {err : ExecErr}
    (failed : (deliver lib out q last records {}).2 = some err) (other : err ≠ .limitReached) :
    runQuery lib out q (records, last) = .error err := by
  unfold runQuery
  dsimp only
  rw [failed, if_neg]
  · rfl
  · rintro (none_ | limit)
    · cases none_
    · exact other (Option.some.inj limit)

/-! ### Rows that can be written -/

theorem mapM_ok_of_forall {β ε : Type} {f : α → Except ε β} {l : List α}
    (h : ∀ x ∈ l, ∃ b, f x = .ok b) : ∃ bs, l.mapM f = .ok bs := by
  cases run : l.mapM f with
  | ok bs => exact ⟨bs, rfl⟩
  | error err =>
    obtain ⟨x, mem, failed⟩ := mapM_error run
    obtain ⟨b, ok⟩ := h x mem
    rw [ok] at failed
    cases failed

theorem forall_of_mapM_ok {β ε : Type} {f : α → Except ε β} {l : List α} {bs : List β}
    (h : l.mapM f = .ok bs) : ∀ x ∈ l, ∃ b, f x = .ok b := by
  induction l generalizing bs with
  | nil => exact fun x mem => absurd mem List.not_mem_nil
  | cons a rest ih =>
    rw [List.mapM_cons] at h
    obtain ⟨b, first, h⟩ := except_bind_ok h
    obtain ⟨more, run, -⟩ := except_bind_ok h
    intro x mem
    rcases List.mem_cons.mp mem with rfl | mem
    · exact ⟨b, first⟩
    · exact ih run x mem

theorem jsonItem_ok_iff {item : ProjItem F} {e : ValExpr F} (given : item.expr = some e) :
    (∃ text, jsonItem lib q rec_ item = .ok text) ↔
      ∀ v, e.eval lib rec_ q.alias_ = some v → (lib.marshal v).isSome = true := by
  have found : itemExpr item = .ok e := by rw [itemExpr, given]
  rw [jsonItem, found, except_ok_bind]
  cases value : e.eval lib rec_ q.alias_ with
  | none => exact ⟨fun _ _ => nofun, fun _ => ⟨none, rfl⟩⟩
  | some v =>
    obtain ⟨kb, key⟩ := Option.isSome_iff_exists.mp (lib.marshal_str (Utf8.encode item.name))
    simp only [writeJSONKV, key, Option.some.injEq, forall_eq']
    cases lib.marshal v with
    | none => simp [Except.map]
    | some vb => simp [Except.map]

/-- A row can be written exactly when its values have a text. -/
theorem writeRow_ok_iff (all : ∀ item ∈ q.proj.items, item.expr ≠ none) (rec_ : Record F) :
    (∃ text, writeRow lib out q rec_ = .ok text) ↔ Writable lib out q rec_ := by
  have given (item : ProjItem F) (mem : item ∈ q.proj.items) : ∃ e, item.expr = some e :=
    Option.ne_none_iff_exists'.mp (all item mem)
  unfold writeRow Writable
  by_cases json : outFormat out = "JSON"
  · rw [if_pos json]
    unfold writeJSONRow
    simp only [json, forall_const]
    by_cases star : q.proj.star = true
    · rw [if_pos star, if_pos star]
      cases rec_ with
      | csv fields header => exact ⟨fun _ _ => nofun, fun _ => ⟨_, rfl⟩⟩
      | json v =>
        simp only [Record.json.injEq, forall_eq']
        cases lib.marshal v with
        | none => simp
        | some text => simp
    · rw [if_neg star, if_neg star]
      constructor
      · rintro ⟨text, row⟩ item mem e v expr value
        obtain ⟨members, run, -⟩ := except_bind_ok row
        exact (jsonItem_ok_iff expr).mp (forall_of_mapM_ok run item mem) v value
      · intro texts
        have each (item : ProjItem F) (mem : item ∈ q.proj.items) :
            ∃ text, jsonItem lib q rec_ item = .ok text := by
          obtain ⟨e, expr⟩ := given item mem
          exact (jsonItem_ok_iff expr).mpr fun v => texts item mem e v expr
        obtain ⟨members, run⟩ := mapM_ok_of_forall each
        rw [run, except_ok_bind]
        exact ⟨_, rfl⟩
  · rw [if_neg json]
    unfold writeCSVRow
    refine ⟨fun _ json' => absurd json' json, fun _ => ?_⟩
    by_cases star : q.proj.star = true
    · rw [if_pos star]
      cases rec_ with
      | csv fields header => exact ⟨_, rfl⟩
      | json v => exact ⟨_, rfl⟩
    · rw [if_neg star]
      have each (item : ProjItem F) (mem : item ∈ q.proj.items) :
          ∃ text, csvItem lib q rec_ item = .ok text := by
        obtain ⟨e, expr⟩ := given item mem
        rw [csvItem, itemExpr, expr, except_ok_bind]
        split
        · exact ⟨_, rfl⟩
        · exact ⟨_, rfl⟩
      obtain ⟨fields, run⟩ := mapM_ok_of_forall each
      rw [run, except_ok_bind]
      exact ⟨_, rfl⟩

/-! ### Queries against their reference -/

theorem writeCount_inj (out : Output) {a b : Nat} : writeCount out a = writeCount out b ↔ a = b := by
  constructor
  · intro same
    apply Nat.repr_inj.mp
    apply Utf8.encode_injective
    unfold writeCount at same
    split at same
    · have same := List.append_cancel_right (List.append_cancel_right same)
      exact List.append_cancel_left same
    · exact List.append_cancel_right same
  · rintro rfl
    rfl

theorem length_limited {l : List α} :
    (limited limit 0 l).length = l.length ↔ limit < 0 ∨ (l.length : Int) ≤ limit := by
  unfold limited
  split
  · rename_i negative
    exact ⟨fun _ => .inl negative, fun _ => rfl⟩
  · rw [List.length_take]
    omega

theorem runQuery_count (count : q.proj.countStar = true) :
    runQuery lib out q (records, none) =
      .ok (writeCount out (limited q.limit 0 (records.filter (satisfies lib q))).length) := by
  have run := deliver_count lib out count records {}
  rw [runQuery_of_done run.1, run.2.1, run.2.2, if_pos count]
  simp

theorem runQuery_rows (rows : q.proj.countStar = false) :
    runQuery lib out q (records, none) =
      ((limited q.limit 0 (records.filter (satisfies lib q))).mapM (writeRow lib out q)).map
        List.flatten := by
  have run := deliver_rows lib out rows records {}
  dsimp only at run
  cases texts : (limited q.limit 0 (records.filter (satisfies lib q))).mapM (writeRow lib out q) with
  | ok written =>
    rw [texts] at run
    rw [runQuery_of_done run.1, run.2, rows]
    simp [Except.map]
  | error err =>
    rw [texts] at run
    exact runQuery_of_error run.1 run.2

theorem counted_of_parse {sql : List Char} (accepted : parse lib sql = .ok q) : Counted q.proj := by
  obtain ⟨toks, next, read, parsed⟩ := parse_ok accepted
  rcases lex_ends lib sql with ⟨toks', read', marked⟩ | ⟨why, read'⟩
  · rw [read] at read'
    cases read'
    exact ((statement_safe marked (Nat.le_succ _)).ok parsed).1
  · rw [read] at read'
    cases read'

/-- A query writes what it is meant to exactly when its limit does not cut a count short, and every
value of a row that is due can be written. -/
theorem select_rows_iff {sql : List Char} (accepted : parse lib sql = .ok q)
    (records : List (Record F)) (out : Output) :
    (∃ body, runQuery lib out q (records, none) = .ok body ∧
      reference lib out q records = .ok body) ↔
    (q.proj.countStar = true → q.limit < 0 ∨
      ((records.filter (satisfies lib q)).length : Int) ≤ q.limit) ∧
    (q.proj.countStar = false →
      ∀ rec_ ∈ limited q.limit 0 (records.filter (satisfies lib q)), Writable lib out q rec_) := by
  have counted := counted_of_parse accepted
  unfold reference
  cases count : q.proj.countStar with
  | true =>
    rw [runQuery_count count]
    simp only [if_true, Except.ok.injEq, true_implies, Bool.true_eq_false, false_implies, and_true]
    rw [← length_limited, ← writeCount_inj out]
    exact ⟨fun ⟨body, run, ref⟩ => run.trans ref.symm, fun same => ⟨_, same, rfl⟩⟩
  | false =>
    have all (item : ProjItem F) (mem : item ∈ q.proj.items) : item.expr ≠ none := by
      intro missing
      have := counted item mem missing
      rw [count] at this
      cases this
    rw [runQuery_rows count]
    simp only [Bool.false_eq_true, if_false, false_implies, true_implies, true_and, and_self]
    constructor
    · rintro ⟨body, run⟩ rec_ mem
      cases texts : (limited q.limit 0 (records.filter (satisfies lib q))).mapM
          (writeRow lib out q) with
      | ok written => exact (writeRow_ok_iff all rec_).mp (forall_of_mapM_ok texts rec_ mem)
      | error err =>
        rw [texts] at run
        cases run
    · intro writable
      obtain ⟨texts, run⟩ :=
        mapM_ok_of_forall fun rec_ mem => (writeRow_ok_iff all rec_).mpr (writable rec_ mem)
      rw [run]
      exact ⟨_, rfl⟩

/-- Two of three lines are due, and both are written. -/
theorem two_rows_written :
    let lines := [.csv [[120], [49]] none, .csv [[121], [50]] none, .csv [[120], [51]] none]
    let q : Query Int :=
      { proj := { items := [{ expr := some (.colRef ["s", "_2"]), name := "_2" }] }
        alias_ := "s"
        where_ := some (.cmpPred (.colRef ["_1"]) (.strLit "x") .eq)
        limit := 2 }
    parse smallLib "SELECT s._2 FROM S3Object s WHERE _1 = 'x' LIMIT 2".toList = .ok q ∧
      ∃ body, runQuery smallLib {} q (lines, none) = .ok body ∧
        reference smallLib {} q lines = .ok body := by
  intro lines q
  have accepted : parse smallLib "SELECT s._2 FROM S3Object s WHERE _1 = 'x' LIMIT 2".toList = .ok q := by
    decide +kernel
  refine ⟨accepted, (select_rows_iff accepted lines {}).mpr ⟨nofun, fun _ rec_ _ json => ?_⟩⟩
  exact absurd json (by decide)

/-- A limit of one makes one of two. -/
theorem count_cut_short :
    let lines := [.csv [[97]] none, .csv [[98]] none]
    let q : Query Int := { proj := { countStar := true, items := [{ name := "_1" }] }, limit := 1 }
    parse smallLib "SELECT COUNT(*) FROM S3Object LIMIT 1".toList = .ok q ∧
      runQuery smallLib {} q (lines, none) = .ok (Utf8.encode "1\n") ∧
      reference smallLib {} q lines = .ok (Utf8.encode "2\n") ∧
      execute smallLib "SELECT COUNT(*) FROM S3Object LIMIT 1".toList {} {} (Utf8.encode "a\nb\n") =
        .ok (Utf8.encode "1\n") := by
  refine ⟨?_, ?_, ?_, ?_⟩ <;> decide +kernel

end D9Store.S3Select
