import D9Store.Backend.Entries
import D9Store.Paging
import D9Store.Runs

/-!
Pages of `ListObjectsV2` with a prefix and a delimiter.

A page shows the entries after its token until it is full, and the token it hands out is that of
the last entry shown. Following the tokens, or the markers, goes through all entries once.
-/

namespace D9Store

open Posix

/-! ### One page -/

/-- A listing with entries added. -/
def ListResult.add (res : ListResult) (xs : List ListEntry) : ListResult :=
  { res with
    objects := res.objects ++ xs.filterMap ListEntry.version?
    commonPrefixes := res.commonPrefixes ++ xs.filterMap ListEntry.common? }

theorem ListResult.add_version (res : ListResult) (key : String) (v : ObjectMeta) :
    res.add [.version key v] = { res with objects := res.objects ++ [v] } := by
  simp [ListResult.add, ListEntry.version?, List.filterMap_cons, ListEntry.common?]

theorem ListResult.add_common (res : ListResult) (display : String) :
    res.add [.common display] = { res with commonPrefixes := res.commonPrefixes ++ [display] } := by
  simp [ListResult.add, ListEntry.version?, List.filterMap_cons, ListEntry.common?]

namespace Env

/-- The loop state after one more entry. -/
def ListState.emit (st : ListState) (x : ListEntry) : ListState :=
  { res := st.res.add [x], count := st.count + 1, lastEmitted := x.token }

/-- The result of a page that is full. -/
def ListState.full (st : ListState) : ListResult :=
  { st.res with isTruncated := true, nextToken := st.lastEmitted, nextMarker := st.lastEmitted }

/-- The loop over the entries. -/
def fillPage (max : Int) : List ListEntry → ListState → ListResult
  | [], st => st.res
  | x :: rest, st => if st.count ≥ max then st.full else fillPage max rest (st.emit x)

/-- A page takes what fits; the token is that of the last entry. -/
theorem fillPage_eq (max : Int) (xs : List ListEntry) (st : ListState) :
    fillPage max xs st =
      if xs.length ≤ (max - st.count).toNat then st.res.add xs
      else
        { st.res.add (xs.take (max - st.count).toNat) with
          isTruncated := true
          nextToken := ((xs.take (max - st.count).toNat).getLast?.map ListEntry.token).getD st.lastEmitted
          nextMarker :=
            ((xs.take (max - st.count).toNat).getLast?.map ListEntry.token).getD st.lastEmitted } := by
  induction xs generalizing st with
  | nil => simp [fillPage, ListResult.add]
  | cons x rest ih =>
    rw [fillPage]
    split
    · rename_i full
      have none : (max - st.count).toNat = 0 := by omega
      simp [none, ListState.full, ListResult.add]
    · rename_i room
      obtain ⟨n, eq⟩ : ∃ n, (max - st.count).toNat = n + 1 := ⟨(max - st.count).toNat - 1, by omega⟩
      have eq' : (max - (st.count + 1)).toNat = n := by omega
      have add : ∀ ys, (st.res.add [x]).add ys = st.res.add (x :: ys) := by
        intro ys
        simp only [ListResult.add, List.append_assoc, ← List.filterMap_append, List.singleton_append]
      rw [ih]
      simp only [ListState.emit, eq, eq', List.length_cons, Nat.add_le_add_iff_right,
        List.take_succ_cons, add]
      split
      · rfl
      · cases rest.take n <;> simp [List.getLast?_cons]

variable {e : Env} {s : Disk} {inp : ListInput} {x : ListEntry}

/-- The object a listing shows of a key. -/
def showing? (e : Env) (s : Disk) (bucket key : String) : List ObjectMeta :=
  (e.shown s bucket key).toList

/-- The keys a listing considers after a token. -/
def after (inp : ListInput) (token key : String) : Bool :=
  token == "" || decide (token < (displayToken key inp.pre inp.delimiter).1)

/-- The loop over the keys goes through their entries. -/
theorem listKeys_entries (token : String) (max : Int) (keys : List String) (st : ListState) :
    e.listKeys s inp token max keys st =
      fillPage max (entriesFrom inp.pre inp.delimiter (e.showing? s inp.bucket)
        st.res.commonPrefixes (keys.filter (after inp token))) st := by
  induction keys generalizing st with
  | nil => rfl
  | cons key rest ih =>
    rw [listKeys, List.filter_cons]
    by_cases begins : Text.hasPrefix key inp.pre = true
    swap
    · have off : Text.hasPrefix key inp.pre = false := by simpa using begins
      rw [if_pos ⟨hasPrefix_ne_empty off, begins⟩, ih]
      split
      · rw [entriesFrom_other off]
      · rfl
    rw [if_neg fun h => h.2 begins]
    by_cases past : token ≠ "" ∧ (displayToken key inp.pre inp.delimiter).1 ≤ token
    · have skip : ¬ after inp token key = true := by
        simp only [after, Bool.or_eq_true, beq_iff_eq, decide_eq_true_eq, not_or, not_lt]
        exact past
      simp only [if_pos past, ih]
      rw [if_neg skip]
    · have here : after inp token key = true := by
        simp only [after, Bool.or_eq_true, beq_iff_eq, decide_eq_true_eq]
        by_contra h
        rw [not_or, not_lt] at h
        exact past h
      simp only [if_neg past]
      rw [if_pos here]
      cases line inp.pre inp.delimiter st.res.commonPrefixes key with
      | other off => exact absurd (off.symm.trans begins) Bool.false_ne_true
      | own _ plain =>
        rw [entriesFrom_own begins plain, showing?, shown]
        simp only [plain, Bool.false_eq_true, if_false]
        cases e.readKeyMeta s inp.bucket key with
        | error err => exact ih st
        | ok km =>
          cases latest : km.latest with
          | none => simpa [latest] using ih st
          | some v =>
            cases marker : v.deleteMarker with
            | true => simpa [latest, marker, Option.filter] using ih st
            | false =>
              simp [latest, marker, Option.filter, fillPage, ih, ListState.emit,
                ListState.full, ListResult.add_version, ListEntry.token]
      | again _ display rolls known =>
        rw [entriesFrom_again begins rolls known]
        simp only [rolls, if_true, List.contains_iff_mem.mpr known]
        exact ih st
      | first _ display rolls new =>
        have new' : ¬ st.res.commonPrefixes.contains display = true :=
          fun h => new (List.contains_iff_mem.mp h)
        rw [entriesFrom_first begins rolls new]
        simp only [rolls, if_true, if_neg new', fillPage, ih, ListState.emit, ListState.full,
          ListResult.add_common, ListEntry.token]

/-! ### All pages -/

/-- The entries of the whole listing. -/
def objectEntries (e : Env) (s : Disk) (inp : ListInput) : List ListEntry :=
  entriesFrom inp.pre inp.delimiter (e.showing? s inp.bucket) [] (e.walkObjectTree s inp.bucket)

/-- How a client asks for the next page: by the continuation token, or by the marker. -/
inductive Cursor where
  | token
  | marker

/-- The request that continues after a page. -/
def Cursor.next (cursor : Cursor) (inp : ListInput) (page : ListResult) : Option ListInput :=
  if page.isTruncated then
    match cursor with
    | .token => some { inp with continuationToken := page.nextToken }
    | .marker => some { inp with marker := page.nextMarker }
  else none

/-- The request after a token. -/
def Cursor.request (cursor : Cursor) (inp : ListInput) (token : String) : ListInput :=
  match cursor with
  | .token => { inp with continuationToken := token }
  | .marker => { inp with marker := token }

/-- A page shows these entries. -/
def Shows (page : ListResult) (xs : List ListEntry) : Prop :=
  page.objects = xs.filterMap ListEntry.version? ∧ page.commonPrefixes = xs.filterMap ListEntry.common?

/-- The request has these entries in front of it. -/
def AtEntries (e : Env) (s : Disk) (cursor : Cursor) (inp : ListInput) (req : ListInput)
    (xs : List ListEntry) : Prop :=
  ∃ token, req = cursor.request inp token ∧ xs <:+ e.objectEntries s inp ∧
    xs = entriesFrom inp.pre inp.delimiter (e.showing? s inp.bucket) []
      ((e.walkObjectTree s inp.bucket).filter (after inp token))

theorem objectEntries_pairwise : (e.objectEntries s inp).Pairwise (ListEntry.Before fun _ _ => False) := by
  refine entriesFrom_pairwise (sorted_lt _) fun key _ => ?_
  rw [showing?]
  cases e.shown s inp.bucket key <;> simp

theorem token_ne_empty (named : "" ∉ e.walkObjectTree s inp.bucket)
    (mem : x ∈ e.objectEntries s inp) : x.token ≠ "" := by
  obtain ⟨key, memKey, -, token⟩ := token_of_mem mem
  cases common : x.isCommon with
  | false =>
    rw [common] at token
    rw [displayToken_self token]
    exact fun empty => named (empty ▸ memKey)
  | true =>
    rw [common] at token
    obtain ⟨ne, before, eq, -⟩ := displayToken_common token
    intro empty
    rw [empty] at eq
    simp [ne] at eq

/-- The entries after the token of an entry are those that follow it. -/
theorem entries_after (named : "" ∉ e.walkObjectTree s inp.bucket) {front rest : List ListEntry}
    (split : e.objectEntries s inp = front ++ x :: rest) :
    entriesFrom inp.pre inp.delimiter (e.showing? s inp.bucket) []
      ((e.walkObjectTree s inp.bucket).filter (after inp x.token)) = rest := by
  have ne : x.token ≠ "" := token_ne_empty named (by rw [split]; simp)
  have chosen : after inp x.token =
      fun key => decide (x.token < (displayToken key inp.pre inp.delimiter).1) := by
    funext key
    simp [after, ne]
  have sorted : (e.objectEntries s inp).Pairwise _ := objectEntries_pairwise
  rw [chosen, entriesFrom_filter (fun token => decide (x.token < token))]
  refine filter_token_lt sorted split fun y mem => ?_
  rw [split, List.pairwise_append, List.pairwise_cons] at sorted
  rcases sorted.2.1.1 y mem with lt | ⟨-, -, -, -, -, no⟩
  · exact lt
  · exact no.elim

section Pages

variable {bm : BucketMeta} (inp) (cursor : Cursor)
  (found : e.readBucketMeta s inp.bucket = .ok bm) (fresh : inp.continuationToken = "")
  (start : inp.startAfter = "") (unmarked : inp.marker = "")

include found fresh start unmarked

theorem listObjectsV2_request (token : String) :
    e.listObjectsV2 s (cursor.request inp token) =
      .ok (fillPage (clampMax inp.maxKeys) (entriesFrom inp.pre inp.delimiter
        (e.showing? s inp.bucket) [] ((e.walkObjectTree s inp.bucket).filter (after inp token))) {}) := by
  have bucket : (cursor.request inp token).bucket = inp.bucket := by cases cursor <;> rfl
  have maxKeys : (cursor.request inp token).maxKeys = inp.maxKeys := by cases cursor <;> rfl
  have pre : (cursor.request inp token).pre = inp.pre := by cases cursor <;> rfl
  have delimiter : (cursor.request inp token).delimiter = inp.delimiter := by cases cursor <;> rfl
  have place : (if (cursor.request inp token).marker ≠ "" then (cursor.request inp token).marker
      else if (cursor.request inp token).continuationToken = "" then
        (cursor.request inp token).startAfter else (cursor.request inp token).continuationToken) =
      token := by
    by_cases empty : token = "" <;> cases cursor <;> simp [Cursor.request, fresh, start, unmarked, empty]
  have same : after (cursor.request inp token) token = after inp token := by
    funext key
    rw [after, after, pre, delimiter]
  unfold listObjectsV2
  simp only [bucket, found, except_ok_bind, place, maxKeys, listKeys_entries, pre, delimiter, same]

theorem pager (named : "" ∉ e.walkObjectTree s inp.bucket) {size : Nat}
    (max : clampMax inp.maxKeys = size + 1) :
    Paging.Pager (e.listObjectsV2 s) (cursor.next inp) (fun _ => false) size
      (e.AtEntries s cursor inp) Shows := by
  have room : (clampMax inp.maxKeys - (0 : Int)).toNat = size + 1 := by omega
  constructor
  · rintro req xs ⟨token, rfl, -, rfl⟩ fits
    refine ⟨_, listObjectsV2_request inp cursor found fresh start unmarked token, ?_⟩
    rw [fillPage_eq]
    simp only [room, fits, if_true]
    exact ⟨⟨List.nil_append _, List.nil_append _⟩, by simp [Cursor.next, ListResult.add]⟩
  · rintro req xs ⟨token, rfl, suffix, eq⟩ more
    obtain ⟨last, found'⟩ : ∃ last, (xs.take (size + 1)).getLast? = some last := by
      refine ⟨_, List.getLast?_eq_some_getLast fun empty => ?_⟩
      have := congrArg List.length empty
      rw [List.length_take, List.length_nil] at this
      omega
    obtain ⟨init, ends⟩ := List.getLast?_eq_some_iff.mp found'
    obtain ⟨front, all⟩ := suffix
    have split : e.objectEntries s inp = (front ++ init) ++ last :: xs.drop (size + 1) := by
      rw [← all]
      conv_lhs => rw [← List.take_append_drop (size + 1) xs, ends]
      simp only [List.append_assoc, List.singleton_append]
    have page := listObjectsV2_request inp cursor found fresh start unmarked token
    rw [← eq, fillPage_eq] at page
    simp only [room, more, if_false, found', Option.map_some, Option.getD_some] at page
    refine ⟨_, cursor.request inp last.token, page, ⟨List.nil_append _, List.nil_append _⟩, ?_, ?_⟩
    · cases cursor <;> simp [Cursor.next, Cursor.request]
    · have kept : ∀ ys : List ListEntry, Paging.resume (fun _ => false) ys = ys := by
        intro ys
        cases ys <;> rfl
      rw [kept]
      refine ⟨last.token, rfl, ⟨front ++ init ++ [last], ?_⟩, (entries_after named split).symm⟩
      rw [split]
      simp only [List.append_assoc, List.singleton_append]

end Pages

/-- What a listing has to show: the live keys without a delimiter after the prefix, and the
common prefixes of the others. -/
def Listable (e : Env) (s : Disk) (inp : ListInput) : ListEntry → Prop
  | .version key v =>
    key ∈ e.walkObjectTree s inp.bucket ∧ Text.hasPrefix key inp.pre = true ∧
      Undelimited inp.pre inp.delimiter key ∧ e.shown s inp.bucket key = some v
  | .common display =>
    ∃ key ∈ e.walkObjectTree s inp.bucket, Text.hasPrefix key inp.pre = true ∧
      RollsInto inp.pre inp.delimiter key display

theorem mem_objectEntries : x ∈ e.objectEntries s inp ↔ e.Listable s inp x := by
  cases x with
  | version key v =>
    refine mem_entriesFrom_version.trans (and_congr_right fun _ => and_congr_right fun _ => ?_)
    rw [displayToken_self_iff, showing?, Option.mem_toList]
  | common display =>
    refine mem_entriesFrom_common.trans ?_
    simp only [List.not_mem_nil, not_false_eq_true, true_and]
    refine exists_congr fun key => and_congr_right fun _ => and_congr_right fun begins => ?_
    exact displayToken_common_iff begins

/-- The pages show these entries one after the other, none more than `max`. -/
def PagesShow (pages : List ListResult) (max : Int) (xs : List ListEntry) : Prop :=
  ∃ parts, List.Forall₂ Shows pages parts ∧ parts.flatten = xs ∧
    ∀ part ∈ parts, (part.length : Int) ≤ max

/-- Following the tokens, or the markers, of a listing ends, and its pages show everything there is
to list once, in the order of the display tokens. No file has an empty name. -/
theorem object_pages_complete (e : Env) (s : Disk) (bucket pre delimiter : String) (maxKeys : Int)
    (cursor : Cursor) (present : (e.readBucketMeta s bucket).isOk = true)
    (named : "" ∉ e.walkObjectTree s bucket) :
    ∃ fuel pages, Paging.follow (e.listObjectsV2 s) (cursor.next { bucket, pre, delimiter, maxKeys })
        fuel { bucket, pre, delimiter, maxKeys } = .ok (some pages) ∧
      ∃ xs, PagesShow pages (clampMax maxKeys) xs ∧ xs.Pairwise (fun x y => x.token < y.token) ∧
        ∀ x, x ∈ xs ↔ e.Listable s { bucket, pre, delimiter, maxKeys } x := by
  set inp : ListInput := { bucket, pre, delimiter, maxKeys } 
  cases found : e.readBucketMeta s bucket with
  | error err =>
    rw [found] at present
    cases present
  | ok bm =>
    have pos := clampMax_pos maxKeys
    obtain ⟨size, max⟩ : ∃ size : Nat, clampMax maxKeys = size + 1 :=
      ⟨(clampMax maxKeys - 1).toNat, by omega⟩
    have start : e.AtEntries s cursor inp inp (e.objectEntries s inp) := by
      refine ⟨"", ?_, List.suffix_rfl, ?_⟩
      · cases cursor <;> rfl
      · rw [List.filter_eq_self.mpr fun key _ => by simp [after]]
        rfl
    obtain ⟨pages, run, shows⟩ :=
      (pager inp cursor found rfl rfl rfl named max).follow start
        (Nat.lt_succ_self _)
    refine ⟨_, pages, run, e.objectEntries s inp, ⟨_, shows, Paging.flatten_parts _, ?_⟩, ?_,
      fun x => mem_objectEntries⟩
    · intro part mem
      have := Paging.length_of_mem_parts mem
      rw [max]
      omega
    · refine objectEntries_pairwise.imp fun h => ?_
      rcases h with lt | ⟨-, -, -, -, -, no⟩
      · exact lt
      · exact no.elim

/-- Three keys, two of them under one prefix. -/
def nestedKeys : List Input :=
  [.command Small.create, Small.payload 1, .command (Small.put "a/x" 1), Small.payload 2,
   .command (Small.put "a/y" 2), Small.payload 3, .command (Small.put "b" 3)]

theorem nested_keys_listed :
    ∃ fuel pages, Paging.follow
        ((smallEnv false).listObjectsV2 ((smallEnv false).feed nestedKeys (smallDisk false)))
        (Cursor.next .token { bucket := "b", delimiter := "/", maxKeys := 1 }) fuel
        { bucket := "b", delimiter := "/", maxKeys := 1 } = .ok (some pages) ∧
      ∃ xs, PagesShow pages (clampMax 1) xs ∧ xs.Pairwise (fun x y => x.token < y.token) ∧
        ∀ x, x ∈ xs ↔ (smallEnv false).Listable ((smallEnv false).feed nestedKeys (smallDisk false))
          { bucket := "b", delimiter := "/", maxKeys := 1 } x :=
  object_pages_complete (smallEnv false) _ "b" "" "/" 1 .token (by decide +kernel) (by decide +kernel)

end Env

end D9Store
