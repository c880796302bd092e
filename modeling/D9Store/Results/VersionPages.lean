import D9Store.Backend.Entries
import D9Store.Backend.Written
import D9Store.Paging
import D9Store.Runs

/-!
Pages of `ListObjectVersions`.

A page that breaks at a version names it in its two markers, and the next page begins with it. A
page that breaks at a common prefix names the prefix as key marker alone, which the next page
takes as returned already. The listing is complete exactly when no page breaks at a prefix.
-/

namespace D9Store

open Posix

/-! ### One page -/

/-- A listing with entries added. -/
def ListVersionsResult.add (res : ListVersionsResult) (xs : List ListEntry) : ListVersionsResult :=
  { res with
    versions := res.versions ++ (xs.filterMap ListEntry.version?).filter fun v => !v.deleteMarker
    deleteMarkers := res.deleteMarkers ++ (xs.filterMap ListEntry.version?).filter fun v => v.deleteMarker
    commonPrefixes := res.commonPrefixes ++ xs.filterMap ListEntry.common? }

/-- The result of a page that breaks at an entry. -/
def ListVersionsResult.stop (res : ListVersionsResult) (x : ListEntry) : ListVersionsResult :=
  { res with
    isTruncated := true
    nextKeyMarker := x.token
    nextVersionIDMarker := (x.version?.map ObjectMeta.versionID).getD res.nextVersionIDMarker }

namespace ListVersionsResult

variable (res : ListVersionsResult)

theorem add_nil : res.add [] = res := by
  simp [add]

theorem add_add (xs ys : List ListEntry) : (res.add xs).add ys = res.add (xs ++ ys) := by
  simp only [add, List.append_assoc, List.filterMap_append, List.filter_append]

theorem add_version (key : String) (v : ObjectMeta) :
    res.add [.version key v] =
      if v.deleteMarker then { res with deleteMarkers := res.deleteMarkers ++ [v] }
      else { res with versions := res.versions ++ [v] } := by
  cases marker : v.deleteMarker <;>
    simp [add, ListEntry.version?, ListEntry.common?, List.filterMap_cons, marker]

theorem add_common (display : String) :
    res.add [.common display] = { res with commonPrefixes := res.commonPrefixes ++ [display] } := by
  simp [add, ListEntry.version?, ListEntry.common?, List.filterMap_cons]

end ListVersionsResult

namespace Env

/-- The loop state after one more entry. -/
def ListVersionsState.emit (st : ListVersionsState) (x : ListEntry) : ListVersionsState :=
  { res := st.res.add [x], count := st.count + 1 }

/-- The loop over the entries. -/
def fillVersions (max : Int) : List ListEntry → ListVersionsState → ListVersionsResult
  | [], st => st.res
  | x :: rest, st =>
    if st.count ≥ max then st.res.stop x else fillVersions max rest (st.emit x)

variable {max : Int} {xs : List ListEntry} {st : ListVersionsState}

theorem fillVersions_fits (fits : st.count + xs.length ≤ max) :
    fillVersions max xs st = st.res.add xs := by
  induction xs generalizing st with
  | nil => rw [fillVersions, ListVersionsResult.add_nil]
  | cons x rest ih =>
    rw [List.length_cons] at fits
    rw [fillVersions, if_neg (by omega), ih (by simp only [ListVersionsState.emit]; omega)]
    exact st.res.add_add [x] rest

theorem fillVersions_stops {rest : List ListEntry} {x : ListEntry}
    (full : st.count + xs.length = max) :
    fillVersions max (xs ++ x :: rest) st = (st.res.add xs).stop x := by
  induction xs generalizing st with
  | nil =>
    rw [List.nil_append, fillVersions, ListVersionsResult.add_nil]
    rw [List.length_nil] at full
    exact if_pos (by omega)
  | cons y ys ih =>
    rw [List.length_cons] at full
    rw [List.cons_append, fillVersions, if_neg (by omega),
      ih (by simp only [ListVersionsState.emit]; omega)]
    exact congrArg (·.stop x) (st.res.add_add [y] ys)

variable {e : Env} {s : Disk} {inp : ListVersionsInput} {key display : String}

/-! ### The loop over the keys -/

/-- The versions from a marker on. -/
def versionsFrom (resume : Option String) (versions : List ObjectMeta) : List ObjectMeta :=
  match resume with
  | none => versions
  | some id => versions.dropWhile fun v => id != v.versionID

/-- The loop over the versions of a key, followed by more entries. -/
theorem fillVersions_listVersionsOf (key : String) (max : Int) (resume : Option String)
    (versions : List ObjectMeta) (rest : List ListEntry) (st : ListVersionsState) :
    fillVersions max ((versionsFrom resume versions).map (.version key) ++ rest) st =
      match listVersionsOf key max resume versions st with
      | (st, true) => st.res
      | (st, false) => fillVersions max rest st := by
  induction versions generalizing resume st with
  | nil => cases resume <;> rfl
  | cons v versions ih =>
    rw [listVersionsOf]
    by_cases skip : resume.any (· != v.versionID) = true
    · rw [if_pos skip, ← ih]
      cases resume with
      | none => cases skip
      | some id =>
        have skip : (id != v.versionID) = true := skip
        simp only [versionsFrom, List.dropWhile_cons, skip, if_true]
    · have here : versionsFrom resume (v :: versions) = v :: versions := by
        cases resume with
        | none => rfl
        | some id =>
          have skip : ¬ (id != v.versionID) = true := skip
          rw [versionsFrom, List.dropWhile_cons, if_neg skip]
      rw [if_neg skip, here, List.map_cons, List.cons_append, fillVersions]
      by_cases full : st.count ≥ max
      · rw [if_pos full, if_pos full]
        rfl
      · rw [if_neg full, if_neg full, ← ih none]
        simp only [versionsFrom, ListVersionsState.emit, ListVersionsResult.add_version]

theorem listVersionsOf_commonPrefixes {resume : Option String} {versions : List ObjectMeta}
    {st' : ListVersionsState} {full : Bool}
    (run : listVersionsOf key max resume versions st = (st', full)) :
    st'.res.commonPrefixes = st.res.commonPrefixes := by
  induction versions generalizing resume st with
  | nil =>
    cases run
    rfl
  | cons v versions ih =>
    rw [listVersionsOf] at run
    split at run
    · exact ih run
    · split at run
      · cases run
        rfl
      · rw [ih run]
        dsimp only
        split <;> rfl

/-- The marker key is visited again, from the marked version on. -/
def resumes (inp : ListVersionsInput) (key : String) : Bool :=
  (inp.keyMarker != "" && inp.versionIDMarker != "") && key == inp.keyMarker

/-- The versions a request shows of a key. -/
def ownFrom (e : Env) (s : Disk) (inp : ListVersionsInput) (key : String) : List ObjectMeta :=
  versionsFrom (if resumes inp key then some inp.versionIDMarker else none)
    (e.versionsOf s inp.bucket key)

/-- The keys a request visits. -/
def visits (inp : ListVersionsInput) (key : String) : Bool :=
  let (display, common) := displayToken key inp.pre inp.delimiter
  !(inp.keyMarker != "" && (decide (display < inp.keyMarker) ||
    (display == inp.keyMarker && !((inp.keyMarker != "" && inp.versionIDMarker != "") && !common &&
      key == inp.keyMarker))))

theorem visits_iff (inp : ListVersionsInput) {common : Bool}
    (token : displayToken key inp.pre inp.delimiter = (display, common)) :
    visits inp key = true ↔ inp.keyMarker = "" ∨ inp.keyMarker < display ∨
      (display = inp.keyMarker ∧ inp.versionIDMarker ≠ "" ∧ common = false ∧ key = inp.keyMarker) := by
  simp only [visits, token, Bool.not_eq_true', Bool.and_eq_false_iff, Bool.or_eq_false_iff,
    Bool.not_eq_false', Bool.and_eq_true, bne_eq_false_iff_eq, bne_iff_ne, decide_eq_false_iff_not,
    beq_eq_false_iff_ne, beq_iff_eq, ne_eq, not_lt]
  constructor
  · rintro (empty | ⟨le, ne | ⟨⟨⟨-, id⟩, plain⟩, same⟩⟩)
    · exact .inl empty
    · exact .inr (.inl (lt_of_le_of_ne le (Ne.symm ne)))
    · rcases le.lt_or_eq with lt | eq
      · exact .inr (.inl lt)
      · exact .inr (.inr ⟨eq.symm, id, plain, same⟩)
  · rintro (empty | lt | ⟨eq, id, plain, same⟩)
    · exact .inl empty
    · exact .inr ⟨lt.le, .inl lt.ne'⟩
    · by_cases empty : inp.keyMarker = ""
      · exact .inl empty
      · exact .inr ⟨eq.ge, .inr ⟨⟨⟨empty, id⟩, plain⟩, same⟩⟩

/-- The loop over the keys goes through their entries. -/
theorem listVersionKeys_entries (max : Int) (keys : List String) (st : ListVersionsState) :
    e.listVersionKeys s inp max keys st =
      fillVersions max (entriesFrom inp.pre inp.delimiter (e.ownFrom s inp) st.res.commonPrefixes
        (keys.filter (visits inp))) st := by
  induction keys generalizing st with
  | nil => rfl
  | cons key rest ih =>
    rw [listVersionKeys, List.filter_cons]
    by_cases begins : Text.hasPrefix key inp.pre = true
    swap
    · have off : Text.hasPrefix key inp.pre = false := by simpa using begins
      rw [if_pos ⟨hasPrefix_ne_empty off, begins⟩, ih]
      split
      · rw [entriesFrom_other off]
      · rfl
    rw [if_neg fun h => h.2 begins]
    cases visited : visits inp key with
    | false =>
      have skipped := visited
      rw [visits, Bool.not_eq_false'] at skipped
      rw [if_neg Bool.false_ne_true]
      simp only [skipped, if_true]
      exact ih st
    | true =>
      have reached := visited
      rw [visits, Bool.not_eq_true'] at reached
      rw [if_pos rfl]
      simp only [reached, Bool.false_eq_true, if_false]
      cases line inp.pre inp.delimiter st.res.commonPrefixes key with
      | other off => exact absurd (off.symm.trans begins) Bool.false_ne_true
      | own _ plain =>
        rw [entriesFrom_own begins plain]
        simp only [plain, Bool.false_eq_true, if_false]
        cases found : e.readKeyMeta s inp.bucket key with
        | error err =>
          have none : e.ownFrom s inp key = [] := by
            rw [ownFrom, versionsOf, found]
            split <;> rfl
          rw [none]
          exact ih st
        | ok km =>
          have own : e.ownFrom s inp key =
              versionsFrom (if resumes inp key then some inp.versionIDMarker else none)
                km.versions := by
            rw [ownFrom, versionsOf, found]
          rw [own, fillVersions_listVersionsOf]
          rcases run : listVersionsOf key max
            (if resumes inp key = true then some inp.versionIDMarker else none) km.versions st
            with ⟨st', full⟩
          have run' := run
          rw [resumes] at run'
          simp only [run']
          cases full with
          | true => rfl
          | false =>
            simp only
            rw [ih, listVersionsOf_commonPrefixes run]
      | again _ display rolls known =>
        rw [entriesFrom_again begins rolls known]
        simp only [rolls, if_true, List.contains_iff_mem.mpr known]
        exact ih st
      | first _ display rolls new =>
        have new' : ¬ st.res.commonPrefixes.contains display = true :=
          fun h => new (List.contains_iff_mem.mp h)
        rw [entriesFrom_first begins rolls new]
        simp only [rolls, if_true, if_neg new', fillVersions, ih, ListVersionsState.emit,
          ListVersionsResult.add_common, ListVersionsResult.stop, ListEntry.version?, ListEntry.token,
          Option.map_none, Option.getD_none]

/-! ### Where a page resumes -/

/-- The keys of the listing. -/
def versionKeys (e : Env) (s : Disk) (bucket : String) : List String :=
  mergeSortedUnique (e.walkAllKeys s bucket) (e.walkObjectTree s bucket)

/-- The entries of the whole listing. -/
def versionEntries (e : Env) (s : Disk) (inp : ListVersionsInput) : List ListEntry :=
  entriesFrom inp.pre inp.delimiter (e.versionsOf s inp.bucket) [] (e.versionKeys s inp.bucket)

/-- The entries a request has in front of it. -/
def requested (e : Env) (s : Disk) (req : ListVersionsInput) : List ListEntry :=
  entriesFrom req.pre req.delimiter (e.ownFrom s req) []
    ((e.versionKeys s req.bucket).filter (visits req))

/-- The version ids of every key are its own and not empty, and so are the keys. -/
structure Identified (e : Env) (s : Disk) (bucket : String) : Prop where
  distinct : ∀ key ∈ e.versionKeys s bucket,
    (e.versionsOf s bucket key).Pairwise fun v w => v.versionID ≠ w.versionID
  named : ∀ key ∈ e.versionKeys s bucket, key ≠ "" ∧
    ∀ v ∈ e.versionsOf s bucket key, v.versionID ≠ ""

instance (bucket : String) : Decidable (Identified e s bucket) :=
  decidable_of_iff
    ((∀ key ∈ e.versionKeys s bucket,
        (e.versionsOf s bucket key).Pairwise fun v w => v.versionID ≠ w.versionID) ∧
      ∀ key ∈ e.versionKeys s bucket, key ≠ "" ∧
        ∀ v ∈ e.versionsOf s bucket key, v.versionID ≠ "")
    ⟨fun h => ⟨h.1, h.2⟩, fun h => ⟨h.1, h.2⟩⟩

theorem sorted_versionKeys (bucket : String) : (e.versionKeys s bucket).Pairwise (· < ·) := by
  unfold versionKeys mergeSortedUnique
  exact sorted_lt _

/-- The keys from a key of the listing on. -/
theorem filter_from_key {keys : List String} (asc : keys.Pairwise (· < ·)) (token : String → String)
    (mem : key ∈ keys) (same : token key = key) (below : ∀ k ∈ keys, k < key → token k < key)
    (above : ∀ k ∈ keys, key < k → key < token k) :
    keys.filter (fun k => decide (key ≤ token k)) =
      key :: keys.filter fun k => decide (key < token k) := by
  induction keys with
  | nil => cases mem
  | cons k keys ih =>
    obtain ⟨least, asc⟩ := List.pairwise_cons.mp asc
    by_cases here : k = key
    · subst here
      have later : ∀ l ∈ keys, k < token l := fun l mem =>
        above l (List.mem_cons_of_mem _ mem) (least l mem)
      rw [List.filter_cons, List.filter_cons, if_pos (decide_eq_true same.ge),
        if_neg fun h => (of_decide_eq_true h).ne same.symm, List.cons.injEq]
      refine ⟨rfl, List.filter_congr fun l mem => ?_⟩
      rw [decide_eq_true (later l mem), decide_eq_true (later l mem).le]
    · have mem : key ∈ keys := (List.mem_cons.mp mem).resolve_left (Ne.symm here)
      have lt : token k < key := below k List.mem_cons_self (least key mem)
      rw [List.filter_cons, List.filter_cons,
        if_neg fun h => absurd lt (not_lt.mpr (of_decide_eq_true h)),
        if_neg fun h => lt_asymm lt (of_decide_eq_true h)]
      exact ih asc mem (fun l mem => below l (List.mem_cons_of_mem _ mem))
        fun l mem => above l (List.mem_cons_of_mem _ mem)

/-- The version with an id, in a list where ids are not repeated. -/
theorem dropWhile_versionID {before after : List ObjectMeta} {v : ObjectMeta}
    (distinct : (before ++ v :: after).Pairwise fun v w => v.versionID ≠ w.versionID) :
    (before ++ v :: after).dropWhile (fun w => v.versionID != w.versionID) = v :: after := by
  rw [List.dropWhile_append_of_pos, List.dropWhile_cons_of_neg (by simp)]
  intro w mem
  exact bne_iff_ne.mpr ((List.pairwise_append.mp distinct).2.2 w mem v List.mem_cons_self).symm

section Resumption

variable (ids : Identified e s inp.bucket) {front rest : List ListEntry}

include ids

theorem versionEntries_pairwise :
    (e.versionEntries s inp).Pairwise (ListEntry.Before fun v w => v.versionID ≠ w.versionID) :=
  entriesFrom_pairwise (sorted_versionKeys _) ids.distinct

theorem nodup_versionEntries : (e.versionEntries s inp).Nodup := by
  refine (versionEntries_pairwise ids).imp fun {x y} h eq => ?_
  subst eq
  rcases h with lt | ⟨key, v, w, eq, eq', ne⟩
  · exact lt_irrefl _ lt
  · rw [eq] at eq'
    cases eq'
    exact ne rfl

/-- A key marker alone resumes after every entry with that token. -/
theorem requested_common {display : String}
    (split : e.versionEntries s inp = front ++ .common display :: rest) :
    e.requested s { inp with keyMarker := display, versionIDMarker := "" } = rest := by
  have mem : ListEntry.common display ∈ e.versionEntries s inp := by
    rw [split]
    simp
  obtain ⟨-, key, -, -, rolls⟩ := mem_entriesFrom_common.mp mem
  have ne : display ≠ "" := by
    obtain ⟨ne, before, eq, -⟩ := displayToken_common rolls
    rintro rfl
    simp [ne] at eq
  have chosen : visits { inp with keyMarker := display, versionIDMarker := "" } =
      fun key => decide (display < (displayToken key inp.pre inp.delimiter).1) := by
    funext key
    rcases token : displayToken key inp.pre inp.delimiter with ⟨token', common⟩
    rw [Bool.eq_iff_iff, decide_eq_true_eq]
    refine (visits_iff { inp with keyMarker := display, versionIDMarker := "" } token).trans ?_
    simp only [ne, ne_eq, not_true_eq_false, false_and, and_false, or_false, false_or]
  have own : e.ownFrom s { inp with keyMarker := display, versionIDMarker := "" } =
      e.versionsOf s inp.bucket := by
    funext key
    simp [ownFrom, resumes, versionsFrom]
  have sorted := versionEntries_pairwise ids
  rw [requested, chosen, own]
  refine (entriesFrom_filter fun token => decide (display < token)).trans ?_
  refine filter_token_lt sorted split fun y mem => ?_
  rw [split, List.pairwise_append, List.pairwise_cons] at sorted
  rcases sorted.2.1.1 y mem with lt | ⟨key, v, w, eq, -⟩
  · exact lt
  · cases eq

/-- Both markers resume at the version they name. -/
theorem requested_version {key : String} {v : ObjectMeta}
    (split : e.versionEntries s inp = front ++ .version key v :: rest) :
    e.requested s { inp with keyMarker := key, versionIDMarker := v.versionID } =
      .version key v :: rest := by
  have mem : ListEntry.version key v ∈ e.versionEntries s inp := by
    rw [split]
    simp
  obtain ⟨memKey, begins, plain, memV⟩ := mem_entriesFrom_version.mp mem
  obtain ⟨named, memNamed⟩ := ids.named key memKey
  have id := memNamed v memV
  set req : ListVersionsInput := { inp with keyMarker := key, versionIDMarker := v.versionID }
  -- the keys in front of the request, the marked one first
  set keys := (e.versionKeys s inp.bucket).filter fun k => Text.hasPrefix k inp.pre
  have asc : keys.Pairwise (· < ·) := (sorted_versionKeys _).filter _
  have memKeys : key ∈ keys := List.mem_filter.mpr ⟨memKey, begins⟩
  have below : ∀ k ∈ keys, k < key → (displayToken k inp.pre inp.delimiter).1 < key := by
    intro k memK lt
    rcases displayToken_mono (List.mem_filter.mp memK).2 begins lt rfl plain with h | ⟨-, -, no⟩
    · exact h
    · cases no
  have above : ∀ k ∈ keys, key < k → key < (displayToken k inp.pre inp.delimiter).1 := by
    intro k memK lt
    rcases displayToken_mono begins (List.mem_filter.mp memK).2 lt plain rfl with h | ⟨-, no, -⟩
    · exact h
    · cases no
  have marked := filter_from_key asc (fun k => (displayToken k inp.pre inp.delimiter).1) memKeys
    (congrArg Prod.fst plain) below above
  set later := keys.filter fun k => decide (key < (displayToken k inp.pre inp.delimiter).1)
  have visited : keys.filter (visits req) = key :: later := by
    rw [← marked]
    refine List.filter_congr fun k memK => ?_
    rcases token : displayToken k inp.pre inp.delimiter with ⟨display, common⟩
    rw [Bool.eq_iff_iff, decide_eq_true_eq]
    refine (visits_iff req token).trans ?_
    constructor
    · rintro (empty | lt | ⟨eq, -⟩)
      · exact absurd empty named
      · exact lt.le
      · exact eq.ge
    · intro le
      rcases lt_trichotomy k key with lt | rfl | gt
      · have := below k memK lt
        rw [token] at this
        exact absurd this (not_lt.mpr le)
      · rw [plain] at token
        cases token
        exact .inr (.inr ⟨rfl, id, rfl, rfl⟩)
      · have := above k memK gt
        rw [token] at this
        exact .inr (.inl this)
  -- what the request shows of them
  obtain ⟨before, after, history⟩ := List.append_of_mem memV
  have own : e.ownFrom s req key = v :: after := by
    have resumed : resumes req key = true := by
      simp [resumes, req, named, id]
    rw [ownFrom, resumed, if_pos rfl]
    change (e.versionsOf s inp.bucket key).dropWhile (fun w => v.versionID != w.versionID) = _
    rw [history]
    exact dropWhile_versionID (history ▸ ids.distinct key memKey)
  have others : ∀ k ∈ later, e.ownFrom s req k = e.versionsOf s inp.bucket k := by
    intro k memK
    have ne : k ≠ key := by
      rintro rfl
      have := (List.mem_filter.mp memK).2
      simp [plain] at this
    have fresh : resumes req k = false := by
      simp [resumes, req, ne]
    rw [ownFrom, fresh]
    rfl
  have shown : e.requested s req = (v :: after).map (.version key) ++
      entriesFrom inp.pre inp.delimiter (e.versionsOf s inp.bucket) [] later := by
    rw [requested, ← entriesFrom_hasPrefix, List.filter_comm, ← entriesFrom_congr others, ← own]
    change entriesFrom inp.pre inp.delimiter _ [] (keys.filter (visits req)) = _
    rw [visited, entriesFrom_own begins plain]
  -- the same entries in the whole listing
  have whole : (before ++ v :: after).map (.version key) ++
      entriesFrom inp.pre inp.delimiter (e.versionsOf s inp.bucket) [] later =
      (front.filter fun x => decide (key ≤ x.token)) ++ .version key v :: rest := by
    have sorted := versionEntries_pairwise ids
    rw [split, List.pairwise_append, List.pairwise_cons] at sorted
    have tail : rest.filter (fun x => decide (key ≤ x.token)) = rest := by
      refine List.filter_eq_self.mpr fun y mem => decide_eq_true ?_
      rcases sorted.2.1.1 y mem with lt | ⟨k, w, w', eq, rfl, -⟩
      · exact lt.le
      · cases eq
        exact le_refl key
    rw [← history, ← entriesFrom_own begins plain, ← marked, entriesFrom_filter (fun t => decide (key ≤ t)),
      entriesFrom_hasPrefix]
    change (e.versionEntries s inp).filter _ = _
    rw [split, List.filter_append, List.filter_cons, if_pos (decide_eq_true (show key ≤ (ListEntry.version key v).token from le_refl key)), tail]
  rw [List.map_append, List.map_cons, List.append_assoc, List.cons_append] at whole
  have once : ((front.filter fun x => decide (key ≤ x.token)) ++ .version key v :: rest).Nodup := by
    have nodup := nodup_versionEntries ids
    rw [split] at nodup
    exact nodup.sublist (List.filter_sublist.append (List.Sublist.refl _))
  rw [← whole, List.nodup_middle, List.nodup_cons, List.mem_append, not_or] at once
  obtain ⟨-, -, eq⟩ := (List.append_cons_inj_of_notMem once.1.1 once.1.2).mp whole
  rw [shown, List.map_cons, List.cons_append, eq]

/-- The request that resumes at an entry. -/
def resumeAt (inp : ListVersionsInput) (x : ListEntry) : ListVersionsInput :=
  { inp with
    keyMarker := x.token
    versionIDMarker := (x.version?.map ObjectMeta.versionID).getD "" }

theorem requested_resumeAt {x : ListEntry} (split : e.versionEntries s inp = front ++ x :: rest) :
    e.requested s (resumeAt inp x) = Paging.resume ListEntry.isCommon (x :: rest) := by
  cases x with
  | version key v => exact requested_version ids split
  | common display => exact requested_common ids split

end Resumption

/-! ### All pages -/

/-- The request that continues after a page. -/
def nextVersions (inp : ListVersionsInput) (page : ListVersionsResult) : Option ListVersionsInput :=
  if page.isTruncated then
    some { inp with
      keyMarker := page.nextKeyMarker
      versionIDMarker := page.nextVersionIDMarker }
  else none

/-- A page shows these entries. -/
structure ShowsVersions (page : ListVersionsResult) (xs : List ListEntry) : Prop where
  versions : page.versions = (xs.filterMap ListEntry.version?).filter fun v => !v.deleteMarker
  deleteMarkers : page.deleteMarkers = (xs.filterMap ListEntry.version?).filter fun v => v.deleteMarker
  commonPrefixes : page.commonPrefixes = xs.filterMap ListEntry.common?

theorem showsVersions_add (xs : List ListEntry) :
    ShowsVersions (({} : ListVersionsResult).add xs) xs :=
  ⟨List.nil_append _, List.nil_append _, List.nil_append _⟩

/-- The request differs from the first one in its markers, and has these entries in front of it. -/
def AtVersions (e : Env) (s : Disk) (inp req : ListVersionsInput) (xs : List ListEntry) : Prop :=
  (∃ keyMarker versionIDMarker, req = { inp with keyMarker, versionIDMarker }) ∧
    xs <:+ e.versionEntries s inp ∧ e.requested s req = xs

theorem versions_pager {bm : BucketMeta} (found : e.readBucketMeta s inp.bucket = .ok bm)
    (ids : Identified e s inp.bucket) {size : Nat} (max : clampMax inp.maxKeys = size + 1) :
    Paging.Pager (e.listObjectVersions s) (nextVersions inp) ListEntry.isCommon size
      (e.AtVersions s inp) ShowsVersions := by
  have page : ∀ req xs, e.AtVersions s inp req xs →
      e.listObjectVersions s req = .ok (fillVersions (size + 1) xs {}) := by
    rintro req xs ⟨⟨keyMarker, versionIDMarker, rfl⟩, -, rfl⟩
    unfold listObjectVersions
    simp only [found, except_ok_bind, max, listVersionKeys_entries]
    rfl
  constructor
  · intro req xs place fits
    refine ⟨_, page req xs place, ?_⟩
    rw [fillVersions_fits (by simp only; omega)]
    exact ⟨showsVersions_add xs, rfl⟩
  · intro req xs place more
    have answer := page req xs place
    obtain ⟨-, ⟨front, all⟩, -⟩ := place
    obtain ⟨x, rest, left⟩ : ∃ x rest, xs.drop (size + 1) = x :: rest := by
      refine List.exists_cons_of_ne_nil fun empty => more ?_
      exact List.drop_eq_nil_iff.mp empty
    have cut : xs = xs.take (size + 1) ++ x :: rest := by
      rw [← left, List.take_append_drop]
    have count : (xs.take (size + 1)).length = size + 1 := by
      rw [List.length_take]
      omega
    have split : e.versionEntries s inp = (front ++ xs.take (size + 1)) ++ x :: rest := by
      rw [← all, List.append_assoc, ← cut]
    have filled : fillVersions (size + 1) xs {} =
        (({} : ListVersionsResult).add (xs.take (size + 1))).stop x := by
      conv_lhs => rw [cut]
      exact fillVersions_stops (by rw [count]; simp)
    rw [filled] at answer
    refine ⟨_, resumeAt inp x, answer, ?_, rfl, ⟨⟨_, _, rfl⟩, ?_, ?_⟩⟩
    · have shows := showsVersions_add (xs.take (size + 1))
      exact ⟨shows.versions, shows.deleteMarkers, shows.commonPrefixes⟩
    · rw [left, split]
      exact (Paging.resume_suffix _ _).trans (List.suffix_append _ _)
    · rw [left]
      exact requested_resumeAt ids split

/-! ### Completeness -/

/-- The keys whose versions are listed. -/
def listedKeys (e : Env) (s : Disk) (inp : ListVersionsInput) : List String :=
  (e.versionKeys s inp.bucket).filter fun key =>
    Text.hasPrefix key inp.pre && decide (Undelimited inp.pre inp.delimiter key)

/-- Every version, every delete marker and every common prefix appears once, in the order of the
keys and of their histories, and no page is too long. -/
structure VersionsComplete (e : Env) (s : Disk) (inp : ListVersionsInput)
    (pages : List ListVersionsResult) : Prop where
  versions : pages.flatMap (·.versions) =
    (e.listedKeys s inp).flatMap fun key =>
      (e.versionsOf s inp.bucket key).filter fun v => !v.deleteMarker
  deleteMarkers : pages.flatMap (·.deleteMarkers) =
    (e.listedKeys s inp).flatMap fun key =>
      (e.versionsOf s inp.bucket key).filter fun v => v.deleteMarker
  ordered : (pages.flatMap (·.commonPrefixes)).Pairwise (· < ·)
  commonPrefixes : ∀ display, display ∈ pages.flatMap (·.commonPrefixes) ↔
    ∃ key ∈ e.versionKeys s inp.bucket, Text.hasPrefix key inp.pre = true ∧
      RollsInto inp.pre inp.delimiter key display
  size : ∀ page ∈ pages,
    ((page.versions.length + page.deleteMarkers.length + page.commonPrefixes.length : Nat) : Int) ≤
      clampMax inp.maxKeys

theorem filterMap_version_entriesFrom {pre delimiter : String} {own : String → List ObjectMeta}
    {seen keys : List String} :
    (entriesFrom pre delimiter own seen keys).filterMap ListEntry.version? =
      (keys.filter fun key => Text.hasPrefix key pre && decide (Undelimited pre delimiter key)).flatMap own := by
  induction keys generalizing seen with
  | nil => rfl
  | cons key rest ih =>
    rw [List.filter_cons]
    cases line pre delimiter seen key with
    | other off => rw [entriesFrom_other off, off, Bool.false_and, if_neg Bool.false_ne_true, ih]
    | own begins plain =>
      have versions : ((own key).map (ListEntry.version key)).filterMap ListEntry.version? = own key := by
        rw [List.filterMap_map]
        exact List.filterMap_some
      rw [entriesFrom_own begins plain, begins, decide_eq_true (displayToken_self_iff.mp plain),
        List.filterMap_append, ih, versions]
      rfl
    | again begins display rolls known =>
      have rolled : ¬ Undelimited pre delimiter key := by
        rw [← displayToken_self_iff, rolls]
        simp
      rw [entriesFrom_again begins rolls known, decide_eq_false rolled, Bool.and_false,
        if_neg Bool.false_ne_true, ih]
    | first begins display rolls new =>
      have rolled : ¬ Undelimited pre delimiter key := by
        rw [← displayToken_self_iff, rolls]
        simp
      rw [entriesFrom_first begins rolls new, decide_eq_false rolled, Bool.and_false,
        if_neg Bool.false_ne_true, ← ih]
      rfl

theorem mem_filterMap_common : display ∈ xs.filterMap ListEntry.common? ↔ .common display ∈ xs := by
  rw [List.mem_filterMap]
  constructor
  · rintro ⟨x, mem, eq⟩
    cases x with
    | version key v => cases eq
    | common display' =>
      cases eq
      exact mem
  · exact fun mem => ⟨_, mem, rfl⟩

/-- The common prefixes of the whole listing. -/
theorem commons_versionEntries (e : Env) (s : Disk) (inp : ListVersionsInput) :
    ((e.versionEntries s inp).filterMap ListEntry.common?).Pairwise (· < ·) ∧
      ∀ display, display ∈ (e.versionEntries s inp).filterMap ListEntry.common? ↔
        ∃ key ∈ e.versionKeys s inp.bucket, Text.hasPrefix key inp.pre = true ∧
          RollsInto inp.pre inp.delimiter key display := by
  constructor
  · have sorted : (e.versionEntries s inp).Pairwise (ListEntry.Before fun _ _ => True) :=
      entriesFrom_pairwise (sorted_versionKeys _) fun _ _ => List.pairwise_of_forall fun _ _ => trivial
    refine sorted.filterMap _ fun x y before d mem d' mem' => ?_
    cases x with
    | version key v => cases mem
    | common display =>
      cases y with
      | version key v => cases mem'
      | common display' =>
        cases mem
        cases mem'
        rcases before with lt | ⟨key, v, w, eq, -⟩
        · exact lt
        · cases eq
  · intro display
    rw [mem_filterMap_common]
    refine mem_entriesFrom_common.trans ?_
    simp only [List.not_mem_nil, not_false_eq_true, true_and]
    exact exists_congr fun key => and_congr_right fun _ => and_congr_right fun begins =>
      displayToken_common_iff begins

theorem length_eq_commons (xs : List ListEntry) :
    xs.length = (xs.filterMap ListEntry.common?).length + (xs.filter fun x => !x.isCommon).length := by
  induction xs with
  | nil => rfl
  | cons x xs ih =>
    cases x with
    | version key v =>
      rw [List.filterMap_cons_none (by rfl), List.filter_cons_of_pos (by rfl), List.length_cons,
        List.length_cons, ih]
      omega
    | common display =>
      rw [List.filterMap_cons_some (b := display) (by rfl),
        List.filter_cons_of_neg (by simp [ListEntry.isCommon, ListEntry.common?]), List.length_cons,
        List.length_cons, ih]
      omega

theorem ShowsVersions.length {page : ListVersionsResult} (shows : ShowsVersions page xs) :
    page.versions.length + page.deleteMarkers.length + page.commonPrefixes.length = xs.length := by
  rw [shows.versions, shows.deleteMarkers, shows.commonPrefixes]
  clear shows
  induction xs with
  | nil => rfl
  | cons x xs ih =>
    cases x with
    | version key v =>
      cases marker : v.deleteMarker <;>
        simp [ListEntry.version?, ListEntry.common?, List.filterMap_cons, marker] <;> omega
    | common display =>
      simp [ListEntry.version?, ListEntry.common?, List.filterMap_cons]
      omega

section Totals

variable {pages : List ListVersionsResult} {parts : List (List ListEntry)}
  (shows : List.Forall₂ ShowsVersions pages parts)

include shows

theorem flatMap_versions :
    pages.flatMap (·.versions) =
      (parts.flatten.filterMap ListEntry.version?).filter fun v => !v.deleteMarker := by
  induction shows with
  | nil => rfl
  | cons shows _ ih =>
    rw [List.flatMap_cons, List.flatten_cons, List.filterMap_append, List.filter_append, ih,
      shows.versions]

theorem flatMap_deleteMarkers :
    pages.flatMap (·.deleteMarkers) =
      (parts.flatten.filterMap ListEntry.version?).filter fun v => v.deleteMarker := by
  induction shows with
  | nil => rfl
  | cons shows _ ih =>
    rw [List.flatMap_cons, List.flatten_cons, List.filterMap_append, List.filter_append, ih,
      shows.deleteMarkers]

theorem flatMap_commonPrefixes :
    pages.flatMap (·.commonPrefixes) = parts.flatten.filterMap ListEntry.common? := by
  induction shows with
  | nil => rfl
  | cons shows _ ih =>
    rw [List.flatMap_cons, List.flatten_cons, List.filterMap_append, ih, shows.commonPrefixes]

end Totals

/-- Following the markers of a version listing ends, and its pages are complete exactly when no
common prefix stands where a page has to break. -/
theorem version_pages_complete_iff (e : Env) (s : Disk) (bucket pre delimiter : String)
    (maxKeys : Int) (present : (e.readBucketMeta s bucket).isOk = true)
    (ids : Identified e s bucket) :
    (∃ fuel pages, Paging.follow (e.listObjectVersions s)
        (nextVersions { bucket, pre, delimiter, maxKeys }) fuel { bucket, pre, delimiter, maxKeys } =
          .ok (some pages) ∧ VersionsComplete e s { bucket, pre, delimiter, maxKeys } pages) ↔
      ∀ i x, (e.versionEntries s { bucket, pre, delimiter, maxKeys })[
        (i + 1) * (clampMax maxKeys).toNat]? = some x → x.isCommon = false := by
  set inp : ListVersionsInput := { bucket, pre, delimiter, maxKeys }
  obtain ⟨bm, found⟩ : ∃ bm, e.readBucketMeta s inp.bucket = .ok bm := by
    change ∃ bm, e.readBucketMeta s bucket = .ok bm
    cases found : e.readBucketMeta s bucket with
    | error err =>
      rw [found] at present
      cases present
    | ok bm => exact ⟨bm, rfl⟩
  have pos := clampMax_pos maxKeys
  obtain ⟨size, max⟩ : ∃ size : Nat, clampMax maxKeys = size + 1 :=
    ⟨(clampMax maxKeys - 1).toNat, by omega⟩
  have start : e.AtVersions s inp inp (e.versionEntries s inp) := by
    refine ⟨⟨"", "", rfl⟩, List.suffix_rfl, ?_⟩
    rw [requested, List.filter_eq_self.mpr fun key _ => by simp [visits, inp]]
    exact entriesFrom_congr fun key _ => rfl
  obtain ⟨pages, run, shows⟩ := (versions_pager found ids max).follow start (Nat.lt_succ_self _)
  rw [max, show ((size : Int) + 1).toNat = size + 1 from rfl, ← Paging.flatten_parts_eq_iff]
  constructor
  · rintro ⟨fuel, pages', run', complete⟩
    -- the same pages, with enough fuel for both
    obtain rfl : pages' = pages := by
      have := (Paging.follow_mono run' (Nat.le_max_left _ _)).symm.trans
        (Paging.follow_mono run (Nat.le_max_right fuel _))
      simpa using this
    have same : (Paging.parts ListEntry.isCommon size (e.versionEntries s inp)).flatten.filterMap
        ListEntry.common? = (e.versionEntries s inp).filterMap ListEntry.common? := by
      obtain ⟨ordered, members⟩ := commons_versionEntries e s inp
      rw [← flatMap_commonPrefixes shows]
      refine List.Perm.eq_of_pairwise (fun a b _ _ h h' => absurd h' (lt_asymm h)) complete.ordered
        ordered ?_
      refine (List.perm_ext_iff_of_nodup (complete.ordered.imp fun h => h.ne)
        (ordered.imp fun h => h.ne)).mpr fun display => ?_
      rw [complete.commonPrefixes, members]
    refine (Paging.flatten_parts_sublist _).eq_of_length ?_
    rw [length_eq_commons, length_eq_commons (e.versionEntries s inp), same,
      Paging.filter_flatten_parts]
  · intro all
    obtain ⟨ordered, members⟩ := commons_versionEntries e s inp
    have listed : (e.versionEntries s inp).filterMap ListEntry.version? =
        (e.listedKeys s inp).flatMap (e.versionsOf s inp.bucket) := filterMap_version_entriesFrom
    refine ⟨_, pages, run, ?_, ?_, ?_, ?_, fun page mem => ?_⟩
    · rw [flatMap_versions shows, all, listed, List.filter_flatMap]
    · rw [flatMap_deleteMarkers shows, all, listed, List.filter_flatMap]
    · rw [flatMap_commonPrefixes shows, all]
      exact ordered
    · rw [flatMap_commonPrefixes shows, all]
      exact members
    · obtain ⟨part, memPart, showsPart⟩ := Paging.exists_part shows mem
      have := Paging.length_of_mem_parts memPart
      rw [showsPart.length, show clampMax inp.maxKeys = size + 1 from max]
      omega

/-- Two keys, the second under a prefix. -/
def prefixAfterKey : List Input :=
  [.command Small.create, Small.payload 1, .command (Small.put "a" 1), Small.payload 2,
   .command (Small.put "c/x" 2)]

theorem prefix_after_key_pages :
    (∃ fuel pages, Paging.follow
        ((smallEnv false).listObjectVersions ((smallEnv false).feed prefixAfterKey (smallDisk false)))
        (nextVersions { bucket := "b", delimiter := "/", maxKeys := 2 }) fuel
        { bucket := "b", delimiter := "/", maxKeys := 2 } = .ok (some pages) ∧
      VersionsComplete (smallEnv false) ((smallEnv false).feed prefixAfterKey (smallDisk false))
        { bucket := "b", delimiter := "/", maxKeys := 2 } pages) ↔
      ∀ i x, ((smallEnv false).versionEntries
        ((smallEnv false).feed prefixAfterKey (smallDisk false))
        { bucket := "b", delimiter := "/", maxKeys := 2 })[(i + 1) * (clampMax 2).toNat]? = some x →
          x.isCommon = false :=
  version_pages_complete_iff (smallEnv false) _ "b" "" "/" 2 (by decide +kernel) (by decide +kernel)

/-- One entry to a page: the first page breaks at the prefix, and the second one is empty. -/
theorem common_prefix_skipped :
    Identified (smallEnv false) ((smallEnv false).feed prefixAfterKey (smallDisk false)) "b" ∧
      (Paging.follow
        ((smallEnv false).listObjectVersions ((smallEnv false).feed prefixAfterKey (smallDisk false)))
        (nextVersions { bucket := "b", delimiter := "/", maxKeys := 1 }) 9
        { bucket := "b", delimiter := "/", maxKeys := 1 }).toOption.join.map
          (fun pages => (pages.map (·.versions.length), pages.flatMap (·.commonPrefixes))) =
        some ([1, 0], []) ∧
      "c/x" ∈ (smallEnv false).versionKeys ((smallEnv false).feed prefixAfterKey (smallDisk false)) "b" ∧
      displayToken "c/x" "" "/" = ("c/", true) := by
  decide +kernel

end Env

end D9Store
