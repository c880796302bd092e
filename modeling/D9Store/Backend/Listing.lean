import D9Store.Backend.Reads

/-!
Pages of `ListObjectsV2`.

Without prefix and delimiter the loop goes through the sorted keys and emits those with a live
latest version until the page is full; the next page continues after the last emitted key. The
pages together list every such key once.
-/

namespace D9Store

open Posix

/-- Pairs in the order of their first components. -/
def Ascending {α : Type} (ps : List (String × α)) : Prop := ps.Pairwise fun p q => p.1 < q.1

/-- What follows an element of an ascending list is what is greater than it. -/
theorem filter_after_take {α : Type} {ps : List (String × α)} (asc : Ascending ps) {n : Nat}
    {last : String × α} (found : (ps.take n).getLast? = some last) :
    ps.filter (fun p => decide (last.1 < p.1)) = ps.drop n := by
  obtain ⟨init, eq⟩ := List.getLast?_eq_some_iff.mp found
  have whole : ps = init ++ [last] ++ ps.drop n := by rw [← eq, List.take_append_drop]
  rw [Ascending, whole, List.pairwise_append, List.pairwise_append] at asc
  obtain ⟨⟨-, -, before⟩, -, after⟩ := asc
  have none : (init ++ [last]).filter (fun p => decide (last.1 < p.1)) = [] := by
    rw [List.filter_eq_nil_iff]
    intro p mem
    rw [decide_eq_true_eq, not_lt]
    rcases List.mem_append.mp mem with h | h
    · exact (before p h last List.mem_cons_self).le
    · exact (congrArg Prod.fst (List.mem_singleton.mp h)).le
  have all : (ps.drop n).filter (fun p => decide (last.1 < p.1)) = ps.drop n := by
    rw [List.filter_eq_self]
    exact fun p mem => decide_eq_true (after last (by simp) p mem)
  conv_lhs => rw [whole]
  rw [List.filter_append, none, all, List.nil_append]

namespace Env

variable {e : Env} {s : Disk} {bucket after token : String} {keys : List String} {maxKeys : Int}
    {n : Nat}

/-- What a listing shows of a key. -/
def shown (e : Env) (s : Disk) (bucket key : String) : Option ObjectMeta :=
  match e.readKeyMeta s bucket key with
  | .error _ => none
  | .ok km => km.latest.filter fun v => !v.deleteMarker

/-- The keys of a listing with what it shows of them. -/
def showing (e : Env) (s : Disk) (bucket : String) (keys : List String) : List (String × ObjectMeta) :=
  keys.filterMap fun key => (e.shown s bucket key).map fun v => (key, v)

/-- The part of a listing after a token. -/
def pending (e : Env) (s : Disk) (bucket after : String) (keys : List String) :
    List (String × ObjectMeta) :=
  (e.showing s bucket keys).filter fun p => after == "" || decide (after < p.1)

/-! ### One page -/

/-- The loop over what there is to show. -/
def fill (max : Int) : List (String × ObjectMeta) → ListState → ListResult
  | [], st => st.res
  | (key, v) :: rest, st =>
    if st.count ≥ max then
      { st.res with isTruncated := true, nextToken := st.lastEmitted, nextMarker := st.lastEmitted }
    else
      fill max rest
        { res := { st.res with objects := st.res.objects ++ [v] }
          count := st.count + 1
          lastEmitted := key }

theorem pending_cons (bucket after key : String) (rest : List String) :
    e.pending s bucket after (key :: rest) =
      (match e.shown s bucket key with
        | some v => if after = "" ∨ after < key then [(key, v)] else []
        | none => []) ++ e.pending s bucket after rest := by
  unfold pending showing
  cases shown : e.shown s bucket key with
  | none => simp [shown]
  | some v => simp [shown, List.filter_cons]; split <;> simp_all

theorem listKeys_eq {inp : ListInput} (pre : inp.pre = "") (delimiter : inp.delimiter = "")
    (after : String) (max : Int) (keys : List String) (st : ListState) :
    e.listKeys s inp after max keys st = fill max (e.pending s inp.bucket after keys) st := by
  induction keys generalizing st with
  | nil => rfl
  | cons key rest ih =>
    rw [pending_cons, listKeys]
    simp only [pre, delimiter, displayToken, ne_eq, not_true_eq_false, false_and, if_false, if_true,
      Bool.false_eq_true]
    by_cases past : ¬ after = "" ∧ key ≤ after
    · have skip : ¬ (after = "" ∨ after < key) := fun h => h.elim past.1 (not_lt.mpr past.2)
      rw [if_pos past, ih]
      cases e.shown s inp.bucket key <;> simp only [skip, if_false, List.nil_append]
    · have here : after = "" ∨ after < key := by
        by_contra h
        exact past ⟨fun eq => h (.inl eq), not_lt.mp fun lt => h (.inr lt)⟩
      rw [if_neg past]
      simp only [here, if_true]
      unfold shown
      cases e.readKeyMeta s inp.bucket key with
      | error err => exact ih st
      | ok km =>
        cases latest : km.latest with
        | none => simpa [latest] using ih st
        | some v =>
          cases marker : v.deleteMarker with
          | true => simpa [latest, marker, Option.filter] using ih st
          | false => simp [latest, marker, Option.filter, fill, ih]

/-- A page takes what fits, and says where the next one starts. -/
theorem fill_eq (max : Int) (ps : List (String × ObjectMeta)) (st : ListState) :
    fill max ps st =
      if ps.length ≤ (max - st.count).toNat then
        { st.res with objects := st.res.objects ++ ps.map Prod.snd }
      else
        { st.res with
          objects := st.res.objects ++ (ps.take (max - st.count).toNat).map Prod.snd
          isTruncated := true
          nextToken := ((ps.take (max - st.count).toNat).getLast?.map Prod.fst).getD st.lastEmitted
          nextMarker :=
            ((ps.take (max - st.count).toNat).getLast?.map Prod.fst).getD st.lastEmitted } := by
  induction ps generalizing st with
  | nil => simp [fill]
  | cons p rest ih =>
    obtain ⟨key, v⟩ := p
    rw [fill]
    split
    · rename_i full
      have none : (max - st.count).toNat = 0 := by omega
      simp [none]
    · rename_i room
      obtain ⟨n, eq⟩ : ∃ n, (max - st.count).toNat = n + 1 := ⟨(max - st.count).toNat - 1, by omega⟩
      have eq' : (max - (st.count + 1)).toNat = n := by omega
      rw [ih]
      simp only [eq, eq', List.length_cons, Nat.add_le_add_iff_right, List.take_succ_cons, List.map_cons,
        List.append_assoc, List.singleton_append]
      split
      · rfl
      · congr 1 <;> cases rest.take n <;> simp [List.getLast?_cons]

/-! ### All pages -/

/-- The objects of all pages, each page continuing where the last one ended. -/
def allPages (e : Env) (s : Disk) (bucket : String) (maxKeys : Int) : Nat → String → List ObjectMeta
  | 0, _ => []
  | n + 1, token =>
    match e.listObjectsV2 s { bucket, maxKeys, continuationToken := token } with
    | .error _ => []
    | .ok page =>
      page.objects ++ if page.isTruncated then e.allPages s bucket maxKeys n page.nextToken else []

theorem clampMax_pos (n : Int) : 0 < clampMax n := by
  unfold clampMax
  split <;> omega

theorem ascending_showing (asc : keys.Pairwise (· < ·)) : Ascending (e.showing s bucket keys) := by
  unfold Ascending showing
  refine asc.filterMap _ fun a b lt p mem q mem' => ?_
  obtain ⟨v, -, rfl⟩ := Option.map_eq_some_iff.mp mem
  obtain ⟨w, -, rfl⟩ := Option.map_eq_some_iff.mp mem'
  exact lt

/-- The part after a later token is a part of the part after an earlier one. -/
theorem pending_later (named : token ≠ "") (later : after = "" ∨ after < token) :
    e.pending s bucket token keys =
      (e.pending s bucket after keys).filter fun p => decide (token < p.1) := by
  unfold pending
  rw [List.filter_filter]
  refine List.filter_congr fun p _ => ?_
  by_cases lt : token < p.1
  · have : after = "" ∨ after < p.1 := later.imp_right fun h => h.trans lt
    rcases this with h | h <;> simp [lt, h]
  · simp [lt, named]

theorem length_pending : (e.pending s bucket after keys).length ≤ keys.length :=
  (List.length_filter_le _ _).trans (List.length_filterMap_le _ _)

/-- What there is to list at the start. -/
theorem mem_pending_all {p : String × ObjectMeta} :
    p ∈ e.pending s bucket "" keys ↔ p.1 ∈ keys ∧ e.shown s bucket p.1 = some p.2 := by
  simp only [pending, showing, List.mem_filter, List.mem_filterMap, beq_self_eq_true, Bool.true_or,
    and_true, Option.map_eq_some_iff]
  constructor
  · rintro ⟨key, mem, v, shown, rfl⟩
    exact ⟨mem, shown⟩
  · rintro ⟨mem, shown⟩
    exact ⟨p.1, mem, p.2, shown, rfl⟩

theorem allPages_missing {err : Err} (missing : e.readBucketMeta s bucket = .error err) :
    e.allPages s bucket maxKeys n token = [] := by
  cases n with
  | zero => rfl
  | succ n => simp [allPages, listObjectsV2, missing]

/-- All pages together show every key once. -/
theorem allPages_eq {bm : BucketMeta} (found : e.readBucketMeta s bucket = .ok bm)
    (named : "" ∉ e.walkObjectTree s bucket) (asc : (e.walkObjectTree s bucket).Pairwise (· < ·))
    (fuel : (e.pending s bucket token (e.walkObjectTree s bucket)).length < n) :
    e.allPages s bucket maxKeys n token =
      (e.pending s bucket token (e.walkObjectTree s bucket)).map Prod.snd := by
  induction n generalizing token with
  | zero => omega
  | succ n ih =>
    have page : e.listObjectsV2 s { bucket, maxKeys, continuationToken := token } =
        .ok (fill (clampMax maxKeys) (e.pending s bucket token (e.walkObjectTree s bucket)) {}) := by
      have cont : (if token = "" then "" else token) = token := by
        by_cases h : token = "" <;> simp [h]
      unfold listObjectsV2
      simp only [found, except_ok_bind, ne_eq, not_true_eq_false, if_false, cont]
      rw [listKeys_eq rfl rfl]
    rw [allPages, page, fill_eq]
    generalize walk : e.walkObjectTree s bucket = keys at *
    generalize pend : e.pending s bucket token keys = ps at *
    have pos := clampMax_pos maxKeys
    obtain ⟨k, size⟩ : ∃ k, (clampMax maxKeys - 0).toNat = k + 1 :=
      ⟨(clampMax maxKeys - 0).toNat - 1, by omega⟩
    simp only [size]
    by_cases fits : ps.length ≤ k + 1
    · simp [fits]
    · have taken : ps.take (k + 1) ≠ [] := by
        intro empty
        have := congrArg List.length empty
        rw [List.length_take] at this
        simp only [List.length_nil] at this
        omega
      obtain ⟨last, found⟩ : ∃ last, (ps.take (k + 1)).getLast? = some last :=
        ⟨_, List.getLast?_eq_some_getLast taken⟩
      have mem : last ∈ e.pending s bucket token keys := by
        rw [pend]
        exact List.mem_of_mem_take (List.mem_of_getLast? found)
      obtain ⟨shown, later⟩ := List.mem_filter.mp mem
      obtain ⟨key, memKey, eq⟩ := List.mem_filterMap.mp shown
      obtain ⟨v, -, rfl⟩ := Option.map_eq_some_iff.mp eq
      have rest : e.pending s bucket key keys = ps.drop (k + 1) := by
        rw [pending_later (fun h => named (h ▸ memKey)) (by simpa using later), pend]
        refine filter_after_take ?_ found
        rw [← pend]
        exact (ascending_showing asc).filter _
      have fuel' : (e.pending s bucket key keys).length < n := by
        rw [rest, List.length_drop]
        omega
      simp only [fits, if_false, found, Option.map_some, Option.getD_some, if_true, List.nil_append]
      rw [ih fuel', rest, ← List.map_append, List.take_append_drop]

end Env

end D9Store
