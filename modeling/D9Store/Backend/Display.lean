import D9Store.Backend.Listing

/-!
Display tokens.

A key stands in a listing under its display token: the common prefix it rolls into, or itself.
In the order of the keys the tokens never decrease, and only keys that roll into one prefix share
a token, although that prefix is smaller than each of them.
-/

namespace D9Store

open Posix

/-! ### Prefixes in lexicographic order -/

section Lex

variable {α : Type} [LinearOrder α]

theorem cons_le_cons_iff {x y : α} {p a : List α} : x :: p ≤ y :: a ↔ x < y ∨ x = y ∧ p ≤ a := by
  rw [← not_lt, ← not_lt (b := p), List.cons_lt_cons_iff]
  constructor
  · intro h
    rw [not_or, not_and] at h
    rcases lt_trichotomy x y with lt | eq | gt
    · exact .inl lt
    · exact .inr ⟨eq, h.2 eq.symm⟩
    · exact absurd gt h.1
  · rintro (lt | ⟨rfl, le⟩) (lt' | ⟨eq, lt'⟩)
    · exact lt_asymm lt lt'
    · exact lt.ne' eq
    · exact lt_irrefl _ lt'
    · exact le lt'

theorem le_of_isPrefix {p b : List α} (h : p <+: b) : p ≤ b := by
  obtain ⟨rest, rfl⟩ := h
  induction p with
  | nil => exact not_lt.mp (List.not_lt_nil _)
  | cons x p ih => exact cons_le_cons_iff.mpr (.inr ⟨rfl, ih⟩)

/-- What lies between a prefix and the whole begins with that prefix. -/
theorem isPrefix_of_between {p a b : List α} (h : p <+: b) (above : p ≤ a) (below : a ≤ b) :
    p <+: a := by
  obtain ⟨rest, rfl⟩ := h
  induction p generalizing a with
  | nil => exact List.nil_prefix
  | cons x p ih =>
    cases a with
    | nil => exact absurd above (not_le.mpr (List.nil_lt_cons x p))
    | cons y a =>
      rw [cons_le_cons_iff] at above
      rw [List.cons_append, cons_le_cons_iff] at below
      rcases above with lt | ⟨rfl, above⟩
      · rcases below with lt' | ⟨rfl, -⟩
        · exact absurd (lt.trans lt') (lt_irrefl x)
        · exact absurd lt (lt_irrefl _)
      · rcases below with lt' | ⟨-, below⟩
        · exact absurd lt' (lt_irrefl x)
        · exact List.cons_prefix_cons.mpr ⟨rfl, ih above below⟩

end Lex

/-! ### First occurrences -/

theorem beforeSub_some {sub l before : List Char} (h : beforeSub sub l = some before) :
    before ++ sub <+: l ∧ ∀ other, other ++ sub <+: l → before.length ≤ other.length := by
  induction l generalizing before with
  | nil =>
    rw [beforeSub] at h
    split at h
    · rename_i empty
      cases h
      exact ⟨by simp [empty], fun _ _ => Nat.zero_le _⟩
    · cases h
  | cons c rest ih =>
    rw [beforeSub] at h
    split at h
    · rename_i here
      cases h
      exact ⟨List.isPrefixOf_iff_prefix.mp here, fun _ _ => Nat.zero_le _⟩
    · rename_i later
      obtain ⟨before', found, rfl⟩ := Option.map_eq_some_iff.mp h
      obtain ⟨occurs, first⟩ := ih found
      refine ⟨List.cons_prefix_cons.mpr ⟨rfl, occurs⟩, fun other found' => ?_⟩
      cases other with
      | nil => exact absurd (List.isPrefixOf_iff_prefix.mpr found') later
      | cons d other =>
        obtain ⟨-, found'⟩ := List.cons_prefix_cons.mp found'
        exact Nat.succ_le_succ (first other found')

theorem beforeSub_none {sub l : List Char} (h : beforeSub sub l = none) (other : List Char) :
    ¬ other ++ sub <+: l := by
  induction l generalizing other with
  | nil =>
    intro found
    rw [beforeSub] at h
    split at h
    · cases h
    · rename_i ne
      exact ne (List.append_eq_nil_iff.mp (List.prefix_nil.mp found)).2
  | cons c rest ih =>
    intro found
    rw [beforeSub] at h
    split at h
    · cases h
    · rename_i later
      cases other with
      | nil => exact later (List.isPrefixOf_iff_prefix.mpr found)
      | cons d other => exact ih (Option.map_eq_none_iff.mp h) other (List.cons_prefix_cons.mp found).2

/-- Lists that begin with the text up to the first occurrence have their first occurrence there. -/
theorem beforeSub_of_isPrefix {sub l l' before : List Char} (h : beforeSub sub l = some before)
    (same : before ++ sub <+: l') : beforeSub sub l' = some before := by
  obtain ⟨occurs, first⟩ := beforeSub_some h
  cases found : beforeSub sub l' with
  | none => exact absurd same (beforeSub_none found before)
  | some before' =>
    obtain ⟨occurs', first'⟩ := beforeSub_some found
    have short : before'.length ≤ before.length := first' before same
    have inner : before' ++ sub <+: before ++ sub :=
      List.prefix_of_prefix_length_le occurs' same (by simpa using short)
    have long : before.length ≤ before'.length := first before' (inner.trans occurs)
    have eq : before' ++ sub = before ++ sub := inner.eq_of_length (by simp; omega)
    rw [List.append_cancel_right eq]

/-! ### Display tokens -/

variable {pre delimiter key key' display display' : String} {common common' : Bool}

theorem hasPrefix_iff : Text.hasPrefix key pre = true ↔ pre.toList <+: key.toList := List.isPrefixOf_iff_prefix

theorem hasPrefix_ne_empty (h : Text.hasPrefix key pre = false) : pre ≠ "" := by
  rintro rfl
  cases h

/-- A token is a common prefix that begins the key, or the key. -/
theorem displayToken_common (h : displayToken key pre delimiter = (display, true)) :
    delimiter ≠ "" ∧ ∃ before, display.toList = pre.toList ++ (before ++ delimiter.toList) ∧
      beforeSub delimiter.toList (key.toList.drop pre.length) = some before := by
  unfold displayToken at h
  split at h
  · cases h
  · rename_i ne
    split at h
    · rename_i before found
      cases h
      exact ⟨ne, before, by simp, found⟩
    · cases h

theorem displayToken_self (h : displayToken key pre delimiter = (display, false)) : display = key := by
  unfold displayToken at h
  split at h
  · exact (congrArg Prod.fst h).symm
  · split at h
    · cases h
    · exact (congrArg Prod.fst h).symm

theorem display_isPrefix (begins : Text.hasPrefix key pre = true)
    (h : displayToken key pre delimiter = (display, true)) : display.toList <+: key.toList := by
  obtain ⟨-, before, eq, found⟩ := displayToken_common h
  obtain ⟨rest, split⟩ := hasPrefix_iff.mp begins
  rw [← split, List.drop_left' String.length_toList] at found
  rw [eq, ← split]
  exact (List.prefix_append_right_inj _).mpr (beforeSub_some found).1

theorem display_le (begins : Text.hasPrefix key pre = true)
    (h : displayToken key pre delimiter = (display, common)) : display ≤ key := by
  cases common with
  | true => exact String.le_iff_toList_le.mpr (le_of_isPrefix (display_isPrefix begins h))
  | false => exact (displayToken_self h).le

/-- A common prefix is the token of every key it begins. -/
theorem displayToken_of_isPrefix (begins' : Text.hasPrefix key' pre = true)
    (h : displayToken key pre delimiter = (display, true)) (under : display.toList <+: key'.toList) :
    displayToken key' pre delimiter = (display, true) := by
  obtain ⟨ne, before, eq, found⟩ := displayToken_common h
  obtain ⟨rest', split'⟩ := hasPrefix_iff.mp begins'
  have rolled : beforeSub delimiter.toList (key'.toList.drop pre.length) = some before := by
    refine beforeSub_of_isPrefix found ?_
    rw [eq, ← split', List.prefix_append_right_inj] at under
    rw [← split', List.drop_left' String.length_toList]
    exact under
  unfold displayToken
  rw [if_neg ne, rolled]
  refine Prod.ext (String.toList_inj.mp ?_) rfl
  rw [eq]
  simp

/-! ### What rolls into what -/

/-- The prefix up to the first delimiter after `pre`. -/
def RollsInto (pre delimiter key display : String) : Prop :=
  delimiter ≠ "" ∧ ∃ before rest,
    key.toList = pre.toList ++ (before ++ (delimiter.toList ++ rest)) ∧
    display.toList = pre.toList ++ (before ++ delimiter.toList) ∧
    ∀ before' rest', key.toList = pre.toList ++ (before' ++ (delimiter.toList ++ rest')) →
      before.length ≤ before'.length

/-- No delimiter stands after `pre`. -/
def Undelimited (pre delimiter key : String) : Prop :=
  delimiter = "" ∨ ¬ delimiter.toList <:+: key.toList.drop pre.length

instance (pre delimiter key : String) : Decidable (Undelimited pre delimiter key) := by
  unfold Undelimited; infer_instance

/-- An occurrence after the prefix, in the text of the key and in what follows the prefix. -/
theorem occurs_iff (begins : Text.hasPrefix key pre = true) {before sub : List Char} :
    before ++ sub <+: key.toList.drop pre.length ↔
      ∃ rest, key.toList = pre.toList ++ (before ++ (sub ++ rest)) := by
  obtain ⟨tail, split⟩ := hasPrefix_iff.mp begins
  rw [← split, List.drop_left' String.length_toList]
  simp only [List.append_cancel_left_eq]
  constructor
  · rintro ⟨rest, rfl⟩
    exact ⟨rest, List.append_assoc _ _ _⟩
  · rintro ⟨rest, rfl⟩
    exact ⟨rest, List.append_assoc _ _ _⟩

theorem displayToken_common_iff (begins : Text.hasPrefix key pre = true) :
    displayToken key pre delimiter = (display, true) ↔ RollsInto pre delimiter key display := by
  constructor
  · intro h
    obtain ⟨ne, before, eq, found⟩ := displayToken_common h
    obtain ⟨occurs, first⟩ := beforeSub_some found
    obtain ⟨rest, split⟩ := (occurs_iff begins).mp occurs
    exact ⟨ne, before, rest, split, eq, fun before' rest' split' =>
      first before' ((occurs_iff begins).mpr ⟨rest', split'⟩)⟩
  · rintro ⟨ne, before, rest, split, eq, first⟩
    have occurs := (occurs_iff begins).mpr ⟨rest, split⟩
    cases found : beforeSub delimiter.toList (key.toList.drop pre.length) with
    | none => exact absurd occurs (beforeSub_none found before)
    | some before' =>
      obtain ⟨occurs', first'⟩ := beforeSub_some found
      obtain ⟨rest', split'⟩ := (occurs_iff begins).mp occurs'
      have same : before' ++ delimiter.toList = before ++ delimiter.toList := by
        have short := first' before occurs
        have long := first before' rest' split'
        exact (List.prefix_of_prefix_length_le occurs' occurs (by simp; omega)).eq_of_length
          (by simp; omega)
      unfold displayToken
      rw [if_neg ne, found]
      refine Prod.ext (String.toList_inj.mp ?_) rfl
      simp [eq, List.append_cancel_right same]

theorem displayToken_self_iff :
    displayToken key pre delimiter = (key, false) ↔ Undelimited pre delimiter key := by
  unfold displayToken Undelimited
  by_cases empty : delimiter = ""
  · simp [empty]
  · rw [if_neg empty, or_iff_right empty]
    cases found : beforeSub delimiter.toList (key.toList.drop pre.length) with
    | none =>
      refine iff_of_true rfl ?_
      rintro ⟨before, rest, split⟩
      exact beforeSub_none found before ⟨rest, split⟩
    | some before =>
      obtain ⟨rest, split⟩ := (beforeSub_some found).1
      exact iff_of_false (fun h => Bool.noConfusion (congrArg Prod.snd h)) fun none =>
        none ⟨before, rest, split⟩

/-! ### Tokens in the order of the keys -/

/-- Tokens follow the keys: they increase, or the keys roll into one prefix. -/
theorem displayToken_mono (begins : Text.hasPrefix key pre = true) (begins' : Text.hasPrefix key' pre = true)
    (lt : key < key') (h : displayToken key pre delimiter = (display, common))
    (h' : displayToken key' pre delimiter = (display', common')) :
    display < display' ∨ (display = display' ∧ common = true ∧ common' = true) := by
  cases common' with
  | false =>
    rw [displayToken_self h']
    exact .inl ((display_le begins h).trans_lt lt)
  | true =>
    by_cases above : display' ≤ key
    · have under : display'.toList <+: key.toList :=
        isPrefix_of_between (display_isPrefix begins' h') (String.le_iff_toList_le.mp above)
          (String.le_iff_toList_le.mp lt.le)
      have same := displayToken_of_isPrefix begins h' under
      rw [h] at same
      cases same
      exact .inr ⟨rfl, rfl, rfl⟩
    · exact .inl ((display_le begins h).trans_lt (not_le.mp above))

end D9Store
