import D9Store.Backend.Display

/-!
The entries of a listing.

Both listings walk the sorted keys: a key under the delimiter gives its common prefix once, any
other key its own versions. Restricting the keys by their tokens restricts the entries, so a
listing that starts after a token shows what follows it in the full one.
-/

namespace D9Store

/-- An entry of a listing. -/
inductive ListEntry where
  | version (key : String) (v : ObjectMeta)
  | common (display : String)
  deriving DecidableEq

namespace ListEntry

/-- The display token. -/
def token : ListEntry → String
  | version key _ => key
  | common display => display

def version? : ListEntry → Option ObjectMeta
  | version _ v => some v
  | common _ => none

def common? : ListEntry → Option String
  | version _ _ => none
  | common display => some display

def isCommon (x : ListEntry) : Bool := x.common?.isSome

/-- The order of a listing: by token, and inside a key as `newer` says. -/
def Before (newer : ObjectMeta → ObjectMeta → Prop) (x y : ListEntry) : Prop :=
  x.token < y.token ∨ ∃ key v w, x = version key v ∧ y = version key w ∧ newer v w

end ListEntry

variable {pre delimiter key display : String} {own own' : String → List ObjectMeta}
    {keys seen : List String} {x : ListEntry}
  {newer : ObjectMeta → ObjectMeta → Prop}

/-- The entries of the keys, without the prefixes already `seen`. -/
def entriesFrom (pre delimiter : String) (own : String → List ObjectMeta) (seen : List String) :
    List String → List ListEntry
  | [] => []
  | key :: rest =>
    if Text.hasPrefix key pre then
      match displayToken key pre delimiter with
      | (display, true) =>
        if seen.contains display then entriesFrom pre delimiter own seen rest
        else .common display :: entriesFrom pre delimiter own (seen ++ [display]) rest
      | (_, false) => (own key).map (.version key) ++ entriesFrom pre delimiter own seen rest
    else entriesFrom pre delimiter own seen rest

/-- What the walk does at a key. -/
inductive Line (pre delimiter : String) (seen : List String) (key : String) : Prop
  | other (off : Text.hasPrefix key pre = false)
  | own (begins : Text.hasPrefix key pre = true) (plain : displayToken key pre delimiter = (key, false))
  | again (begins : Text.hasPrefix key pre = true) (display : String)
      (rolls : displayToken key pre delimiter = (display, true)) (known : display ∈ seen)
  | first (begins : Text.hasPrefix key pre = true) (display : String)
      (rolls : displayToken key pre delimiter = (display, true)) (new : display ∉ seen)

theorem line (pre delimiter : String) (seen : List String) (key : String) :
    Line pre delimiter seen key := by
  cases begins : Text.hasPrefix key pre with
  | false => exact .other begins
  | true =>
    rcases token : displayToken key pre delimiter with ⟨display, common⟩
    cases common with
    | false =>
      rw [displayToken_self token] at token
      exact .own begins token
    | true =>
      by_cases known : display ∈ seen
      · exact .again begins display token known
      · exact .first begins display token known

section Steps

variable {key display : String}

theorem entriesFrom_other (off : Text.hasPrefix key pre = false) :
    entriesFrom pre delimiter own seen (key :: keys) = entriesFrom pre delimiter own seen keys := by
  rw [entriesFrom, off, if_neg Bool.false_ne_true]

theorem entriesFrom_own (begins : Text.hasPrefix key pre = true)
    (plain : displayToken key pre delimiter = (key, false)) :
    entriesFrom pre delimiter own seen (key :: keys) =
      (own key).map (.version key) ++ entriesFrom pre delimiter own seen keys := by
  rw [entriesFrom, if_pos begins, plain]

theorem entriesFrom_again (begins : Text.hasPrefix key pre = true)
    (rolls : displayToken key pre delimiter = (display, true)) (known : display ∈ seen) :
    entriesFrom pre delimiter own seen (key :: keys) = entriesFrom pre delimiter own seen keys := by
  simp only [entriesFrom, begins, rolls, List.contains_iff_mem.mpr known, if_true]

theorem entriesFrom_first (begins : Text.hasPrefix key pre = true)
    (rolls : displayToken key pre delimiter = (display, true)) (new : display ∉ seen) :
    entriesFrom pre delimiter own seen (key :: keys) =
      .common display :: entriesFrom pre delimiter own (seen ++ [display]) keys := by
  simp only [entriesFrom, begins, rolls, if_true]
  exact if_neg fun h => new (List.contains_iff_mem.mp h)

end Steps

/-! ### Members -/

/-- An entry comes from a key with its token. -/
theorem mem_entriesFrom_version {v : ObjectMeta} :
    .version key v ∈ entriesFrom pre delimiter own seen keys ↔
      key ∈ keys ∧ Text.hasPrefix key pre = true ∧ displayToken key pre delimiter = (key, false) ∧
        v ∈ own key := by
  induction keys generalizing seen with
  | nil => simp [entriesFrom]
  | cons next rest ih =>
    have away : ¬ (Text.hasPrefix next pre = true ∧ displayToken next pre delimiter = (next, false)) →
        (.version key v ∈ entriesFrom pre delimiter own seen rest ↔
          key ∈ next :: rest ∧ Text.hasPrefix key pre = true ∧
            displayToken key pre delimiter = (key, false) ∧ v ∈ own key) := by
      intro no
      rw [ih, List.mem_cons]
      constructor
      · rintro ⟨mem, h⟩
        exact ⟨.inr mem, h⟩
      · rintro ⟨rfl | mem, h⟩
        · exact absurd ⟨h.1, h.2.1⟩ no
        · exact ⟨mem, h⟩
    cases line pre delimiter seen next with
    | other off =>
      rw [entriesFrom_other off]
      exact away fun h => Bool.false_ne_true (off.symm.trans h.1)
    | own begins plain =>
      rw [entriesFrom_own begins plain, List.mem_append, ih, List.mem_map, List.mem_cons]
      constructor
      · rintro (⟨w, mem, eq⟩ | ⟨mem, h⟩)
        · cases eq
          exact ⟨.inl rfl, begins, plain, mem⟩
        · exact ⟨.inr mem, h⟩
      · rintro ⟨rfl | mem, h⟩
        · exact .inl ⟨v, h.2.2, rfl⟩
        · exact .inr ⟨mem, h⟩
    | again begins display rolls known =>
      rw [entriesFrom_again begins rolls known]
      exact away fun h => by simp [rolls] at h
    | first begins display rolls new =>
      rw [entriesFrom_first begins rolls new, List.mem_cons, or_iff_right ListEntry.noConfusion, ih]
      rw [← away fun h => by simp [rolls] at h, ih]

theorem mem_entriesFrom_common :
    .common display ∈ entriesFrom pre delimiter own seen keys ↔
      display ∉ seen ∧ ∃ key ∈ keys, Text.hasPrefix key pre = true ∧
        displayToken key pre delimiter = (display, true) := by
  induction keys generalizing seen with
  | nil => simp [entriesFrom]
  | cons next rest ih =>
    have away : ¬ (display ∉ seen ∧ Text.hasPrefix next pre = true ∧
          displayToken next pre delimiter = (display, true)) →
        (.common display ∈ entriesFrom pre delimiter own seen rest ↔
          display ∉ seen ∧ ∃ key ∈ next :: rest, Text.hasPrefix key pre = true ∧
            displayToken key pre delimiter = (display, true)) := by
      intro no
      rw [ih]
      refine and_congr_right fun new => ?_
      rw [List.exists_mem_cons_iff, or_iff_right fun h => no ⟨new, h⟩]
    cases line pre delimiter seen next with
    | other off =>
      rw [entriesFrom_other off]
      exact away fun h => Bool.false_ne_true (off.symm.trans h.2.1)
    | own begins plain =>
      have none : ListEntry.common display ∉ (own next).map (ListEntry.version next) := by simp
      rw [entriesFrom_own begins plain, List.mem_append, or_iff_right none]
      exact away fun h => by simp [plain] at h
    | again begins display' rolls known =>
      rw [entriesFrom_again begins rolls known]
      refine away fun h => h.1 ?_
      have := h.2.2
      rw [rolls] at this
      cases this
      exact known
    | first begins display' rolls new =>
      rw [entriesFrom_first begins rolls new, List.mem_cons]
      by_cases same : display = display'
      · subst same
        refine ⟨fun _ => ⟨new, next, List.mem_cons_self, begins, rolls⟩, fun _ => .inl rfl⟩
      · rw [or_iff_right fun h => same (ListEntry.common.inj h), ih, ← away fun h => ?_, ih]
        · simp [same]
        · have := h.2.2
          rw [rolls] at this
          cases this
          exact same rfl

theorem token_of_mem (mem : x ∈ entriesFrom pre delimiter own seen keys) :
    ∃ key ∈ keys, Text.hasPrefix key pre = true ∧
      displayToken key pre delimiter = (x.token, x.isCommon) := by
  cases x with
  | version key v =>
    obtain ⟨mem, begins, plain, -⟩ := mem_entriesFrom_version.mp mem
    exact ⟨key, mem, begins, plain⟩
  | common display =>
    obtain ⟨-, key, mem, begins, rolls⟩ := mem_entriesFrom_common.mp mem
    exact ⟨key, mem, begins, rolls⟩

/-! ### Order -/

/-- The entries are in the order of a listing. -/
theorem entriesFrom_pairwise (asc : keys.Pairwise (· < ·))
    (inside : ∀ key ∈ keys, (own key).Pairwise newer) :
    (entriesFrom pre delimiter own seen keys).Pairwise (ListEntry.Before newer) := by
  induction keys generalizing seen with
  | nil => exact .nil
  | cons next rest ih =>
    obtain ⟨least, asc⟩ := List.pairwise_cons.mp asc
    have ih : ∀ {seen}, (entriesFrom pre delimiter own seen rest).Pairwise (ListEntry.Before newer) :=
      ih asc fun key mem => inside key (List.mem_cons_of_mem _ mem)
    -- the token of the first key is smaller than that of any entry it does not share
    have later : ∀ {seen' display common} {y : ListEntry}, Text.hasPrefix next pre = true →
        displayToken next pre delimiter = (display, common) →
        y ∈ entriesFrom pre delimiter own seen' rest →
        display < y.token ∨ (display = y.token ∧ common = true ∧ y.isCommon = true) := by
      intro seen' display common y begins token mem
      obtain ⟨key, memKey, begins', token'⟩ := token_of_mem mem
      exact displayToken_mono begins begins' (least key memKey) token token'
    cases line pre delimiter seen next with
    | other off =>
      rw [entriesFrom_other off]
      exact ih
    | own begins plain =>
      rw [entriesFrom_own begins plain]
      refine List.pairwise_append.mpr ⟨?_, ih, fun x mem y mem' => ?_⟩
      · refine (inside next List.mem_cons_self).map _ fun v w h => .inr ⟨next, v, w, rfl, rfl, h⟩
      · obtain ⟨v, -, rfl⟩ := List.mem_map.mp mem
        rcases later begins plain mem' with lt | ⟨-, no, -⟩
        · exact .inl lt
        · cases no
    | again begins display rolls known =>
      rw [entriesFrom_again begins rolls known]
      exact ih
    | first begins display rolls new =>
      rw [entriesFrom_first begins rolls new]
      refine List.pairwise_cons.mpr ⟨fun y mem => ?_, ih⟩
      rcases later begins rolls mem with lt | ⟨eq, -, common⟩
      · exact .inl lt
      · -- an entry for the same prefix would have been seen
        cases y with
        | version key v => cases common
        | common display' =>
          obtain rfl : display = display' := eq
          exact absurd (by simp) (mem_entriesFrom_common.mp mem).1

/-! ### Restriction to some tokens -/

/-- A prefix that no key rolls into may count as seen. -/
theorem entriesFrom_unseen (none : ∀ key ∈ keys, (displayToken key pre delimiter).1 ≠ display)
    {before after : List String} :
    entriesFrom pre delimiter own (before ++ display :: after) keys =
      entriesFrom pre delimiter own (before ++ after) keys := by
  induction keys generalizing after with
  | nil => rfl
  | cons next rest ih =>
    have ih : ∀ {after}, entriesFrom pre delimiter own (before ++ display :: after) rest =
        entriesFrom pre delimiter own (before ++ after) rest :=
      ih fun key mem => none key (List.mem_cons_of_mem _ mem)
    cases line pre delimiter (before ++ after) next with
    | other off => rw [entriesFrom_other off, entriesFrom_other off, ih]
    | own begins plain => rw [entriesFrom_own begins plain, entriesFrom_own begins plain, ih]
    | again begins display' rolls known =>
      rw [entriesFrom_again begins rolls known, entriesFrom_again begins rolls, ih]
      simp only [List.mem_append, List.mem_cons] at known ⊢
      tauto
    | first begins display' rolls new =>
      have ne : display' ≠ display := by
        have := none next List.mem_cons_self
        rwa [rolls] at this
      have new' : display' ∉ before ++ display :: after := by
        simp only [List.mem_append, List.mem_cons] at new ⊢
        tauto
      rw [entriesFrom_first begins rolls new, entriesFrom_first begins rolls new']
      simp only [List.append_assoc, List.cons_append]
      rw [ih]

/-- Choosing keys by their tokens chooses entries by their tokens. -/
theorem entriesFrom_filter (p : String → Bool) :
    entriesFrom pre delimiter own seen (keys.filter fun key => p (displayToken key pre delimiter).1) =
      (entriesFrom pre delimiter own seen keys).filter fun x => p x.token := by
  induction keys generalizing seen with
  | nil => rfl
  | cons next rest ih =>
    rw [List.filter_cons]
    cases line pre delimiter seen next with
    | other off =>
      rw [entriesFrom_other off, ← ih]
      split
      · rw [entriesFrom_other off]
      · rfl
    | own begins plain =>
      have same : ((own next).map (ListEntry.version next)).filter (fun x => p x.token) =
          if p next then (own next).map (ListEntry.version next) else [] := by
        split
        · rename_i yes
          rw [List.filter_eq_self]
          intro x mem
          obtain ⟨v, -, rfl⟩ := List.mem_map.mp mem
          exact yes
        · rename_i no
          rw [List.filter_eq_nil_iff]
          intro x mem
          obtain ⟨v, -, rfl⟩ := List.mem_map.mp mem
          exact no
      rw [entriesFrom_own begins plain, List.filter_append, same, ← ih, plain]
      split
      · rw [entriesFrom_own begins plain]
      · rfl
    | again begins display rolls known =>
      rw [entriesFrom_again begins rolls known, ← ih]
      split
      · rw [entriesFrom_again begins rolls known]
      · rfl
    | first begins display rolls new =>
      rw [entriesFrom_first begins rolls new, List.filter_cons, ← ih, rolls]
      change _ = if p display = true then _ else _
      split
      · rw [entriesFrom_first begins rolls new]
      · rename_i no
        refine (List.append_nil seen ▸ entriesFrom_unseen fun key mem eq => no ?_).symm
        exact eq ▸ (List.mem_filter.mp mem).2

/-- Keys without the prefix give nothing. -/
theorem entriesFrom_hasPrefix :
    entriesFrom pre delimiter own seen (keys.filter fun key => Text.hasPrefix key pre) =
      entriesFrom pre delimiter own seen keys := by
  induction keys generalizing seen with
  | nil => rfl
  | cons next rest ih =>
    rw [List.filter_cons]
    cases line pre delimiter seen next with
    | other off => rw [entriesFrom_other off, off, if_neg Bool.false_ne_true, ih]
    | own begins plain =>
      rw [if_pos begins, entriesFrom_own begins plain, entriesFrom_own begins plain, ih]
    | again begins display rolls known =>
      rw [if_pos begins, entriesFrom_again begins rolls known, entriesFrom_again begins rolls known,
        ih]
    | first begins display rolls new =>
      rw [if_pos begins, entriesFrom_first begins rolls new, entriesFrom_first begins rolls new, ih]

theorem entriesFrom_congr (same : ∀ key ∈ keys, own key = own' key) :
    entriesFrom pre delimiter own seen keys = entriesFrom pre delimiter own' seen keys := by
  induction keys generalizing seen with
  | nil => rfl
  | cons next rest ih =>
    have ih : ∀ {seen}, entriesFrom pre delimiter own seen rest =
        entriesFrom pre delimiter own' seen rest :=
      ih fun key mem => same key (List.mem_cons_of_mem _ mem)
    cases line pre delimiter seen next with
    | other off => rw [entriesFrom_other off, entriesFrom_other off, ih]
    | own begins plain =>
      rw [entriesFrom_own begins plain, entriesFrom_own begins plain, ih,
        same next List.mem_cons_self]
    | again begins display rolls known =>
      rw [entriesFrom_again begins rolls known, entriesFrom_again begins rolls known, ih]
    | first begins display rolls new =>
      rw [entriesFrom_first begins rolls new, entriesFrom_first begins rolls new, ih]

/-- What follows an entry is what has a greater token, and the rest of its key. -/
theorem filter_token_lt {xs front rest : List ListEntry}
    (sorted : xs.Pairwise (ListEntry.Before newer)) (split : xs = front ++ x :: rest)
    (single : ∀ y ∈ rest, x.token < y.token) :
    xs.filter (fun y => decide (x.token < y.token)) = rest := by
  rw [split, List.pairwise_append, List.pairwise_cons] at sorted
  have none : (front ++ [x]).filter (fun y => decide (x.token < y.token)) = [] := by
    rw [List.filter_eq_nil_iff]
    intro y mem
    rw [decide_eq_true_eq, not_lt]
    rcases List.mem_append.mp mem with mem | mem
    · rcases sorted.2.2 y mem x List.mem_cons_self with lt | ⟨key, v, w, rfl, rfl, -⟩
      · exact lt.le
      · exact le_refl key
    · rw [List.mem_singleton.mp mem]
  rw [split, List.append_cons, List.filter_append, none, List.nil_append, List.filter_eq_self]
  exact fun y mem => decide_eq_true (single y mem)

end D9Store
