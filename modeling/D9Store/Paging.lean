import Mathlib

/-!
Following cursors through a list of entries.

A source answers a cursor with one page and, when entries are left, with the next cursor.
`parts` says which entries the pages show when every page holds `size` of them and the cursor
after it may step over the entry it stopped at; the pages show all entries exactly when no page
stops at an entry of that kind.
-/

namespace Paging

variable {α E C P : Type} {page : C → Except E P} {next : P → Option C} {fuel size : Nat} {c : C}
    {pages : List P} {Shows : P → List α → Prop}

/-- The pages from a cursor on; `none` when the fuel does not reach the last one. -/
def follow (page : C → Except E P) (next : P → Option C) : Nat → C → Except E (Option (List P))
  | 0, _ => .ok none
  | fuel + 1, c =>
    match page c with
    | .error err => .error err
    | .ok p =>
      match next p with
      | none => .ok (some [p])
      | some c' => (follow page next fuel c').map (Option.map (p :: ·))

/-- The first page answers the first cursor. -/
theorem follow_head (h : follow page next fuel c = .ok (some pages)) :
    ∃ p rest, page c = .ok p ∧ pages = p :: rest := by
  cases fuel with
  | zero => cases h
  | succ fuel =>
    rw [follow] at h
    cases answer : page c with
    | error err =>
      rw [answer] at h
      cases h
    | ok p =>
      rw [answer] at h
      simp only at h
      cases goesOn : next p with
      | none =>
        rw [goesOn] at h
        cases h
        exact ⟨p, [], rfl, rfl⟩
      | some c' =>
        rw [goesOn] at h
        simp only at h
        cases later : follow page next fuel c' with
        | error err =>
          rw [later] at h
          cases h
        | ok found =>
          rw [later] at h
          obtain ⟨rest, -, rfl⟩ := Option.map_eq_some_iff.mp (Except.ok.inj h)
          exact ⟨p, rest, rfl, rfl⟩

/-- More fuel changes nothing. -/
theorem follow_mono {fuel' : Nat} (h : follow page next fuel c = .ok (some pages))
    (le : fuel ≤ fuel') : follow page next fuel' c = .ok (some pages) := by
  induction fuel generalizing fuel' c pages with
  | zero => cases h
  | succ fuel ih =>
    obtain ⟨n, rfl⟩ := Nat.exists_eq_add_one_of_ne_zero (n := fuel') (by omega)
    rw [follow] at h ⊢
    cases answer : page c with
    | error err =>
      rw [answer] at h
      cases h
    | ok p =>
      rw [answer] at h
      simp only at h ⊢
      cases goesOn : next p with
      | none =>
        rw [goesOn] at h
        exact h
      | some c' =>
        rw [goesOn] at h
        simp only at h ⊢
        cases rest : follow page next fuel c' with
        | error err =>
          rw [rest] at h
          cases h
        | ok pages' =>
          rw [rest] at h
          cases pages' with
          | none => cases h
          | some pages' =>
            rw [ih rest (by omega)]
            exact h

/-- What a cursor that stopped in front of `xs` goes on with. -/
def resume (lost : α → Bool) : List α → List α
  | [] => []
  | x :: xs => if lost x then xs else x :: xs

theorem resume_suffix (lost : α → Bool) (xs : List α) : resume lost xs <:+ xs := by
  cases xs with
  | nil => exact List.suffix_rfl
  | cons x xs =>
    rw [resume]
    split
    · exact List.suffix_cons x xs
    · exact List.suffix_rfl

theorem length_resume (lost : α → Bool) (xs : List α) : (resume lost xs).length ≤ xs.length :=
  (resume_suffix lost xs).length_le

/-- The entries of each page, `size + 1` to a page. -/
def parts (lost : α → Bool) (size : Nat) (xs : List α) : List (List α) :=
  if xs.length ≤ size + 1 then [xs]
  else xs.take (size + 1) :: parts lost size (resume lost (xs.drop (size + 1)))
termination_by xs.length
decreasing_by
  have := length_resume lost (xs.drop (size + 1))
  rw [List.length_drop] at this
  omega

section Parts

variable {lost : α → Bool} {size : Nat} {xs : List α}

theorem parts_last (fits : xs.length ≤ size + 1) : parts lost size xs = [xs] := by
  rw [parts, if_pos fits]

theorem parts_more (more : ¬ xs.length ≤ size + 1) :
    parts lost size xs =
      xs.take (size + 1) :: parts lost size (resume lost (xs.drop (size + 1))) := by
  rw [parts, if_neg more]

theorem length_of_mem_parts {part : List α} (mem : part ∈ parts lost size xs) :
    part.length ≤ size + 1 := by
  fun_induction parts lost size xs with
  | case1 xs fits =>
    rw [List.mem_singleton.mp mem]
    exact fits
  | case2 xs more ih =>
    rcases List.mem_cons.mp mem with rfl | mem
    · exact List.length_take_le _ _
    · exact ih mem

/-- The pages show entries in their order, none twice. -/
theorem flatten_parts_sublist (xs : List α) : (parts lost size xs).flatten.Sublist xs := by
  fun_induction parts lost size xs with
  | case1 xs fits => simp
  | case2 xs more ih =>
    rw [List.flatten_cons]
    conv_rhs => rw [← List.take_append_drop (size + 1) xs]
    exact (List.Sublist.refl _).append (ih.trans (resume_suffix _ _).sublist)

/-- Only entries that cursors step over can be missing. -/
theorem filter_flatten_parts (xs : List α) :
    (parts lost size xs).flatten.filter (fun x => !lost x) = xs.filter fun x => !lost x := by
  fun_induction parts lost size xs with
  | case1 xs fits => simp
  | case2 xs more ih =>
    rw [List.flatten_cons, List.filter_append, ih]
    have skip : (resume lost (xs.drop (size + 1))).filter (fun x => !lost x) =
        (xs.drop (size + 1)).filter fun x => !lost x := by
      cases xs.drop (size + 1) with
      | nil => rfl
      | cons x rest =>
        rw [resume]
        split
        · rename_i lostX
          simp [lostX]
        · rfl
    rw [skip, ← List.filter_append, List.take_append_drop]

/-- Nothing is missing exactly when no page stops at an entry its cursor steps over. -/
theorem flatten_parts_eq_iff (xs : List α) :
    (parts lost size xs).flatten = xs ↔
      ∀ i x, xs[(i + 1) * (size + 1)]? = some x → lost x = false := by
  fun_induction parts lost size xs with
  | case1 xs fits =>
    refine ⟨fun _ i x found => ?_, fun _ => by simp⟩
    have := (List.getElem?_eq_some_iff.mp found).1
    have : size + 1 ≤ (i + 1) * (size + 1) := Nat.le_mul_of_pos_left _ (Nat.succ_pos i)
    omega
  | case2 xs more ih =>
    have whole := List.take_append_drop (size + 1) xs
    have later : ∀ i, (xs.drop (size + 1))[i * (size + 1)]? = xs[(i + 1) * (size + 1)]? := by
      intro i
      rw [List.getElem?_drop, Nat.succ_mul, Nat.add_comm]
    cases stop : xs.drop (size + 1) with
    | nil =>
      have := congrArg List.length stop
      rw [List.length_drop, List.length_nil] at this
      omega
    | cons x rest =>
      rw [stop] at ih later
      have first : xs[(0 + 1) * (size + 1)]? = some x := by
        rw [← later 0, Nat.zero_mul]
        rfl
      rw [List.flatten_cons]
      by_cases lostX : lost x = true
      · -- One entry fewer is left than there should be.
        refine ⟨fun all => ?_, fun none => ?_⟩
        · have short : (parts lost size (resume lost (x :: rest))).flatten.length ≤
              (resume lost (x :: rest)).length := (flatten_parts_sublist _).length_le
          have := congrArg List.length all
          rw [← whole, stop, List.length_append, List.length_append, List.length_cons] at this
          rw [resume, if_pos lostX] at short this
          rw [List.take_append_of_le_length (by rw [List.length_take]; omega),
            List.take_take, Nat.min_self] at this
          omega
        · rw [none 0 x first] at lostX
          cases lostX
      · have kept : resume lost (x :: rest) = x :: rest := if_neg lostX
        rw [kept] at ih ⊢
        have reduce : xs.take (size + 1) ++ (parts lost size (x :: rest)).flatten = xs ↔
            (parts lost size (x :: rest)).flatten = x :: rest := by
          conv_lhs => rhs; rw [← whole, stop]
          exact List.append_right_inj _
        rw [reduce, ih]
        constructor
        · intro h i y found
          cases i with
          | zero =>
            rw [first] at found
            cases found
            simpa using lostX
          | succ i => exact h i y (by rw [later]; exact found)
        · intro h i y found
          exact h (i + 1) y (by rw [← later]; exact found)

theorem flatten_parts (xs : List α) : (parts (fun _ => false) size xs).flatten = xs :=
  (flatten_parts_eq_iff xs).mpr fun _ _ _ => rfl

end Parts

/-- Every page has its part. -/
theorem exists_part {parts : List (List α)} (shows : List.Forall₂ Shows pages parts) {p : P}
    (mem : p ∈ pages) : ∃ part ∈ parts, Shows p part := by
  induction shows with
  | nil => cases mem
  | @cons _ part _ _ here _ ih =>
    rcases List.mem_cons.mp mem with rfl | mem
    · exact ⟨part, List.mem_cons_self, here⟩
    · obtain ⟨part, memPart, h⟩ := ih mem
      exact ⟨part, List.mem_cons_of_mem _ memPart, h⟩

/-- `At c xs`: the cursor `c` has the entries `xs` in front of it. A page shows what fits, and
its cursor stands before what is left. -/
structure Pager (page : C → Except E P) (next : P → Option C) (lost : α → Bool) (size : Nat)
    (At : C → List α → Prop) (Shows : P → List α → Prop) : Prop where
  last : ∀ {c xs}, At c xs → xs.length ≤ size + 1 → ∃ p, page c = .ok p ∧ Shows p xs ∧ next p = none
  more : ∀ {c xs}, At c xs → ¬ xs.length ≤ size + 1 →
    ∃ p c', page c = .ok p ∧ Shows p (xs.take (size + 1)) ∧ next p = some c' ∧
      At c' (resume lost (xs.drop (size + 1)))

/-- Following the cursors ends, with a page for each part. -/
theorem Pager.follow {lost : α → Bool} {At : C → List α → Prop}
    (pager : Pager page next lost size At Shows) {xs : List α} (start : At c xs)
    (enough : xs.length < fuel) :
    ∃ pages, follow page next fuel c = .ok (some pages) ∧
      List.Forall₂ Shows pages (parts lost size xs) := by
  induction fuel generalizing xs c with
  | zero => omega
  | succ fuel ih =>
    by_cases fits : xs.length ≤ size + 1
    · obtain ⟨p, eq, shows, done⟩ := pager.last start fits
      refine ⟨[p], by simp only [Paging.follow, eq, done], ?_⟩
      rw [parts_last fits]
      exact .cons shows .nil
    · obtain ⟨p, c', eq, shows, goesOn, rest⟩ := pager.more start fits
      have := length_resume lost (xs.drop (size + 1))
      rw [List.length_drop] at this
      obtain ⟨pages, run, all⟩ := ih rest (by omega)
      refine ⟨p :: pages, ?_, ?_⟩
      · simp only [Paging.follow, eq, goesOn, run]
        rfl
      · rw [parts_more fits]
        exact .cons shows all

end Paging
