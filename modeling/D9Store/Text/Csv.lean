import Mathlib.Data.List.Basic
import Mathlib.Tactic.Common

/-!
Reading comma-separated values, and writing them without quotes.

The reader is a machine over bytes. It is lenient about quotes: a quote inside a field is kept, and a
quoted field that is never closed ends with the text. Empty lines are skipped, and a carriage return
before a line break or before the end is dropped. `write` puts the fields of a record on a line as
they are; `read_write_iff` says exactly which records survive that.
-/

namespace Csv

/-- The separator of fields, and the byte that makes a line a comment. -/
structure Dialect where
  comma : UInt8 := 44
  comment : Option UInt8 := none
  deriving DecidableEq

/-- A byte that can separate fields or begin a comment. -/
def validDelim (c : UInt8) : Bool := c != 0 && c != 34 && c != 13 && c != 10

def Dialect.valid (d : Dialect) : Bool :=
  d.comment != some d.comma && validDelim d.comma && (d.comment.all validDelim)

/-- A carriage return is dropped before a line break and before the end. -/
def normalise : List UInt8 → List UInt8
  | [] => []
  | c :: rest =>
    if c = 13 ∧ (rest = [] ∨ rest.head? = some 10) then normalise rest else c :: normalise rest

/-! ### The machine -/

/-- Where the machine is in a record, with the fields that are complete and the bytes of the current
one. -/
inductive State where
  | start
  | comment
  | begins (done : List (List UInt8))
  | field (done : List (List UInt8)) (cur : List UInt8)
  | quoted (done : List (List UInt8)) (cur : List UInt8)
  | closing (done : List (List UInt8)) (cur : List UInt8)
  deriving DecidableEq

/-- The first byte of a field. -/
def opening (d : Dialect) (done : List (List UInt8)) (c : UInt8) : State :=
  if c = 34 then .quoted done []
  else if c = d.comma then .begins (done ++ [[]])
  else .field done [c]

/-- The state after a byte, and the record it completes. -/
def step (d : Dialect) : State → UInt8 → State × List (List (List UInt8))
  | .start, c =>
    if d.comment = some c then (.comment, [])
    else if c = 10 then (.start, [])
    else (opening d [] c, [])
  | .comment, c => if c = 10 then (.start, []) else (.comment, [])
  | .begins done, c => if c = 10 then (.start, [done ++ [[]]]) else (opening d done c, [])
  | .field done cur, c =>
    if c = 10 then (.start, [done ++ [cur]])
    else if c = d.comma then (.begins (done ++ [cur]), [])
    else (.field done (cur ++ [c]), [])
  | .quoted done cur, c =>
    if c = 34 then (.closing done cur, []) else (.quoted done (cur ++ [c]), [])
  | .closing done cur, c =>
    if c = 34 then (.quoted done (cur ++ [34]), [])
    else if c = d.comma then (.begins (done ++ [cur]), [])
    else if c = 10 then (.start, [done ++ [cur]])
    else (.quoted done (cur ++ [34, c]), [])

/-- The record that the end of the text completes. -/
def finish : State → List (List (List UInt8))
  | .start => []
  | .comment => []
  | .begins done => [done ++ [[]]]
  | .field done cur => [done ++ [cur]]
  | .quoted done cur => [done ++ [cur]]
  | .closing done cur => [done ++ [cur]]

def trail (d : Dialect) (st : State) : List UInt8 → State × List (List (List UInt8))
  | [] => (st, [])
  | c :: rest =>
    let next := step d st c
    let more := trail d next.1 rest
    (more.1, next.2 ++ more.2)

/-- The records of a text. -/
def read (d : Dialect) (text : List UInt8) : List (List (List UInt8)) :=
  let all := trail d .start (normalise text)
  all.2 ++ finish all.1

/-- A record on a line of its own, without quotes. -/
def line (r : List (List UInt8)) : List UInt8 := List.intercalate [44] r ++ [10]

def write (rs : List (List (List UInt8))) : List UInt8 := rs.flatMap line

/-! ### Carriage returns -/

theorem length_normalise_le (text : List UInt8) : (normalise text).length ≤ text.length := by
  induction text with
  | nil => exact Nat.le_refl 0
  | cons c rest ih =>
    unfold normalise
    split
    · exact Nat.le_succ_of_le ih
    · exact Nat.succ_le_succ ih

variable {text : List UInt8}

theorem normalise_eq_of_length (h : text.length ≤ (normalise text).length) :
    normalise text = text := by
  induction text with
  | nil => rfl
  | cons c rest ih =>
    have shorter := length_normalise_le rest
    unfold normalise at h ⊢
    split
    · rename_i dropped
      rw [if_pos dropped, List.length_cons] at h
      omega
    · rename_i kept
      rw [if_neg kept, List.length_cons, List.length_cons] at h
      rw [ih (by omega)]

theorem not_normal_of_return {before after : List UInt8} :
    normalise (before ++ 13 :: 10 :: after) ≠ before ++ 13 :: 10 :: after := by
  intro same
  have shorter : (normalise (before ++ 13 :: 10 :: after)).length <
      (before ++ 13 :: 10 :: after).length := by
    clear same
    induction before with
    | nil =>
      rw [List.nil_append, normalise, if_pos ⟨rfl, .inr rfl⟩]
      exact Nat.lt_succ_of_le (length_normalise_le _)
    | cons c rest ih =>
      rw [List.cons_append, normalise]
      split
      · exact Nat.lt_succ_of_lt ih
      · exact Nat.succ_lt_succ ih
  rw [same] at shorter
  exact Nat.lt_irrefl _ shorter

/-- A line without a return before its break stays as it is. -/
theorem normalise_line {front rest : List UInt8} (solid : 10 ∉ front)
    (last : front.getLast? ≠ some 13) :
    normalise (front ++ 10 :: rest) = front ++ 10 :: normalise rest := by
  induction front with
  | nil => rfl
  | cons c more ih =>
    have solid' : 10 ∉ more := fun mem => solid (List.mem_cons_of_mem c mem)
    have kept : ¬ (c = 13 ∧ (more ++ 10 :: rest = [] ∨ (more ++ 10 :: rest).head? = some 10)) := by
      rintro ⟨rfl, empty | head⟩
      · simp at empty
      · cases more with
        | nil => exact last rfl
        | cons x xs =>
          rw [List.cons_append, List.head?_cons, Option.some.injEq] at head
          exact solid' (head ▸ List.mem_cons_self ..)
    rw [List.cons_append, normalise, if_neg kept, List.cons_append]
    congr 1
    cases more with
    | nil => rfl
    | cons x xs => exact ih solid' (by rwa [List.getLast?_cons_cons] at last)

/-- What ends in a line break still does. -/
theorem normalise_append_break (front : List UInt8) :
    ∃ front', normalise (front ++ [10]) = front' ++ [10] := by
  induction front with
  | nil => exact ⟨[], rfl⟩
  | cons c rest ih =>
    obtain ⟨front', eq⟩ := ih
    rw [List.cons_append, normalise, eq]
    split
    · exact ⟨front', rfl⟩
    · exact ⟨c :: front', rfl⟩

/-! ### Runs -/

theorem trail_append (d : Dialect) (st : State) (s t : List UInt8) :
    trail d st (s ++ t) =
      ((trail d (trail d st s).1 t).1, (trail d st s).2 ++ (trail d (trail d st s).1 t).2) := by
  induction s generalizing st with
  | nil => rfl
  | cons c rest ih => simp only [List.cons_append, trail, ih, List.append_assoc]

theorem write_append (rs more : List (List (List UInt8))) :
    write (rs ++ more) = write rs ++ write more := List.flatMap_append

/-- Complete fields, each with its comma. -/
def lead (done : List (List UInt8)) : List UInt8 := done.flatMap (· ++ [44])

theorem intercalate_concat (done : List (List UInt8)) (f : List UInt8) :
    List.intercalate [44] (done ++ [f]) = lead done ++ f := by
  induction done with
  | nil => simp [List.intercalate, lead]
  | cons g rest ih =>
    rw [List.cons_append, List.intercalate_cons_of_ne_nil (by simp), ih]
    simp [lead]

theorem line_concat (done : List (List UInt8)) (f : List UInt8) :
    line (done ++ [f]) = lead done ++ f ++ [10] := by rw [line, intercalate_concat]

@[simp] theorem lead_concat (done : List (List UInt8)) (f : List UInt8) :
    lead (done ++ [f]) = lead done ++ f ++ [44] := by simp [lead]

/-! ### Records that survive -/

/-- A field that reads as it is written. -/
def CleanField (f : List UInt8) : Prop := 44 ∉ f ∧ 10 ∉ f ∧ f.head? ≠ some 34

instance : DecidablePred CleanField := fun f =>
  inferInstanceAs (Decidable (44 ∉ f ∧ 10 ∉ f ∧ f.head? ≠ some 34))

/-- A record that reads as it is written, returns apart. -/
structure Solid (r : List (List UInt8)) : Prop where
  fields : ∀ f ∈ r, CleanField f
  ne_nil : r ≠ []
  ne_empty : r ≠ [[]]

/-- A record that reads as it is written. -/
structure Clean (r : List (List UInt8)) : Prop extends Solid r where
  ending : ∀ f, r.getLast? = some f → f.getLast? ≠ some 13

variable {f : List UInt8}

theorem trail_field (comma : 44 ∉ f) (solid : 10 ∉ f) (done : List (List UInt8)) (cur : List UInt8) :
    trail {} (.field done cur) f = (.field done (cur ++ f), []) := by
  induction f generalizing cur with
  | nil => rw [List.append_nil, trail]
  | cons c rest ih =>
    rw [List.mem_cons, not_or] at comma solid
    have next : step {} (.field done cur) c = (.field done (cur ++ [c]), []) := by
      rw [step, if_neg (Ne.symm solid.1), if_neg (Ne.symm comma.1)]
    rw [trail, next, ih comma.2 solid.2, List.append_assoc]
    rfl

/-- A field that is not empty, from its first byte on. -/
theorem trail_opening (clean : CleanField f) (some_ : f ≠ []) (done : List (List UInt8)) :
    trail {} (.begins done) f = (.field done f, []) ∧
      (done = [] → trail {} .start f = (.field done f, [])) := by
  obtain ⟨comma, solid, head⟩ := clean
  cases f with
  | nil => exact absurd rfl some_
  | cons c rest =>
    rw [List.mem_cons, not_or] at comma solid
    have opens (done : List (List UInt8)) : opening {} done c = .field done [c] := by
      rw [opening, if_neg (fun eq => head (congrArg some eq)), if_neg (Ne.symm comma.1)]
    constructor
    · rw [trail, step, if_neg (Ne.symm solid.1), opens, trail_field comma.2 solid.2]
      rfl
    · rintro rfl
      rw [trail, step, if_neg nofun, if_neg (Ne.symm solid.1), opens, trail_field comma.2 solid.2]
      rfl

theorem line_cons_cons (f g : List UInt8) (more : List (List UInt8)) :
    line (f :: g :: more) = f ++ 44 :: line (g :: more) := by
  rw [line, List.intercalate_cons_of_ne_nil (by simp), line]
  simp

/-- The rest of a record, from the beginning of a field on. -/
theorem trail_rest {fs : List (List UInt8)} (clean : ∀ f ∈ fs, CleanField f) (some_ : fs ≠ [])
    (done : List (List UInt8)) : trail {} (.begins done) (line fs) = (.start, [done ++ fs]) := by
  induction fs generalizing done with
  | nil => exact absurd rfl some_
  | cons f more ih =>
    have first := clean f (List.mem_cons_self ..)
    cases more with
    | nil =>
      rw [show line [f] = f ++ [10] from by simp [line, List.intercalate], trail_append]
      by_cases empty : f = []
      · subst empty
        rfl
      · rw [(trail_opening first empty done).1]
        rfl
    | cons g more =>
      have rest := ih (fun f mem => clean f (List.mem_cons_of_mem _ mem)) (by simp) (done ++ [f])
      rw [line_cons_cons, trail_append]
      by_cases empty : f = []
      · subst empty
        rw [trail, trail, show step {} (.begins done) 44 = (.begins (done ++ [[]]), []) from rfl, rest]
        simp
      · rw [(trail_opening first empty done).1, trail,
          show step {} (.field done f) 44 = (.begins (done ++ [f]), []) from rfl, rest]
        simp

/-- A record from the beginning of its line on. -/
theorem trail_line {r : List (List UInt8)} (solid : Solid r) :
    trail {} .start (line r) = (.start, [r]) := by
  obtain ⟨clean, nonempty, notEmpty⟩ := solid
  cases r with
  | nil => exact absurd rfl nonempty
  | cons f more =>
    have first := clean f (List.mem_cons_self ..)
    cases more with
    | nil =>
      have some_ : f ≠ [] := fun empty => notEmpty (by rw [empty])
      rw [show line [f] = f ++ [10] from by simp [line, List.intercalate], trail_append,
        (trail_opening first some_ []).2 rfl]
      rfl
    | cons g more =>
      have rest := trail_rest (fun f mem => clean f (List.mem_cons_of_mem _ mem)) (by simp) [f]
      rw [line_cons_cons, trail_append]
      by_cases empty : f = []
      · subst empty
        rw [trail, trail, show step {} .start 44 = (.begins [[]], []) from rfl, rest]
        rfl
      · rw [(trail_opening first empty []).2 rfl, trail,
          show step {} (.field [] f) 44 = (.begins [f], []) from rfl, rest]
        rfl

variable {rs : List (List (List UInt8))}

theorem trail_write (solid : ∀ r ∈ rs, Solid r) : trail {} .start (write rs) = (.start, rs) := by
  induction rs with
  | nil => rfl
  | cons r more ih =>
    rw [show write (r :: more) = line r ++ write more from rfl, trail_append,
      trail_line (solid r (List.mem_cons_self ..)),
      ih fun r mem => solid r (List.mem_cons_of_mem _ mem)]
    rfl

variable {done : List (List UInt8)}

theorem mem_lead {b : UInt8} (mem : b ∈ lead done) : b = 44 ∨ ∃ f ∈ done, b ∈ f := by
  obtain ⟨f, field, mem⟩ := List.mem_flatMap.mp mem
  rcases List.mem_append.mp mem with mem | mem
  · exact .inr ⟨f, field, mem⟩
  · exact .inl (List.mem_singleton.mp mem)

theorem getLast?_lead (done : List (List UInt8)) : (lead done).getLast? ≠ some 13 := by
  rcases List.eq_nil_or_concat' done with rfl | ⟨front, f, rfl⟩
  · nofun
  · simp

/-- No line that is written of a clean record has a return before its break. -/
theorem normalise_write (clean : ∀ r ∈ rs, Clean r) : normalise (write rs) = write rs := by
  induction rs with
  | nil => rfl
  | cons r more ih =>
    have first := clean r (List.mem_cons_self ..)
    obtain ⟨done, f, rfl⟩ := (List.eq_nil_or_concat' r).resolve_left first.ne_nil
    have last : f ∈ done ++ [f] := by simp
    have solid : 10 ∉ lead done ++ f := by
      intro mem
      rcases List.mem_append.mp mem with mem | mem
      · rcases mem_lead mem with eq | ⟨g, field, mem⟩
        · cases eq
        · exact (first.fields g (List.mem_append_left _ field)).2.1 mem
      · exact (first.fields f last).2.1 mem
    have ending : (lead done ++ f).getLast? ≠ some 13 := by
      rw [List.getLast?_append]
      cases eq : f.getLast? with
      | none => exact getLast?_lead done
      | some b =>
        have := first.ending f (by simp)
        rwa [eq] at this
    rw [show write ((done ++ [f]) :: more) = (lead done ++ f) ++ 10 :: write more from by
      simp [write, line_concat], normalise_line solid ending,
      ih fun r mem => clean r (List.mem_cons_of_mem _ mem)]

/-- Clean records are read back. -/
theorem read_write (clean : ∀ r ∈ rs, Clean r) : read {} (write rs) = rs := by
  rw [read, normalise_write clean, trail_write fun r mem => (clean r mem).toSolid]
  exact List.append_nil rs

/-! ### Records that do not -/

/-- What the machine holds, as it would be written; a quote that may close a field is held too. -/
def pending : State → List UInt8
  | .start => []
  | .comment => []
  | .begins done => lead done
  | .field done cur => lead done ++ cur
  | .quoted done cur => lead done ++ cur
  | .closing done cur => lead done ++ cur ++ [34]

def State.inQuotes : State → Bool
  | .quoted .. => true
  | .closing .. => true
  | _ => false

/-- The machine holds clean fields that were not quoted. -/
def Unquoted : State → Prop
  | .start => True
  | .begins done => done ≠ [] ∧ ∀ f ∈ done, CleanField f
  | .field done cur => (∀ f ∈ done, CleanField f) ∧ CleanField cur ∧ cur ≠ []
  | _ => False

/-- What is written of a text that the machine has consumed, against the text: it is the same, it
lacks the quote of the field that is open, or it is too short to become the same. -/
inductive Track (text : List UInt8) (rs : List (List (List UInt8))) (st : State) : Prop where
  | same (eq : write rs ++ pending st = text) (solid : ∀ r ∈ rs, Solid r) (unquoted : Unquoted st)
  | once (before after : List UInt8) (eq : text = before ++ 34 :: after)
      (held : write rs ++ pending st = before ++ after) (open_ : st.inQuotes = true)
  | short (less : (write rs ++ pending st).length + st.inQuotes.toNat < text.length)

/-- A byte adds at most one byte to what is written, and an opening quote none. -/
theorem length_step_le (st : State) (c : UInt8) :
    (write (step {} st c).2 ++ pending (step {} st c).1).length +
        (step {} st c).1.inQuotes.toNat ≤
      (pending st).length + st.inQuotes.toNat + 1 := by
  have opens (done : List (List UInt8)) :
      (pending (opening {} done c)).length + (opening {} done c).inQuotes.toNat ≤
        (lead done).length + 1 := by
    unfold opening
    split
    · simp [pending, State.inQuotes]
    · split
      · simp [pending, State.inQuotes]
      · simp [pending, State.inQuotes]
  cases st with
  | start =>
    have first := opens []
    rw [step, if_neg nofun]
    split
    · simp [write, pending, State.inQuotes]
    · exact first
  | comment =>
    rw [step]
    split
    · simp [write, pending, State.inQuotes]
    · simp [write, pending, State.inQuotes]
  | begins done =>
    have first := opens done
    rw [step]
    split
    · simp [write, line_concat, pending, State.inQuotes]
    · exact first
  | field done cur =>
    rw [step]
    split
    · simp [write, line_concat, pending, State.inQuotes]
      omega
    · split
      · simp [write, pending, State.inQuotes]
        omega
      · simp [write, pending, State.inQuotes]
        omega
  | quoted done cur =>
    rw [step]
    split
    · simp [write, pending, State.inQuotes]
      omega
    · simp [write, pending, State.inQuotes]
      omega
  | closing done cur =>
    rw [step]
    split
    · simp [write, pending, State.inQuotes]
    · split
      · simp [write, pending, State.inQuotes]
        omega
      · split
        · simp [write, line_concat, pending, State.inQuotes]
          omega
        · simp [write, pending, State.inQuotes]
          omega

theorem cleanField_nil : CleanField [] := ⟨nofun, nofun, nofun⟩

theorem clean_concat (fields : ∀ g ∈ done, CleanField g) (last : CleanField f) :
    ∀ g ∈ done ++ [f], CleanField g := by
  intro g mem
  rcases List.mem_append.mp mem with mem | mem
  · exact fields g mem
  · rw [List.mem_singleton.mp mem]
    exact last

/-- A field that begins where everything was the same so far. -/
theorem Track.opening {c : UInt8} (eq : write rs ++ lead done = text) (solid : ∀ r ∈ rs, Solid r)
    (fields : ∀ f ∈ done, CleanField f) (inside : c ≠ 10) :
    Track (text ++ [c]) rs (opening {} done c) := by
  unfold Csv.opening
  by_cases quote : c = 34
  · rw [if_pos quote, quote]
    exact .once text [] rfl (by rw [List.append_nil, ← eq]; simp [pending]) rfl
  · rw [if_neg quote]
    by_cases comma : c = 44
    · rw [if_pos comma, comma]
      refine .same ?_ solid ⟨by simp, clean_concat fields cleanField_nil⟩
      rw [← eq]
      simp [pending]
    · rw [if_neg comma]
      have clean : CleanField [c] := by
        refine ⟨?_, ?_, ?_⟩
        · rw [List.mem_singleton]
          exact Ne.symm comma
        · rw [List.mem_singleton]
          exact Ne.symm inside
        · rw [List.head?_cons, ne_eq, Option.some.injEq]
          exact quote
      refine .same ?_ solid ⟨fields, clean, by simp⟩
      rw [← eq, pending, List.append_assoc]

theorem Track.step {st : State} (h : Track text rs st) (c : UInt8) :
    Track (text ++ [c]) (rs ++ (step {} st c).2) (step {} st c).1 := by
  cases h with
  | short less =>
    apply Track.short
    have more := length_step_le st c
    rw [write_append]
    simp only [List.length_append, List.length_singleton] at less more ⊢
    omega
  | same eq solid unquoted =>
    have solid' {r : List (List UInt8)} (last : Solid r) : ∀ r' ∈ rs ++ [r], Solid r' := by
      intro r' mem
      rcases List.mem_append.mp mem with mem | mem
      · exact solid r' mem
      · rw [List.mem_singleton.mp mem]
        exact last
    cases st with
    | comment => exact unquoted.elim
    | quoted done cur => exact unquoted.elim
    | closing done cur => exact unquoted.elim
    | start =>
      rw [Csv.step, if_neg nofun]
      by_cases brk : c = 10
      · rw [if_pos brk]
        apply Track.short
        rw [← eq]
        simp [State.inQuotes, pending]
      · rw [if_neg brk, List.append_nil]
        exact .opening eq solid nofun brk
    | begins done =>
      obtain ⟨some_, fields⟩ := unquoted
      rw [Csv.step]
      by_cases brk : c = 10
      · rw [if_pos brk, brk]
        refine .same ?_ (solid' ⟨clean_concat fields cleanField_nil, by simp, ?_⟩) trivial
        · rw [← eq, write_append]
          simp [write, line_concat, pending]
        · intro lone
          rw [← List.nil_append [[]]] at lone
          exact some_ (List.append_cancel_right lone)
      · rw [if_neg brk, List.append_nil]
        exact .opening eq solid fields brk
    | field done cur =>
      obtain ⟨fields, clean, some_⟩ := unquoted
      rw [Csv.step]
      by_cases brk : c = 10
      · rw [if_pos brk, brk]
        refine .same ?_ (solid' ⟨clean_concat fields clean, by simp, ?_⟩) trivial
        · rw [← eq, write_append]
          simp [write, line_concat, pending]
        · intro lone
          have last := congrArg List.getLast? lone
          rw [List.getLast?_concat] at last
          exact some_ (Option.some.inj last)
      · rw [if_neg brk]
        by_cases comma : c = 44
        · rw [if_pos comma, comma, List.append_nil]
          refine .same ?_ solid ⟨by simp, clean_concat fields clean⟩
          rw [← eq]
          simp [pending]
        · rw [if_neg comma, List.append_nil]
          obtain ⟨noComma, noBreak, head⟩ := clean
          refine .same ?_ solid ⟨fields, ⟨?_, ?_, ?_⟩, by simp⟩
          · rw [← eq]
            simp [pending]
          · simp [noComma, Ne.symm comma]
          · simp [noBreak, Ne.symm brk]
          · rw [List.head?_append_of_ne_nil _ some_]
            exact head
  | once before after eq held open_ =>
    have length : (write rs ++ pending st).length + 1 = text.length := by
      rw [held, eq]
      simp
      omega
    cases st with
    | start => cases open_
    | comment => cases open_
    | begins done => cases open_
    | field done cur => cases open_
    | quoted done cur =>
      rw [Csv.step]
      by_cases quote : c = 34
      · rw [if_pos quote, quote, List.append_nil]
        refine .once before (after ++ [34]) (by rw [eq]; simp) ?_ rfl
        rw [← List.append_assoc, ← held]
        simp [pending]
      · rw [if_neg quote, List.append_nil]
        refine .once before (after ++ [c]) (by rw [eq]; simp) ?_ rfl
        rw [← List.append_assoc, ← held]
        simp [pending]
    | closing done cur =>
      simp only [pending, List.length_append, List.length_singleton] at length
      rw [Csv.step]
      by_cases quote : c = 34
      · rw [if_pos quote]
        apply Track.short
        simp only [pending, State.inQuotes, List.append_nil, List.length_append,
          List.length_singleton, Bool.toNat_true]
        omega
      · rw [if_neg quote]
        by_cases comma : c = 44
        · rw [if_pos comma]
          apply Track.short
          simp only [pending, State.inQuotes, List.append_nil, List.length_append, lead_concat,
            List.length_singleton, Bool.toNat_false]
          omega
        · rw [if_neg comma]
          by_cases brk : c = 10
          · rw [if_pos brk]
            apply Track.short
            rw [write_append]
            simp only [write, List.flatMap_singleton, line_concat, pending, State.inQuotes,
              List.append_nil, List.length_append, List.length_singleton, Bool.toNat_false] at length ⊢
            omega
          · rw [if_neg brk, List.append_nil]
            refine .once before (after ++ [c]) (by rw [eq]; simp) ?_ rfl
            rw [← List.append_assoc, ← held]
            simp [pending]

theorem Track.trail {st : State} (h : Track text rs st) (more : List UInt8) :
    Track (text ++ more) (rs ++ (trail {} st more).2) (trail {} st more).1 := by
  induction more generalizing text rs st with
  | nil =>
    rw [List.append_nil]
    exact (List.append_nil rs).symm ▸ h
  | cons c rest ih =>
    have next := ih (h.step c)
    rw [List.append_assoc, List.append_assoc] at next
    exact next

theorem track_start (text : List UInt8) :
    Track text (Csv.trail {} .start text).2 (Csv.trail {} .start text).1 :=
  (Track.same rfl nofun trivial : Track [] [] .start).trail text

/-- A line break ends a record, except inside quotes. -/
theorem trail_break (st : State) (front : List UInt8) :
    (trail {} st (front ++ [10])).1 = .start ∨
      ∃ done cur, (trail {} st (front ++ [10])).1 = .quoted done cur := by
  rw [trail_append]
  cases (trail {} st front).1 with
  | quoted done cur => exact .inr ⟨done, cur ++ [10], rfl⟩
  | start => exact .inl rfl
  | comment => exact .inl rfl
  | begins done => exact .inl rfl
  | field done cur => exact .inl rfl
  | closing done cur => exact .inl rfl

theorem cons_ne_concat (quote brk : UInt8) (ne : quote ≠ brk) (text : List UInt8) :
    quote :: text ≠ text ++ [brk] := by
  intro eq
  have count := congrArg (List.count quote) eq
  rw [List.count_cons_self, List.count_append, List.count_singleton, beq_false_of_ne (Ne.symm ne)] at count
  simp at count

/-- A text that is written again as it was had no quoted field and no return before a break. -/
theorem solid_of_write_read (same : write (read {} text) = text) :
    normalise text = text ∧ ∀ r ∈ read {} text, Solid r := by
  rcases List.eq_nil_or_concat' (read {} text) with none_ | ⟨front, r, records⟩
  · rw [none_] at same ⊢
    rw [← same]
    exact ⟨rfl, nofun⟩
  · have ends : text = (write front ++ List.intercalate [44] r) ++ [10] := by
      rw [← same, records, write_append]
      simp [write, line]
    obtain ⟨body, normal⟩ := normalise_append_break (write front ++ List.intercalate [44] r)
    rw [← ends] at normal
    have track := track_start (normalise text)
    have shorter := length_normalise_le text
    have total : (write (read {} text)).length = text.length := by rw [same]
    have last := trail_break .start body
    rw [← normal] at last
    unfold read at total same ⊢
    generalize trail {} .start (normalise text) = all at *
    obtain ⟨st, out⟩ := all
    rcases last with last | ⟨done, cur, last⟩
    · dsimp only at last
      subst last
      cases track with
      | once before after eq held open_ => cases open_
      | short less =>
        simp only [finish, pending, List.append_nil] at less total
        omega
      | same eq solid unquoted =>
        simp only [finish, pending, List.append_nil] at eq same ⊢
        exact ⟨eq.symm.trans same, solid⟩
    · dsimp only at last
      subst last
      have written : write (out ++ finish (.quoted done cur)) =
          (write out ++ pending (.quoted done cur)) ++ [10] := by
        rw [write_append]
        simp [write, finish, line_concat, pending]
      rw [written] at total same
      cases track with
      | same eq solid unquoted => exact unquoted.elim
      | short less =>
        rw [List.length_append, List.length_singleton] at total
        simp only [State.inQuotes, Bool.toNat_true] at less
        omega
      | once before after eq held open_ =>
        dsimp only at held
        have normal : normalise text = text := by
          apply normalise_eq_of_length
          rw [← total, eq, held]
          simp
        rw [held, ← normal, eq, List.append_assoc, List.append_cancel_left_eq] at same
        exact absurd same.symm (cons_ne_concat 34 10 (by decide) after)

/-- Records can be read back exactly when each is clean. -/
theorem read_write_iff : read {} (write rs) = rs ↔ ∀ r ∈ rs, Clean r := by
  constructor
  · intro back
    have same : write (read {} (write rs)) = write rs := congrArg write back
    obtain ⟨normal, solid⟩ := solid_of_write_read same
    rw [back] at solid
    intro r mem
    refine ⟨solid r mem, fun f last return_ => ?_⟩
    obtain ⟨done, rfl⟩ := List.getLast?_eq_some_iff.mp last
    obtain ⟨g, rfl⟩ := List.getLast?_eq_some_iff.mp return_
    obtain ⟨before, after, rfl⟩ := List.append_of_mem mem
    have split : write (before ++ (done ++ [g ++ [13]]) :: after) =
        (write before ++ lead done ++ g) ++ 13 :: 10 :: write after := by
      rw [write_append, show write ((done ++ [g ++ [13]]) :: after) =
        line (done ++ [g ++ [13]]) ++ write after from rfl, line_concat]
      simp
    rw [split] at normal
    exact not_normal_of_return normal
  · exact read_write

end Csv
