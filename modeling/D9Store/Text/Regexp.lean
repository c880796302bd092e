import Mathlib

/-!
The regular expressions that wildcard patterns are turned into.

Of the language of regular expressions only that part is read in which such expressions are written:
characters, escaped where they have a meaning, the dot, the star after one of these, and the two
anchors. Any other text is refused. The dot stands for every character but the line break.
-/

namespace Regexp

/-- What one character is compared with. -/
inductive Class where
  | char (c : Char)
  | dot
  deriving DecidableEq, Repr

inductive Item where
  | one (a : Class)
  | star (a : Class)
  /-- The start of the text. -/
  | start
  /-- The end of the text. -/
  | stop
  deriving DecidableEq, Repr

/-! ### Reading an expression -/

/-- The characters that have a meaning. -/
def special : List Char := "\\.+*?()|[]\x7b\x7d^$".toList

/-- A text as an expression for itself. -/
def quoteMeta (text : List Char) : List Char :=
  text.flatMap fun c => if c ∈ special then ['\\', c] else [c]

/-- What was read of an expression: its items, the last one first, and whether the next character
is escaped. -/
structure Scan where
  items : List Item := []
  escaped : Bool := false
  deriving DecidableEq

namespace Scan

def push (st : Scan) (item : Item) : Option Scan := some { items := item :: st.items }

def step (st : Scan) (c : Char) : Option Scan :=
  if st.escaped then
    if c ∈ special then st.push (.one (.char c)) else none
  else
    match c with
    | '\\' => some { st with escaped := true }
    | '.' => st.push (.one .dot)
    | '^' => st.push .start
    | '$' => st.push .stop
    | '*' =>
      match st.items with
      | .one a :: items => some { items := .star a :: items }
      | _ => none
    | c => if c ∈ special then none else st.push (.one (.char c))

end Scan

/-- The items of an expression. -/
def parse (text : List Char) : Option (List Item) :=
  match text.foldlM Scan.step {} with
  | some { items, escaped := false } => some items.reverse
  | _ => none

/-- The items of an expression with its flags, and whether it ignores the case of letters. -/
def compile : List Char → Option (Bool × List Item)
  | '(' :: '?' :: 'i' :: ')' :: text => (parse text).map fun items => (true, items)
  | text => (parse text).map fun items => (false, items)

/-! ### Matching -/

section Matching

variable (same : Char → Char → Bool)

def Class.accepts : Class → Char → Bool
  | .char p, c => same p c
  | .dot, c => c != '\n'

/-- Characters that are `ok`, as many as it takes, and then what `rest` accepts. -/
def runs (ok : Char → Bool) (rest : Bool → List Char → Bool) : Bool → List Char → Bool
  | first, [] => rest first []
  | first, c :: s => rest first (c :: s) || (ok c && runs ok rest false s)

/-- Whether the items match here; `first` tells that this is the start of the text. -/
def matchHere : List Item → Bool → List Char → Bool
  | [], _, _ => true
  | .start :: items, first, s => first && matchHere items first s
  | .stop :: items, first, s => s.isEmpty && matchHere items first s
  | .one _ :: _, _, [] => false
  | .one a :: items, _, c :: s => a.accepts same c && matchHere items false s
  | .star a :: items, first, s => runs (a.accepts same) (matchHere items) first s

/-- Whether the items match here or further on. -/
def search (items : List Item) : Bool → List Char → Bool
  | first, [] => matchHere same items first []
  | first, c :: s => matchHere same items first (c :: s) || search items false s

def matchString (items : List Item) (s : List Char) : Bool := search same items true s

end Matching

/-! ### Lemmas about reading -/

@[simp] theorem quoteMeta_nil : quoteMeta [] = [] := rfl

theorem quoteMeta_append (s t : List Char) : quoteMeta (s ++ t) = quoteMeta s ++ quoteMeta t :=
  List.flatMap_append

theorem step_plain {c : Char} (plain : c ∉ special) (items : List Item) :
    Scan.step { items := items } c = some { items := .one (.char c) :: items } := by
  have ne : ∀ d ∈ special, c ≠ d := by
    rintro d mem rfl
    exact plain mem
  have noEscape := ne '\\' (by decide)
  have noDot := ne '.' (by decide)
  have noStart := ne '^' (by decide)
  have noStop := ne '$' (by decide)
  have noStar := ne '*' (by decide)
  simp [Scan.step, Scan.push, plain]

/-- A quoted character is read as itself. -/
theorem scan_quoteMeta (items : List Item) (c : Char) (rest : List Char) :
    (quoteMeta [c] ++ rest).foldlM Scan.step { items := items } =
      rest.foldlM Scan.step { items := .one (.char c) :: items } := by
  by_cases mem : c ∈ special
  · simp [quoteMeta, mem, Scan.step, Scan.push]
  · simp [quoteMeta, mem, step_plain mem]

theorem scan_dot (items : List Item) (rest : List Char) :
    ('.' :: rest).foldlM Scan.step { items := items } =
      rest.foldlM Scan.step { items := .one .dot :: items } := rfl

theorem scan_dots (items : List Item) (rest : List Char) :
    ('.' :: '*' :: rest).foldlM Scan.step { items := items } =
      rest.foldlM Scan.step { items := .star .dot :: items } := rfl

/-! ### Lemmas about matching -/

section Matching

variable {same : Char → Char → Bool}

/-- An expression that begins with an anchor matches at the start or nowhere. -/
theorem matchString_start (items : List Item) (s : List Char) :
    matchString same (.start :: items) s = matchHere same items true s := by
  have later : ∀ s, search same (.start :: items) false s = false := by
    intro s
    induction s with
    | nil => rfl
    | cons c s ih => simp [search, matchHere, ih]
  cases s with
  | nil => rfl
  | cons c s => simp [matchString, search, matchHere, later]

theorem runs_iff {ok : Char → Bool} {rest : Bool → List Char → Bool}
    (anywhere : ∀ first s, rest first s = rest true s) {first : Bool} {s : List Char} :
    runs ok rest first s = true ↔
      ∃ run t, s = run ++ t ∧ (∀ c ∈ run, ok c = true) ∧ rest true t = true := by
  induction s generalizing first with
  | nil =>
    rw [runs, anywhere]
    constructor
    · intro h
      exact ⟨[], [], rfl, by simp, h⟩
    · rintro ⟨run, t, split, -, h⟩
      rw [(List.append_eq_nil_iff.mp split.symm).2] at h
      exact h
  | cons c s ih =>
    rw [runs, Bool.or_eq_true, Bool.and_eq_true, ih, anywhere]
    constructor
    · rintro (h | ⟨good, run, t, rfl, all, h⟩)
      · exact ⟨[], c :: s, rfl, by simp, h⟩
      · exact ⟨c :: run, t, rfl, by simpa [good] using all, h⟩
    · rintro ⟨run, t, split, all, h⟩
      cases run with
      | nil =>
        rw [List.nil_append] at split
        exact .inl (split ▸ h)
      | cons d run =>
        cases split
        exact .inr ⟨all c List.mem_cons_self, run, t, rfl,
          fun b mem => all b (List.mem_cons_of_mem c mem), h⟩

end Matching

end Regexp
