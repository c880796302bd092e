import D9Store.Posix.Path

/-!
A directory tree as a finite map from clean paths to nodes.

`DirTree` carries its own shape: the root is a directory and every node sits in a
directory, so a file never has children. Two trees with the same nodes are equal.
The updates below are the only ways to build a tree; each asks for exactly what
keeps the shape.
-/

namespace Posix

variable {φ α : Type}

/-- A node of a tree whose files carry `φ`. -/
inductive Node (φ : Type) where
  | dir
  | file (f : φ)

structure DirTree (φ : Type) where
  get : FilePath → Option (Node φ)
  dom : Finset FilePath
  mem_dom : ∀ p, p ∈ dom ↔ (get p).isSome
  root : get [] = some .dir
  parent : ∀ x p, (get (x :: p)).isSome → get p = some .dir

namespace DirTree

/-- The tree that is only a root directory. -/
def bare : DirTree φ where
  get p := if p = [] then some .dir else none
  dom := {[]}
  mem_dom p := by by_cases h : p = [] <;> simp [h]
  root := rfl
  parent x p h := by simp at h

/-- The file at `p`, if `p` is a file. -/
def file (s : DirTree φ) (p : FilePath) : Option φ :=
  match s.get p with
  | some (.file f) => some f
  | _ => none

/-- `p` is a directory. -/
def isDir (s : DirTree φ) (p : FilePath) : Bool :=
  match s.get p with
  | some .dir => true
  | _ => false

/-- Some proper ancestor of `p` is a file, so that `p` cannot be resolved. -/
def blocked (s : DirTree φ) (p : FilePath) : Bool :=
  p.tail.tails.any fun q => (s.file q).isSome

/-- No node lies directly in `p`. -/
def childless (s : DirTree φ) (p : FilePath) : Bool :=
  decide (∀ q ∈ s.dom, q = [] ∨ q.tail ≠ p)

variable {s : DirTree φ} {p : FilePath} {f : φ}

theorem file_eq_some : s.file p = some f ↔ s.get p = some (.file f) := by
  unfold file
  split <;> simp_all

theorem file_eq_none : s.file p = none ↔ s.get p = none ∨ s.get p = some .dir := by
  unfold file
  rcases h : s.get p with _ | _ | f <;> simp

theorem isDir_iff : s.isDir p = true ↔ s.get p = some .dir := by
  unfold isDir
  rcases h : s.get p with _ | _ | f <;> simp

theorem file_of_get_eq {t : DirTree φ} {q : FilePath} (h : s.get p = t.get q) :
    s.file p = t.file q := by
  simp [file, h]

/-- What no node of the tree satisfies is nowhere. -/
theorem get_none_of_dom {P : FilePath → Prop} (h : ∀ q ∈ s.dom, ¬ P q) (q : FilePath) (hq : P q) :
    s.get q = none := by
  cases node : s.get q with
  | none => rfl
  | some n => exact absurd hq (h q ((s.mem_dom q).mpr (by simp [node])))

/-- Every ancestor of a node is a directory. -/
theorem get_ancestor {q : FilePath} (h : (s.get p).isSome) (below : q <:+ p) (ne : q ≠ p) :
    s.get q = some .dir := by
  induction p with
  | nil => exact absurd (List.suffix_nil.mp below) ne
  | cons x p ih =>
    have up := s.parent x p h
    rcases List.suffix_cons_iff.mp below with eq | below
    · exact absurd eq ne
    · by_cases eq : q = p
      · rw [eq, up]
      · exact ih (by simp [up]) below eq

theorem blocked_iff : s.blocked p = true ↔ ∃ q f, q <:+ p.tail ∧ s.file q = some f := by
  simp only [blocked, List.any_eq_true, List.mem_tails, Option.isSome_iff_exists]
  exact ⟨fun ⟨q, h, f, hf⟩ => ⟨q, f, h, hf⟩, fun ⟨q, f, h, hf⟩ => ⟨q, h, f, hf⟩⟩

theorem not_blocked_of_some (h : (s.get p).isSome) : s.blocked p = false := by
  rw [Bool.eq_false_iff]
  intro blk
  obtain ⟨q, f, below, hf⟩ := blocked_iff.mp blk
  cases p with
  | nil =>
    obtain rfl := List.suffix_nil.mp below
    simp [file, s.root] at hf
  | cons x p =>
    have ne : q ≠ x :: p := fun eq => by
      have := below.length_le
      simp [eq] at this
    have := get_ancestor h (below.trans (List.suffix_cons x p)) ne
    simp [file, this] at hf

theorem not_blocked_iff : s.blocked p = false ↔ ∀ q, q <:+ p.tail → s.file q = none := by
  rw [Bool.eq_false_iff, ne_eq, blocked_iff]
  constructor
  · intro h q below
    cases hf : s.file q with
    | none => rfl
    | some f => exact absurd ⟨q, f, below, hf⟩ h
  · rintro h ⟨q, f, below, hf⟩
    simp [h q below] at hf

theorem childless_iff : s.childless p = true ↔ ∀ x, s.get (x :: p) = none := by
  simp only [childless, decide_eq_true_eq]
  constructor
  · intro h x
    by_contra some
    have mem : x :: p ∈ s.dom := (s.mem_dom _).mpr (Option.isSome_iff_ne_none.mpr some)
    rcases h _ mem with eq | ne
    · simp at eq
    · exact ne rfl
  · intro h q mem
    cases q with
    | nil => exact .inl rfl
    | cons x q =>
      refine .inr fun eq => ?_
      have := (s.mem_dom _).mp mem
      rw [List.tail_cons] at eq
      simp [eq, h x] at this

/-- A file has no children. -/
theorem childless_of_file (h : s.file p = some f) : s.childless p = true := by
  refine childless_iff.mpr fun x => ?_
  by_contra some
  have := s.parent x p (Option.isSome_iff_ne_none.mpr some)
  rw [file_eq_some.mp h] at this
  cases this

/-- Nothing lies below a childless path. -/
theorem get_below_childless {q : FilePath} (h : s.childless p = true) (below : p <:+ q) (ne : p ≠ q) :
    s.get q = none := by
  by_contra some
  have isSome := Option.isSome_iff_ne_none.mpr some
  obtain ⟨r, rfl⟩ := below
  have child : ∃ x, (s.get (x :: p)).isSome := by
    induction r with
    | nil => exact absurd rfl ne
    | cons y r ih =>
      by_cases eq : p = r ++ p
      · exact ⟨y, by rw [eq]; simpa using isSome⟩
      · have up := s.parent y (r ++ p) isSome
        exact ih eq (by simp [up]) (by simp [up])
  obtain ⟨x, hx⟩ := child
  simp [childless_iff.mp h x] at hx

/-! ### Updates -/

/-- `p` can hold a file: its directory exists and `p` is not itself a directory. -/
def Holds (s : DirTree φ) (p : FilePath) : Prop :=
  p ≠ [] ∧ s.get p.tail = some .dir ∧ s.get p ≠ some .dir

instance (s : DirTree φ) (p : FilePath) : Decidable (s.Holds p) :=
  decidable_of_iff (p ≠ [] ∧ s.isDir p.tail = true ∧ s.isDir p = false) (by
    simp only [Holds, ← isDir_iff, Bool.not_eq_true, ne_eq])

theorem Holds.childless (h : s.Holds p) (x : String) : s.get (x :: p) = none := by
  by_contra some
  exact h.2.2 (s.parent x p (Option.isSome_iff_ne_none.mpr some))

/-- Write the file `f` at `p`. -/
def putFile (s : DirTree φ) (p : FilePath) (f : φ) (h : s.Holds p) : DirTree φ where
  get q := if q = p then some (.file f) else s.get q
  dom := insert p s.dom
  mem_dom q := by
    by_cases eq : q = p
    · simp [eq]
    · simp [eq, s.mem_dom]
  root := by simp [Ne.symm h.1, s.root]
  parent x q isSome := by
    have notChild : q ≠ p := by
      rintro rfl
      simp [h.childless x] at isSome
    rw [if_neg notChild]
    by_cases eq : x :: q = p
    · have := h.2.1
      rwa [← eq, List.tail_cons] at this
    · rw [if_neg eq] at isSome
      exact s.parent x q isSome

/-- Create every missing directory on the way to `p`, itself included. -/
def addDirs (s : DirTree φ) (p : FilePath) : DirTree φ where
  get q := if q <:+ p then some .dir else s.get q
  dom := p.tails.toFinset ∪ s.dom
  mem_dom q := by
    by_cases below : q <:+ p
    · simp [below]
    · simp [below, s.mem_dom]
  root := by simp
  parent x q isSome := by
    by_cases below : q <:+ p
    · simp [below]
    · have notBelow : ¬ (x :: q) <:+ p := fun h => below ((List.suffix_cons x q).trans h)
      rw [if_neg notBelow] at isSome
      rw [if_neg below]
      exact s.parent x q isSome

/-- Remove everything at and below `p`; the root directory itself stays. -/
def removeTree (s : DirTree φ) (p : FilePath) : DirTree φ where
  get q := if p <:+ q ∧ q ≠ [] then none else s.get q
  dom := s.dom.filter fun q => ¬ (p <:+ q ∧ q ≠ [])
  mem_dom q := by
    by_cases gone : p <:+ q ∧ q ≠ []
    · simp [gone]
    · rw [if_neg gone, Finset.mem_filter, s.mem_dom]
      exact ⟨And.left, fun h => ⟨h, gone⟩⟩
  root := by simp [s.root]
  parent x q isSome := by
    by_cases gone : p <:+ x :: q ∧ x :: q ≠ []
    · simp [gone] at isSome
    · rw [if_neg gone] at isSome
      have kept : ¬ (p <:+ q ∧ q ≠ []) := fun h =>
        gone ⟨h.1.trans (List.suffix_cons x q), List.cons_ne_nil x q⟩
      rw [if_neg kept]
      exact s.parent x q isSome

/-- Move the node at `src`, with everything below it, to the free path `dst`. -/
def moveTree (s : DirTree φ) (src dst : FilePath) (free : s.get dst = none)
    (room : dst ≠ [] ∧ s.get dst.tail = some .dir) (apart : ¬ src <:+ dst)
    (proper : src ≠ []) : DirTree φ where
  get q :=
    if dst <:+ q then s.get (q.take (q.length - dst.length) ++ src)
    else if src <:+ q then none
    else s.get q
  dom := (s.dom.filter fun q => ¬ dst <:+ q ∧ ¬ src <:+ q) ∪
    (s.dom.filter fun q => src <:+ q).image fun q => q.take (q.length - src.length) ++ dst
  mem_dom q := by
    by_cases inDst : dst <:+ q
    · obtain ⟨r, rfl⟩ := inDst
      simp only [List.suffix_append, if_true, List.length_append, Nat.add_sub_cancel,
        List.take_left', Finset.mem_union, Finset.mem_filter, not_true_eq_false, false_and,
        and_false, Finset.mem_image, false_or, ← s.mem_dom]
      constructor
      · rintro ⟨q', ⟨mem, r', rfl⟩, eq⟩
        simp only [List.length_append, Nat.add_sub_cancel, List.take_left'] at eq
        rwa [List.append_cancel_right eq] at mem
      · intro mem
        exact ⟨r ++ src, ⟨mem, List.suffix_append r src⟩, by simp⟩
    · have notImage : ∀ q' ∈ s.dom.filter fun q => src <:+ q,
          q'.take (q'.length - src.length) ++ dst ≠ q := by
        rintro q' - rfl
        exact inDst (List.suffix_append _ _)
      have notMem : q ∉ (s.dom.filter fun q => src <:+ q).image
          fun q => q.take (q.length - src.length) ++ dst := by
        rw [Finset.mem_image]
        rintro ⟨q', mem, eq⟩
        exact notImage q' mem eq
      rw [if_neg inDst, Finset.mem_union, Finset.mem_filter]
      by_cases inSrc : src <:+ q
      · simp [inSrc, notMem]
      · simp only [inDst, inSrc, notMem, not_false_eq_true, and_self, and_true, or_false, if_false]
        exact s.mem_dom q
  root := by
    have h₁ : ¬ dst <:+ [] := fun h => room.1 (List.suffix_nil.mp h)
    have h₂ : ¬ src <:+ [] := fun h => proper (List.suffix_nil.mp h)
    rw [if_neg h₁, if_neg h₂, s.root]
  parent x q isSome := by
    by_cases inDst : dst <:+ q
    · obtain ⟨r, rfl⟩ := inDst
      rw [if_pos ⟨x :: r, rfl⟩] at isSome
      rw [if_pos (List.suffix_append r dst)]
      have len : (x :: (r ++ dst)).length - dst.length = r.length + 1 := by
        simp only [List.length_cons, List.length_append]; omega
      have len' : (r ++ dst).length - dst.length = r.length := by simp
      rw [len] at isSome
      rw [len', List.take_left']
      · refine s.parent x (r ++ src) ?_
        simpa using isSome
      · rfl
    · have notSrc : (x :: q) = dst ∨ ¬ dst <:+ x :: q := by
        by_cases h : dst <:+ x :: q
        · rcases List.suffix_cons_iff.mp h with eq | below
          · exact .inl eq.symm
          · exact absurd below inDst
        · exact .inr h
      rcases notSrc with rfl | notDst
      · have q_dir : s.get q = some .dir := room.2
        have q_out : ¬ src <:+ q := fun h => apart (h.trans (List.suffix_cons x q))
        rw [if_neg inDst, if_neg q_out, q_dir]
      · rw [if_neg notDst] at isSome
        by_cases inSrc : src <:+ x :: q
        · simp [inSrc] at isSome
        · rw [if_neg inSrc] at isSome
          have q_out : ¬ src <:+ q := fun h => inSrc (h.trans (List.suffix_cons x q))
          rw [if_neg inDst, if_neg q_out]
          exact s.parent x q isSome

/-! ### Listings -/

/-- The names directly inside a directory. -/
def children (s : DirTree φ) (p : FilePath) : Finset String :=
  (s.dom.filter fun q => q ≠ [] ∧ q.tail = p).image fun q => q.headD ""

theorem mem_children {x : String} : x ∈ s.children p ↔ (s.get (x :: p)).isSome := by
  rw [children, Finset.mem_image]
  constructor
  · rintro ⟨q, mem, rfl⟩
    obtain ⟨there, proper, rfl⟩ := Finset.mem_filter.mp mem
    obtain ⟨y, dir, rfl⟩ := List.exists_cons_of_ne_nil proper
    exact (s.mem_dom _).mp there
  · intro present
    exact ⟨x :: p, Finset.mem_filter.mpr ⟨(s.mem_dom _).mpr present, by simp⟩, rfl⟩

/-- The files at and below `p`. -/
def filesBelow (s : DirTree φ) (p : FilePath) : Finset FilePath :=
  s.dom.filter fun q => p <:+ q ∧ (s.file q).isSome

theorem mem_filesBelow {q : FilePath} : q ∈ s.filesBelow p ↔ p <:+ q ∧ ∃ f, s.file q = some f := by
  simp only [filesBelow, Finset.mem_filter, Option.isSome_iff_exists, s.mem_dom]
  constructor
  · exact fun h => h.2
  · rintro ⟨below, f, hf⟩
    exact ⟨⟨_, file_eq_some.mp hf⟩, below, f, hf⟩

end DirTree

/-- A finite set in increasing order. -/
def sorted {α : Type} [LinearOrder α] (xs : Finset α) : List α :=
  Quotient.liftOn xs.val (List.insertionSort (· ≤ ·)) fun a b h =>
    (((List.perm_insertionSort _ a).trans h).trans (List.perm_insertionSort _ b).symm).eq_of_pairwise'
      (List.pairwise_insertionSort _ a) (List.pairwise_insertionSort _ b)

theorem mem_sorted [LinearOrder α] {xs : Finset α} {x : α} : x ∈ sorted xs ↔ x ∈ xs := by
  obtain ⟨⟨l⟩, h⟩ := xs
  exact List.mem_insertionSort _

theorem nodup_sorted [LinearOrder α] (xs : Finset α) : (sorted xs).Nodup := by
  obtain ⟨⟨l⟩, h⟩ := xs
  exact (List.perm_insertionSort _ l).nodup_iff.mpr h

theorem sorted_lt [LinearOrder α] (xs : Finset α) : (sorted xs).Pairwise (· < ·) := by
  obtain ⟨⟨l⟩, h⟩ := xs
  refine ((List.pairwise_insertionSort (· ≤ ·) l).and
    ((List.perm_insertionSort _ l).nodup_iff.mpr h)).imp ?_
  intro a b both
  exact lt_of_le_of_ne both.1 both.2

/-- Paths in the order a recursive walk meets them. -/
def walkOrder (ps : Finset FilePath) : List FilePath :=
  (sorted (ps.image List.reverse)).map List.reverse

theorem mem_walkOrder {ps : Finset FilePath} {p : FilePath} : p ∈ walkOrder ps ↔ p ∈ ps := by
  simp only [walkOrder, List.mem_map, mem_sorted, Finset.mem_image]
  constructor
  · rintro ⟨r, ⟨q, mem, rfl⟩, rfl⟩
    rwa [List.reverse_reverse]
  · intro mem
    exact ⟨p.reverse, ⟨p, mem, rfl⟩, List.reverse_reverse p⟩

theorem nodup_walkOrder (ps : Finset FilePath) : (walkOrder ps).Nodup :=
  (nodup_sorted _).map List.reverse_injective

end Posix
