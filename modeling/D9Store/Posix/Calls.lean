import D9Store.Posix.Tree
import D9Store.Posix.Prog

/-!
The system calls of a single-threaded program on a directory tree.

Each call is an `EStateM` program over `DirTree φ` with the error numbers that matter
to callers. A failed call leaves the tree as it was. After every call stands what
it does to `DirTree.get`, so that later proofs never unfold it.
-/

namespace Posix

variable {φ : Type}

inductive Errno where
  | noent
  | notdir
  | isdir
  | notempty
  | exdev
  | inval
  deriving DecidableEq, Repr

abbrev Call (φ α : Type) := EStateM Errno (DirTree φ) α

namespace DirTree

/-- Why a path does not resolve. -/
def missing (s : DirTree φ) (p : FilePath) : Errno := if s.blocked p then .notdir else .noent

/-- The contents of a regular file. -/
def readFile (s : DirTree φ) (p : FilePath) : Except Errno φ :=
  match s.get p with
  | some (.file f) => .ok f
  | some .dir => .error .isdir
  | none => .error (s.missing p)

end DirTree

/-- `os.MkdirAll`: it fails exactly when a file stands on the way, and then makes
nothing. -/
def mkdirAll (p : FilePath) : Call φ Unit := fun s =>
  if s.blocked p || (s.file p).isSome then .error .notdir s else .ok () (s.addDirs p)

/-- `open` with `O_CREATE|O_TRUNC` followed by a write: `fresh` is what a new file
holds, `again` what an existing one becomes (its inode, and so its attributes, stay). -/
def writeFile (p : FilePath) (fresh : φ) (again : φ → φ) : Call φ Unit := fun s =>
  if h : s.Holds p then
    .ok () (s.putFile p (((s.file p).map again).getD fresh) h)
  else .error (if s.isDir p then .isdir else s.missing p) s

/-- Change the file at `p` in place. Directories accept the change and keep no
record of it. -/
def amend (p : FilePath) (f : φ → φ) : Call φ Unit := fun s =>
  if h : s.Holds p then
    match s.file p with
    | some old => .ok () (s.putFile p (f old) h)
    | none => .error (s.missing p) s
  else if s.isDir p then .ok () s
  else .error (s.missing p) s

/-- The tree with `p` vacated, if `p` is an empty directory. -/
def DirTree.vacate (s : DirTree φ) (p : FilePath) : DirTree φ :=
  if s.isDir p && s.childless p then s.removeTree p else s

/-- `rename` of a directory: onto a free path or an empty directory outside itself. -/
def renameDir (src dst : FilePath) : Call φ Unit := fun s =>
  if free : (s.vacate dst).get dst = none then
    if dir : dst ≠ [] ∧ (s.vacate dst).isDir dst.tail then
      if apart : ¬ src <:+ dst ∧ src ≠ [] then
        .ok () ((s.vacate dst).moveTree src dst free ⟨dir.1, DirTree.isDir_iff.mp dir.2⟩
          apart.1 apart.2)
      else .error .inval s
    else .error (s.missing dst) s
  else .error (if s.isDir dst then .notempty else .notdir) s

/-- `rename`. Moving a file replaces a file at `dst`, never a directory. -/
def rename (src dst : FilePath) : Call φ Unit := fun s =>
  match s.get src with
  | none => .error (s.missing src) s
  | some (.file f) =>
    if h : s.Holds dst then
      .ok () (if src = dst then s else (s.putFile dst f h).removeTree src)
    else .error (if s.isDir dst then .isdir else s.missing dst) s
  | some .dir => if src = dst then .ok () s else renameDir src dst s

/-- `os.Remove`: a file, or an empty directory other than the root. -/
def remove (p : FilePath) : Call φ Unit := fun s =>
  match s.get p with
  | none => .error (s.missing p) s
  | some _ => if p ≠ [] ∧ s.childless p then .ok () (s.removeTree p) else .error .notempty s

/-- `os.RemoveAll`. -/
def removeAll (p : FilePath) : Call φ Unit := fun s => .ok () (s.removeTree p)

/-! ### What the calls do to the nodes -/

section Specs

variable {s s' : DirTree φ} {p q src dst : FilePath} {f fresh old : φ} {e : Errno} {again : φ → φ}

@[simp] theorem DirTree.get_putFile {h : s.Holds p} :
    (s.putFile p f h).get q = if q = p then some (.file f) else s.get q := rfl

@[simp] theorem DirTree.get_addDirs :
    (s.addDirs p).get q = if q <:+ p then some .dir else s.get q := rfl

@[simp] theorem DirTree.get_removeTree :
    (s.removeTree p).get q = if p <:+ q ∧ q ≠ [] then none else s.get q := rfl

theorem mkdirAll_ok (h : mkdirAll p s = .ok () s') :
    (∀ q, q <:+ p → s.file q = none) ∧ s' = s.addDirs p := by
  unfold mkdirAll at h
  split at h
  · cases h
  · rename_i clear
    simp only [Bool.or_eq_true, not_or, Bool.not_eq_true, Option.isSome_eq_false_iff,
      Option.isNone_iff_eq_none] at clear
    refine ⟨fun q below => ?_, by cases h; rfl⟩
    rcases eq_or_ne q p with rfl | ne
    · exact clear.2
    · cases p with
      | nil => exact absurd (List.suffix_nil.mp below) ne
      | cons x p =>
        rcases List.suffix_cons_iff.mp below with eq | below
        · exact absurd eq ne
        · exact DirTree.not_blocked_iff.mp clear.1 q below

theorem mkdirAll_of_clear (clear : ∀ q, q <:+ p → s.file q = none) :
    mkdirAll p s = .ok () (s.addDirs p) := by
  have unblocked : s.blocked p = false :=
    DirTree.not_blocked_iff.mpr fun q below => clear q (below.trans (List.tail_suffix p))
  have notFile : s.file p = none := clear p List.suffix_rfl
  simp [mkdirAll, unblocked, notFile]

theorem mkdirAll_error (h : mkdirAll p s = .error e s') :
    s' = s ∧ ∃ q f, q <:+ p ∧ s.file q = some f := by
  unfold mkdirAll at h
  split at h
  · rename_i stop
    refine ⟨by cases h; rfl, ?_⟩
    rcases Bool.or_eq_true _ _ ▸ stop with blk | isFile
    · obtain ⟨q, f, below, hf⟩ := DirTree.blocked_iff.mp blk
      exact ⟨q, f, below.trans (List.tail_suffix p), hf⟩
    · obtain ⟨f, hf⟩ := Option.isSome_iff_exists.mp isFile
      exact ⟨p, f, List.suffix_rfl, hf⟩
  · cases h

/-- Making directories touches no file. -/
theorem DirTree.file_addDirs (clear : ∀ q, q <:+ p → s.file q = none) (q : FilePath) :
    (s.addDirs p).file q = s.file q := by
  by_cases below : q <:+ p
  · rw [clear q below]
    simp [DirTree.file, below]
  · exact DirTree.file_of_get_eq (by simp [below])

theorem writeFile_ok (h : writeFile p fresh again s = .ok () s') :
    s.Holds p ∧ ∀ q, s'.get q =
      if q = p then some (.file (((s.file p).map again).getD fresh)) else s.get q := by
  unfold writeFile at h
  split at h
  · rename_i holds
    cases h
    exact ⟨holds, fun q => by simp⟩
  · cases h

theorem writeFile_of_holds (h : s.Holds p) :
    writeFile p fresh again s = .ok () (s.putFile p (((s.file p).map again).getD fresh) h) := by
  simp [writeFile, h]

theorem writeFile_error (h : writeFile p fresh again s = .error e s') : s' = s ∧ ¬ s.Holds p := by
  unfold writeFile at h
  split at h
  · cases h
  · rename_i holds
    exact ⟨by cases h; rfl, holds⟩

/-- A file can always be held where one already is. -/
theorem DirTree.holds_of_file (h : s.file p = some f) : s.Holds p := by
  have get := DirTree.file_eq_some.mp h
  cases p with
  | nil => simp [s.root] at get
  | cons x p =>
    refine ⟨by simp, s.parent x p (by simp [get]), ?_⟩
    simp [get]

theorem amend_of_file {f : φ → φ} (h : s.file p = some old) :
    amend p f s = .ok () (s.putFile p (f old) (DirTree.holds_of_file h)) := by
  simp [amend, h, DirTree.holds_of_file h]

theorem amend_ok {f : φ → φ} (h : amend p f s = .ok () s') :
    (∃ old, s.file p = some old ∧
      ∀ q, s'.get q = if q = p then some (.file (f old)) else s.get q) ∨
    (s.isDir p = true ∧ s' = s) := by
  unfold amend at h
  split at h
  · split at h
    · rename_i old hf
      cases h
      exact .inl ⟨old, hf, fun q => by simp⟩
    · cases h
  · split at h
    · rename_i isDir
      cases h
      exact .inr ⟨isDir, rfl⟩
    · cases h

theorem amend_error {f : φ → φ} (h : amend p f s = .error e s') :
    s' = s ∧ s.file p = none ∧ s.isDir p = false := by
  unfold amend at h
  split at h
  · split at h
    · cases h
    · rename_i holds _ hf
      refine ⟨by cases h; rfl, hf, ?_⟩
      rw [Bool.eq_false_iff, ne_eq, DirTree.isDir_iff]
      exact holds.2.2
  · rename_i holds
    split at h
    · cases h
    · rename_i notDir
      refine ⟨by cases h; rfl, ?_, by simpa using notDir⟩
      cases hf : s.file p with
      | none => rfl
      | some f => exact absurd (DirTree.holds_of_file hf) holds

/-- The only node at or below a file is the file itself. -/
theorem DirTree.below_file (h : s.file p = some f) (below : p <:+ q) (ne : q ≠ p) :
    s.get q = none :=
  DirTree.get_below_childless (DirTree.childless_of_file h) below (Ne.symm ne)

theorem rename_file_ok (hf : s.file src = some f) (holds : s.Holds dst) :
    ∃ s', rename src dst s = .ok () s' ∧ ∀ q, s'.get q =
      if q = dst then some (.file f) else if q = src then none else s.get q := by
  have get := DirTree.file_eq_some.mp hf
  refine ⟨_, by simp only [rename, get, holds, dite_true]; rfl, fun q => ?_⟩
  by_cases same : src = dst
  · subst same
    by_cases eq : q = src <;> simp [eq, get]
  · rw [if_neg same]
    have srcProper : src ≠ [] := (DirTree.holds_of_file hf).1
    have dstOut : ¬ src <:+ dst := by
      intro below
      have := DirTree.below_file hf below (Ne.symm same)
      rcases List.suffix_iff_eq_append.mp below with _
      obtain ⟨r, rfl⟩ := below
      cases r with
      | nil => exact same rfl
      | cons x r =>
        have dir : s.get (r ++ src) = some .dir := holds.2.1
        by_cases eq : r ++ src = src
        · rw [eq, get] at dir
          cases dir
        · rw [DirTree.below_file hf (List.suffix_append r src) eq] at dir
          cases dir
    by_cases eqDst : q = dst
    · subst eqDst
      simp [dstOut]
    · by_cases eqSrc : q = src
      · subst eqSrc
        simp [srcProper, eqDst]
      · simp only [DirTree.get_removeTree, DirTree.get_putFile, if_neg eqDst, if_neg eqSrc]
        by_cases below : src <:+ q
        · rw [DirTree.below_file hf below eqSrc]
          simp
        · simp [below]

theorem rename_error (h : rename src dst s = .error e s') : s' = s := by
  unfold rename at h
  split at h
  · cases h; rfl
  · split at h
    · cases h
    · cases h; rfl
  · split at h
    · cases h
    · unfold renameDir at h
      split at h
      · split at h
        · split at h
          · cases h
          · cases h; rfl
        · cases h; rfl
      · cases h; rfl

/-- A successful rename of a file, read back from its result. -/
theorem rename_ok_of_file (hf : s.file src = some f) (h : rename src dst s = .ok () s') :
    s.Holds dst ∧ ∀ q, s'.get q =
      if q = dst then some (.file f) else if q = src then none else s.get q := by
  have holds : s.Holds dst := by
    by_contra no
    have get := DirTree.file_eq_some.mp hf
    simp [rename, get, no] at h
  obtain ⟨t, run, get⟩ := rename_file_ok hf holds
  rw [run] at h
  cases h
  exact ⟨holds, get⟩

theorem remove_ok (h : remove p s = .ok () s') :
    p ≠ [] ∧ s.childless p = true ∧ (s.get p).isSome ∧
      ∀ q, s'.get q = if q = p then none else s.get q := by
  unfold remove at h
  split at h
  · cases h
  · rename_i node get
    split at h
    · rename_i empty
      cases h
      refine ⟨empty.1, empty.2, by simp [get], fun q => ?_⟩
      by_cases eq : q = p
      · simp [eq, empty.1]
      · by_cases below : p <:+ q
        · have := DirTree.get_below_childless empty.2 below (Ne.symm eq)
          simp [this]
        · simp [below, eq]
    · cases h

theorem remove_error (h : remove p s = .error e s') : s' = s := by
  unfold remove at h
  split at h
  · cases h; rfl
  · split at h
    · cases h
    · cases h; rfl

theorem remove_of_file (hf : s.file p = some f) :
    ∃ s', remove p s = .ok () s' ∧ ∀ q, s'.get q = if q = p then none else s.get q := by
  have proper := (DirTree.holds_of_file hf).1
  have empty := DirTree.childless_of_file hf
  have run : remove p s = .ok () (s.removeTree p) := by
    simp [remove, DirTree.file_eq_some.mp hf, proper, empty]
  exact ⟨_, run, (remove_ok run).2.2.2⟩

end Specs

end Posix
