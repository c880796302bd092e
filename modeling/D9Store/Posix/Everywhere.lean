import D9Store.Posix.Frame

/-!
Invariants of programs, and invariants of every file.

`Guards I Q x` says that `x` keeps `I` whatever its outcome, and that what it returns
satisfies `Q`. `Everywhere P` is the invariant that every file of a tree satisfies `P`; a
call keeps it when the files it makes up do.
-/

namespace Posix

section Guards

variable {ε ε' σ α β : Type} {I : σ → Prop} {Q : α → Prop} {R : β → Prop}

/-- `I` is kept, and results satisfy `Q`. -/
def Guards (I : σ → Prop) (Q : α → Prop) (x : EStateM ε σ α) : Prop :=
  ∀ s, I s → wp x (fun a t => I t ∧ Q a) (fun _ t => I t) s

namespace Guards

theorem pure {a : α} (h : Q a) : Guards I Q (pure a : EStateM ε σ α) := fun _ inv => ⟨inv, h⟩

theorem throw (e : ε) : Guards I Q (throw e : EStateM ε σ α) := fun _ inv => inv

variable {x : EStateM ε σ α} {f : α → EStateM ε σ β}

theorem bind (hx : Guards I Q x) (hf : ∀ a, Q a → Guards I R (f a)) :
    Guards I R (x >>= f) := fun s inv =>
  wp_bind.mpr (wp_mono (hx s inv) (fun a t h => hf a h.2 t h.1) fun _ _ h => h)

/-- A step whose result does not matter. -/
theorem seq (hx : Guards I (fun _ => True) x) (hf : ∀ a, Guards I R (f a)) :
    Guards I R (x >>= f) := hx.bind fun a _ => hf a

theorem attempt {x : EStateM ε' σ α} (hx : Guards I Q x) :
    Guards I (fun r => ∀ a, r = .ok a → Q a) (attempt x : EStateM ε σ (Except ε' α)) :=
  fun s inv => wp_attempt.mpr <| wp_mono (hx s inv)
    (fun a t h => ⟨h.1, fun b eq => by cases eq; exact h.2⟩) fun _ t h => ⟨h, fun b eq => by cases eq⟩

theorem ignore {x : EStateM ε' σ α} (hx : Guards I Q x) :
    Guards I (fun _ => True) (ignore x : EStateM ε σ Unit) := fun s inv =>
  wp_ignore.mpr (wp_mono (hx s inv) (fun _ _ h => ⟨h.1, trivial⟩) fun _ _ h => ⟨h, trivial⟩)

theorem failing {f : ε' → ε} {x : EStateM ε' σ α} (hx : Guards I Q x) : Guards I Q (failing f x) :=
  fun s inv => wp_failing.mpr (hx s inv)

theorem reading {f : σ → Except ε α} (h : ∀ s a, I s → f s = .ok a → Q a) : Guards I Q (reading f) :=
  fun s inv => wp_reading.mpr <| by
    cases eq : f s with
    | ok a => exact ⟨inv, h s a inv eq⟩
    | error e => exact inv

theorem ite {c : Prop} [Decidable c] {y : EStateM ε σ α} (hx : c → Guards I Q x)
    (hy : ¬ c → Guards I Q y) : Guards I Q (if c then x else y) := fun s inv =>
  wp_ite.mpr ⟨fun h => hx h s inv, fun h => hy h s inv⟩

theorem mono {Q' : α → Prop} (hx : Guards I Q x) (imp : ∀ a, Q a → Q' a) :
    Guards I Q' x := fun s inv => wp_mono (hx s inv) (fun a _ h => ⟨h.1, imp a h.2⟩) fun _ _ h => h

theorem final (hx : Guards I Q x) {s : σ} (inv : I s) : I (final x s) :=
  wp_final (wp_mono (hx s inv) (fun _ _ h => h.1) fun _ _ h => h)

end Guards

end Guards

section Everywhere

variable {φ α : Type} {P P' : φ → Prop} {s : DirTree φ} {p : FilePath} {f : φ}

/-- Every file satisfies `P`. -/
def Everywhere (P : φ → Prop) (s : DirTree φ) : Prop := ∀ p f, s.file p = some f → P f

theorem Everywhere.mono (h : Everywhere P s) (imp : ∀ f, P f → P' f) :
    Everywhere P' s := fun p f file => imp f (h p f file)

theorem everywhere_of_dom (h : ∀ p ∈ s.dom, s.file p = none) : Everywhere P s := by
  intro p f file
  have mem : p ∈ s.dom := (s.mem_dom p).mpr (by simp [DirTree.file_eq_some.mp file])
  rw [h p mem] at file
  cases file

/-- A tree whose files are old ones, apart from one place. -/
theorem Everywhere.update {t : DirTree φ} (h : Everywhere P s) (new : ∀ f, t.file p = some f → P f)
    (old : ∀ q, q ≠ p → ∀ f, t.file q = some f → ∃ q', s.file q' = some f) : Everywhere P t := by
  intro q f file
  by_cases eq : q = p
  · exact new f (eq ▸ file)
  · obtain ⟨q', file'⟩ := old q eq f file
    exact h q' f file'

/-- A tree that has only files of another one. -/
theorem Everywhere.sub {t : DirTree φ} (h : Everywhere P s)
    (old : ∀ q f, t.file q = some f → ∃ q', s.file q' = some f) : Everywhere P t := fun q f file =>
  (old q f file).elim fun q' file' => h q' f file'

/-- A call that keeps the files in order when it works, and does nothing when it fails. -/
theorem guards_call {x : Call φ α} (done : ∀ s t a, Everywhere P s → x s = .ok a t → Everywhere P t)
    (failed : ∀ s t e, x s = .error e t → t = s) : Guards (Everywhere P) (fun _ => True) x := by
  intro s inv
  refine wp_cases (fun a t run => ⟨done s t a inv run, trivial⟩) fun e t run => ?_
  rw [failed s t e run]
  exact inv

theorem guards_mkdirAll (p : FilePath) : Guards (Everywhere P) (fun _ => True) (mkdirAll p) :=
  guards_call
    (fun s t _ inv run q f file =>
      inv q f (by rw [← (Framed.mkdirAll run).file q (Set.notMem_empty _), file]))
    fun s t e run => (mkdirAll_error run).1

theorem guards_writeFile {fresh : φ} {again : φ → φ} (new : P fresh) (old : ∀ f, P f → P (again f)) :
    Guards (Everywhere P) (fun _ => True) (writeFile p fresh again) := by
  refine guards_call (fun s t _ inv run => ?_) fun s t e run => (writeFile_error run).1
  refine inv.update (p := p) (fun f file => ?_) fun q ne f file => ⟨q, ?_⟩
  · rw [file_writeFile run] at file
    cases file
    cases before : s.file p with
    | none => exact new
    | some g => exact old g (inv p g before)
  · rw [← (Framed.writeFile run).file q ne, file]

theorem guards_amend {g : φ → φ} (old : ∀ f, P f → P (g f)) :
    Guards (Everywhere P) (fun _ => True) (amend p g) := by
  refine guards_call (fun s t _ inv run => ?_) fun s t e run => (amend_error run).1
  refine inv.update (p := p) (fun f file => ?_) fun q ne f file => ⟨q, ?_⟩
  · rcases amend_ok run with ⟨before, found, get⟩ | ⟨-, rfl⟩
    · have now : t.file p = some (g before) := DirTree.file_eq_some.mpr (by rw [get, if_pos rfl])
      rw [now] at file
      cases file
      exact old before (inv p before found)
    · exact inv p f file
  · rw [← (Framed.amend run).file q ne, file]

theorem guards_remove (p : FilePath) : Guards (Everywhere P) (fun _ => True) (remove p) := by
  refine guards_call (fun s t _ inv run => inv.sub fun q f file => ⟨q, ?_⟩) fun s t e run =>
    remove_error run
  have get := (remove_ok run).2.2.2 q
  by_cases eq : q = p
  · rw [if_pos eq] at get
    simp [DirTree.file, get] at file
  · rw [if_neg eq] at get
    rwa [← DirTree.file_of_get_eq get]

theorem file_removeTree {q : FilePath} (h : (s.removeTree p).file q = some f) :
    s.file q = some f := by
  rw [DirTree.file_eq_some, DirTree.get_removeTree] at h
  split at h
  · cases h
  · exact DirTree.file_eq_some.mpr h

theorem guards_removeAll (p : FilePath) : Guards (Everywhere P) (fun _ => True) (removeAll p) := by
  refine guards_call (fun s t _ inv run => inv.sub fun q f file => ⟨q, ?_⟩) fun s t e run => by cases run
  cases run
  exact file_removeTree file

theorem file_vacate {q : FilePath} (h : (s.vacate p).file q = some f) : s.file q = some f := by
  unfold DirTree.vacate at h
  split at h
  · exact file_removeTree h
  · exact h

/-- The files of a moved directory are files of the tree. -/
theorem file_renameDir {t : DirTree φ} {src dst q : FilePath} (run : renameDir src dst s = .ok () t)
    (h : t.file q = some f) : ∃ q', s.file q' = some f := by
  unfold renameDir at run
  split at run
  · split at run
    · split at run
      · cases run
        have get := DirTree.file_eq_some.mp h
        simp only [DirTree.moveTree] at get
        split at get
        · exact ⟨_, file_vacate (DirTree.file_eq_some.mpr get)⟩
        · split at get
          · cases get
          · exact ⟨_, file_vacate (DirTree.file_eq_some.mpr get)⟩
      · cases run
    · cases run
  · cases run

theorem guards_rename (src dst : FilePath) : Guards (Everywhere P) (fun _ => True) (rename src dst) := by
  refine guards_call (fun s t _ inv run => inv.sub fun q f file => ?_) fun s t e run => rename_error run
  cases node : s.get src with
  | none => simp [rename, node] at run
  | some n =>
    cases n with
    | file g =>
      have found := DirTree.file_eq_some.mpr node
      have get := (rename_ok_of_file found run).2 q
      by_cases atDst : q = dst
      · rw [if_pos atDst] at get
        rw [DirTree.file_eq_some.mpr get] at file
        cases file
        exact ⟨src, found⟩
      · rw [if_neg atDst] at get
        by_cases atSrc : q = src
        · rw [if_pos atSrc] at get
          simp [DirTree.file, get] at file
        · rw [if_neg atSrc] at get
          exact ⟨q, by rwa [← DirTree.file_of_get_eq get]⟩
    | dir =>
      simp only [rename, node] at run
      split at run
      · cases run
        exact ⟨q, file⟩
      · exact file_renameDir run file

end Everywhere

end Posix
