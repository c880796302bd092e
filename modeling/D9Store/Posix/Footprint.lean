import D9Store.Posix.Everywhere

/-!
Footprints of programs.

A program stays `Within F D` when, whatever its outcome, it changes no file outside `F` and
makes no directory outside `D`. Footprints compose like invariants: being framed by the
starting tree is one.
-/

namespace Posix

variable {φ ε ε' α β : Type} {F F' D D' : Set FilePath}

def Within (F D : Set FilePath) (x : EStateM ε (DirTree φ) α) : Prop :=
  ∀ s, wp x (fun _ t => Framed F D s t) (fun _ t => Framed F D s t) s

namespace Within

variable {x : EStateM ε (DirTree φ) α}

theorem guards (h : Within F D x) (s : DirTree φ) :
    Guards (Framed F D s) (fun _ => True) x := fun t frame =>
  wp_mono (h t) (fun _ _ frame' => ⟨frame.trans frame', trivial⟩) fun _ _ frame' => frame.trans frame'

theorem of_guards {Q : α → Prop} (h : ∀ s, Guards (Framed F D s) Q x) : Within F D x := fun s =>
  wp_mono (h s s (Framed.refl s)) (fun _ _ frame => frame.1) fun _ _ frame => frame

theorem mono (h : Within F D x) (files : F ⊆ F') (dirs : D ⊆ D') : Within F' D' x := fun s =>
  wp_mono (h s) (fun _ _ frame => frame.mono files dirs) fun _ _ frame => frame.mono files dirs

theorem final (h : Within F D x) (s : DirTree φ) : Framed F D s (final x s) := wp_final (h s)

/-! ### Composition -/

theorem pure (a : α) : Within F D (pure a : EStateM ε (DirTree φ) α) := fun s => Framed.refl s

theorem throw (err : ε) : Within F D (throw err : EStateM ε (DirTree φ) α) := fun s => Framed.refl s

theorem reading (f : DirTree φ → Except ε α) : Within F D (reading f) := fun s =>
  wp_reading.mpr <| by cases f s <;> exact Framed.refl s

theorem bind {f : α → EStateM ε (DirTree φ) β} (hx : Within F D x) (hf : ∀ a, Within F D (f a)) :
    Within F D (x >>= f) :=
  of_guards fun s => (hx.guards s).seq fun a => (hf a).guards s

theorem attempt {x : EStateM ε' (DirTree φ) α} (hx : Within F D x) :
    Within F D (attempt x : EStateM ε (DirTree φ) (Except ε' α)) :=
  of_guards fun s => (hx.guards s).attempt

theorem ignore {x : EStateM ε' (DirTree φ) α} (hx : Within F D x) :
    Within F D (ignore x : EStateM ε (DirTree φ) Unit) :=
  of_guards fun s => (hx.guards s).ignore

theorem failing {f : ε' → ε} {x : EStateM ε' (DirTree φ) α} (hx : Within F D x) :
    Within F D (failing f x) := of_guards fun s => (hx.guards s).failing

theorem ite {c : Prop} [Decidable c] {y : EStateM ε (DirTree φ) α} (hx : c → Within F D x)
    (hy : ¬ c → Within F D y) : Within F D (if c then x else y) := fun s =>
  wp_ite.mpr ⟨fun h => hx h s, fun h => hy h s⟩

/-! ### Calls -/

theorem call {x : Call φ α} (done : ∀ s t a, x s = .ok a t → Framed F D s t)
    (failed : ∀ s t err, x s = .error err t → t = s) : Within F D x := fun s =>
  wp_cases (fun a t run => done s t a run) fun err t run => by
    rw [failed s t err run]
    exact Framed.refl s

variable {p : FilePath}

theorem mkdirAll (dirs : ∀ q, q <:+ p → q ∈ D) : Within F D (mkdirAll p : Call φ Unit) :=
  call (fun _ _ _ run => (Framed.mkdirAll run).mono (Set.empty_subset _) fun q sub => dirs q sub)
    fun _ _ _ run => (mkdirAll_error run).1

theorem writeFile {fresh : φ} {again : φ → φ} (mem : p ∈ F) : Within F D (writeFile p fresh again) :=
  call (fun _ _ _ run => (Framed.writeFile run).mono (by simpa using mem) (Set.empty_subset _))
    fun _ _ _ run => (writeFile_error run).1

theorem amend {f : φ → φ} (mem : p ∈ F) : Within F D (amend p f) :=
  call (fun _ _ _ run => (Framed.amend run).mono (by simpa using mem) (Set.empty_subset _))
    fun _ _ _ run => (amend_error run).1

theorem remove (mem : p ∈ F) : Within F D (remove p : Call φ Unit) :=
  call (fun _ _ _ run => (Framed.remove run).mono (by simpa using mem) (Set.empty_subset _))
    fun _ _ _ run => remove_error run

theorem removeAll (mem : ∀ q, p <:+ q → q ∈ F) : Within F D (removeAll p : Call φ Unit) := by
  refine call (fun s t _ run => ?_) fun s t err run => by cases run
  cases run
  refine ⟨fun q out => ?_, fun q _ dir => ?_⟩
  · refine DirTree.file_of_get_eq ?_
    rw [DirTree.get_removeTree, if_neg fun h => out (mem q h.1)]
  · rw [DirTree.get_removeTree] at dir
    split at dir
    · cases dir
    · exact dir

variable {src dst : FilePath}

theorem vacate_framed {s : DirTree φ} (files : ∀ q, dst <:+ q → q ∈ F) :
    Framed F D s (s.vacate dst) := by
  unfold DirTree.vacate
  split
  · refine ⟨fun q out => ?_, fun q _ dir => ?_⟩
    · refine DirTree.file_of_get_eq ?_
      rw [DirTree.get_removeTree, if_neg fun h => out (files q h.1)]
    · rw [DirTree.get_removeTree] at dir
      split at dir
      · cases dir
      · exact dir
  · exact Framed.refl s

/-- A rename inside two subtrees, of a file or of a directory. -/
theorem rename (sources : ∀ q, src <:+ q → q ∈ F) (targets : ∀ q, dst <:+ q → q ∈ F)
    (dirs : ∀ q, dst <:+ q → q ∈ D) : Within F D (rename src dst : Call φ Unit) := by
  refine call (fun s t _ run => ?_) fun s t err run => rename_error run
  cases node : s.get src with
  | none => simp [Posix.rename, node] at run
  | some n =>
    cases n with
    | file f =>
      refine (Framed.rename (DirTree.file_eq_some.mpr node) run).mono ?_ (Set.empty_subset _)
      rintro q (rfl | rfl)
      · exact sources _ List.suffix_rfl
      · exact targets _ List.suffix_rfl
    | dir =>
      simp only [Posix.rename, node] at run
      split at run
      · cases run
        exact Framed.refl s
      · unfold renameDir at run
        split at run
        · split at run
          · split at run
            · cases run
              refine (vacate_framed targets).trans ⟨fun q out => ?_, fun q out dir => ?_⟩
              · refine DirTree.file_of_get_eq ?_
                simp only [DirTree.moveTree]
                rw [if_neg fun h => out (targets q h), if_neg fun h => out (sources q h)]
              · simp only [DirTree.moveTree] at dir
                rw [if_neg fun h => out (dirs q h)] at dir
                split at dir
                · cases dir
                · exact dir
            · cases run
          · cases run
        · cases run

end Within

/-! ### Programs that only remove -/

/-- Every node of the new tree is one of the old. -/
def Shrinks (s t : DirTree φ) : Prop := ∀ q, t.get q = s.get q ∨ t.get q = none

namespace Shrinks

variable {s t u : DirTree φ} {p : FilePath}

theorem refl (s : DirTree φ) : Shrinks s s := fun _ => .inl rfl

theorem trans (h : Shrinks s t) (h' : Shrinks t u) : Shrinks s u := fun q => by
  rcases h' q with eq | gone
  · rw [eq]
    exact h q
  · exact .inr gone

theorem file (h : Shrinks s t) (absent : s.file p = none) : t.file p = none := by
  rcases h p with eq | gone
  · rw [DirTree.file_of_get_eq eq, absent]
  · rw [DirTree.file, gone]

theorem notDir (h : Shrinks s t) (free : s.get p ≠ some .dir) : t.get p ≠ some .dir := by
  rcases h p with eq | gone
  · rwa [eq]
  · simp [gone]

theorem get (h : Shrinks s t) (absent : s.get p = none) : t.get p = none := by
  rcases h p with eq | gone
  · rw [eq, absent]
  · exact gone

theorem guards_remove (p : FilePath) :
    Guards (Shrinks s) (fun _ => True) (remove p : Call φ Unit) := fun t h => by
  refine wp_cases (fun _ u run => ⟨h.trans fun q => ?_, trivial⟩) fun _ u run => ?_
  · rw [(remove_ok run).2.2.2]
    split
    · exact .inr rfl
    · exact .inl rfl
  · rw [remove_error run]
    exact h

theorem guards_removeAll (p : FilePath) :
    Guards (Shrinks s) (fun _ => True) (removeAll p : Call φ Unit) := fun t h => by
  refine wp_of_run (t := t.removeTree p) rfl ⟨h.trans fun q => ?_, trivial⟩
  rw [DirTree.get_removeTree]
  split
  · exact .inr rfl
  · exact .inl rfl

end Shrinks

end Posix
