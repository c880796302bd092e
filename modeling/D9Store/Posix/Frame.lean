import D9Store.Posix.Calls

/-!
Frames: what a piece of a program leaves alone.

`Framed F D s t` says that outside `F` the trees `s` and `t` have the same files and that
`t` has no directory outside `D` which `s` does not have. Empty directories come and go
in system code, so the frame of a program says nothing about the directories it removes.
-/

namespace Posix

variable {φ : Type}

structure Framed (F D : Set FilePath) (s t : DirTree φ) : Prop where
  file : ∀ q, q ∉ F → t.file q = s.file q
  dir : ∀ q, q ∉ D → t.get q = some .dir → s.get q = some .dir

namespace Framed

variable {F F' D D' : Set FilePath} {s t u : DirTree φ} {p q src dst : FilePath}

theorem refl (s : DirTree φ) : Framed F D s s := ⟨fun _ _ => rfl, fun _ _ h => h⟩

theorem trans (h : Framed F D s t) (h' : Framed F D t u) : Framed F D s u where
  file q out := (h'.file q out).trans (h.file q out)
  dir q out isDir := h.dir q out (h'.dir q out isDir)

theorem mono (h : Framed F D s t) (hF : F ⊆ F') (hD : D ⊆ D') : Framed F' D' s t where
  file q out := h.file q fun mem => out (hF mem)
  dir q out := h.dir q fun mem => out (hD mem)

/-- A file that was there before and after a step may leave its frame. -/
theorem drop (h : Framed (F ∪ {p}) D s t) (same : t.file p = s.file p) : Framed F D s t where
  file q out := by
    by_cases eq : q = p
    · rw [eq, same]
    · exact h.file q (by simp [out, eq])
  dir := h.dir

/-- A step that changes one node into or from a file. -/
theorem of_get (h : ∀ q, q ≠ p → t.get q = s.get q) (notDir : t.get p ≠ some .dir) :
    Framed {p} ∅ s t where
  file q out := DirTree.file_of_get_eq (h q out)
  dir q _ isDir := by
    by_cases eq : q = p
    · rw [eq] at isDir
      exact absurd isDir notDir
    · rwa [← h q eq]

theorem mkdirAll (h : mkdirAll p s = .ok () t) : Framed ∅ {q | q <:+ p} s t := by
  obtain ⟨clear, rfl⟩ := mkdirAll_ok h
  refine ⟨fun q _ => DirTree.file_addDirs clear q, fun q out isDir => ?_⟩
  simpa [show ¬ q <:+ p from out] using isDir

theorem writeFile {fresh : φ} {again : φ → φ} (h : writeFile p fresh again s = .ok () t) :
    Framed {p} ∅ s t := by
  obtain ⟨-, get⟩ := writeFile_ok h
  exact of_get (fun q ne => by simp [get, ne]) (by simp [get])

theorem amend {f : φ → φ} (h : amend p f s = .ok () t) : Framed {p} ∅ s t := by
  rcases amend_ok h with ⟨old, -, get⟩ | ⟨-, rfl⟩
  · exact of_get (fun q ne => by simp [get, ne]) (by simp [get])
  · exact refl _

theorem rename {f : φ} (hf : s.file src = some f) (h : rename src dst s = .ok () t) :
    Framed {src, dst} ∅ s t := by
  obtain ⟨-, get⟩ := rename_ok_of_file hf h
  refine ⟨fun q out => ?_, fun q _ isDir => ?_⟩
  · simp only [Set.mem_insert_iff, Set.mem_singleton_iff, not_or] at out
    exact DirTree.file_of_get_eq (by simp [get, out.1, out.2])
  · rw [get] at isDir
    split at isDir
    · cases isDir
    · split at isDir
      · cases isDir
      · exact isDir

theorem remove (h : remove p s = .ok () t) : Framed {p} ∅ s t := by
  obtain ⟨-, -, -, get⟩ := remove_ok h
  exact of_get (fun q ne => by simp [get, ne]) (by simp [get])

end Framed

section Files

variable {s t : DirTree φ} {p q src dst : FilePath} {f old : φ}

theorem file_writeFile {fresh : φ} {again : φ → φ} (h : writeFile p fresh again s = .ok () t) :
    t.file p = some (((s.file p).map again).getD fresh) := by
  rw [DirTree.file_eq_some, (writeFile_ok h).2, if_pos rfl]

theorem file_amend {f : φ → φ} (hf : s.file p = some old) (h : amend p f s = .ok () t) :
    t.file p = some (f old) := by
  rw [amend_of_file hf] at h
  cases h
  simp [DirTree.file]

theorem file_rename_dst (hf : s.file src = some f) (h : rename src dst s = .ok () t) :
    t.file dst = some f := by
  rw [DirTree.file_eq_some, (rename_ok_of_file hf h).2, if_pos rfl]

theorem file_rename_src (hf : s.file src = some f) (h : rename src dst s = .ok () t)
    (ne : src ≠ dst) : t.file src = none := by
  rw [DirTree.file_eq_none, (rename_ok_of_file hf h).2, if_neg ne, if_pos rfl]
  exact .inl rfl

theorem file_remove (h : remove p s = .ok () t) : t.file p = none := by
  rw [DirTree.file_eq_none, (remove_ok h).2.2.2, if_pos rfl]
  exact .inl rfl

/-- `Holds` looks at two nodes only. -/
theorem DirTree.Holds.congr (h : s.Holds p) (same : t.get p = s.get p)
    (sameDir : t.get p.tail = s.get p.tail) : t.Holds p := by
  refine ⟨h.1, ?_, ?_⟩
  · rw [sameDir, h.2.1]
  · rw [same]
    exact h.2.2

/-- A path can hold a file once its directory was made, unless it is a directory. -/
theorem DirTree.holds_addDirs (proper : p ≠ []) (notDir : s.get p ≠ some .dir) :
    (s.addDirs p.tail).Holds p := by
  refine ⟨proper, by simp, ?_⟩
  have : ¬ p <:+ p.tail := by
    cases p with
    | nil => exact absurd rfl proper
    | cons x p => exact fun h => by simpa using h.length_le
  simpa [this] using notDir

end Files

end Posix
