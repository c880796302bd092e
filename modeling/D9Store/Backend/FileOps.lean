import D9Store.Posix.Frame
import D9Store.Backend.Places

/-!
What the file helpers do: `copyFile`, `moveFile`, `writeJSON`, `streamTo` and the removals.

Each helper has a weakest-precondition lemma that says which files it may change and what
they hold afterwards, and, where callers rely on it, a lemma that says when it succeeds.
Only file contents are followed through moves: a copy drops attributes, a rename keeps
them, and every reader of an object file has them rewritten first.
-/

namespace D9Store

open Posix FilePath

/-- The content of the file at `p`, if `p` is a file. -/
def content (s : Disk) (p : FilePath) : Option Content := (s.file p).map File.content

variable {s : Disk} {p : FilePath}

theorem content_eq_none : content s p = none ↔ s.file p = none := by
  simp [content]

theorem content_of_file_eq {t : Disk} {q : FilePath} (h : s.file p = t.file q) :
    content s p = content t q := by
  simp [content, h]

section Documents

variable {e : Env} {doc : Doc}

@[simp] theorem document_json : e.document (.json doc) = some doc := rfl

theorem readDoc_ok (h : e.readDoc s p = .ok doc) :
    ∃ f, s.file p = some f ∧ e.document f.content = some doc := by
  unfold Env.readDoc DirTree.readFile at h
  cases node : s.get p with
  | none => simp [node] at h
  | some n =>
    cases n with
    | dir => simp [node] at h
    | file f =>
      refine ⟨f, DirTree.file_eq_some.mpr node, ?_⟩
      cases found : e.document f.content with
      | none => simp [node, found] at h
      | some doc' =>
        simp only [node, found, Except.ok.injEq] at h
        rw [h]

theorem readDoc_of_document {f : File} (file : s.file p = some f)
    (found : e.document f.content = some doc) : e.readDoc s p = .ok doc := by
  simp [Env.readDoc, DirTree.readFile, DirTree.file_eq_some.mp file, found]

end Documents

theorem sys_run {α : Type} {x : Call File α} {t : Disk} {a : α} (h : x s = .ok a t) :
    sys x s = .ok a t :=
  failing_run h

theorem wp_sys {α : Type} {x : Call File α} {Q : α → Disk → Prop} {E : Err → Disk → Prop} :
    wp (sys x) Q E s ↔ wp x Q (fun err => E (.os err)) s :=
  wp_failing

namespace Env

variable {e : Env} {s t : Disk} {src dst p op : FilePath}

/-! ### Copies and moves -/

/-- The files a move may change: the temporary one only between volumes. -/
def moveCells (e : Env) (src dst : FilePath) : Set FilePath :=
  {q | q = src ∨ q = dst ∨ (q = tmpOf dst ∧ e.crosses src dst = true)}

section Copy

variable (near : e.crosses (tmpOf dst) dst = false) {f : File}

include near

/-- A copy changes its target and the temporary file beside it. -/
theorem copyFile_wp (apart : src ≠ tmpOf dst) :
    wp (e.copyFile src dst)
      (fun _ t => ∃ f, s.file src = some f ∧ s.Holds dst ∧ Framed {dst, tmpOf dst} ∅ s t ∧
        content t dst = some f.content ∧ t.file (tmpOf dst) = none)
      (fun _ t => Framed {tmpOf dst} ∅ s t) s := by
  have tmp_ne : tmpOf dst ≠ dst := suffixed_ne (by decide)
  unfold copyFile
  rw [wp_bind, wp_reading]
  by_cases found : (s.get src).isSome
  swap
  · simp only [found, Bool.false_eq_true, if_false]
    exact Framed.refl s
  simp only [found, if_true]
  rw [wp_bind]
  refine wp_cases (fun _ s₁ opened => ?_) (fun _ s₁ failed => ?_)
  swap
  · rw [(writeFile_error failed).1]
    exact Framed.refl s
  have frame₁ := Framed.writeFile opened
  have get₁ := (writeFile_ok opened).2
  have src_same : s₁.file src = s.file src := frame₁.file src apart
  have tmp_file := file_writeFile opened
  rw [wp_bind, wp_attempt, wp_reading]
  rcases node : s₁.get src with _ | _ | f
  · -- Not reachable: the source was found before the temporary file was made.
    have := get₁ src
    rw [if_neg apart] at this
    rw [← this, node] at found
    simp at found
  · simp only [DirTree.readFile, node]
    rw [wp_bind, wp_ignore]
    refine wp_cases (fun _ s₂ removed => ?_) (fun _ s₂ kept => ?_)
    · exact frame₁.trans (Framed.remove removed)
    · rw [remove_error kept]
      exact frame₁
  · simp only [DirTree.readFile, node]
    have src_file : s₁.file src = some f := DirTree.file_eq_some.mpr node
    rw [wp_bind]
    refine wp_cases (fun _ s₂ filled => ?_) (fun _ s₂ failed => ?_)
    swap
    · rw [(amend_error failed).1]
      exact frame₁
    have frame₂ := frame₁.trans (Framed.amend filled)
    obtain ⟨g, tmp_full, g_content⟩ : ∃ g, s₂.file (tmpOf dst) = some g ∧ g.content = f.content :=
      ⟨_, file_amend tmp_file filled, rfl⟩
    have noCross : e.osRename (tmpOf dst) dst = rename (tmpOf dst) dst := by
      simp [osRename, near]
    change wp (e.osRename (tmpOf dst) dst) _ _ s₂
    rw [noCross]
    refine wp_cases (fun _ s₃ renamed => ?_) (fun _ s₃ failed => ?_)
    · refine ⟨f, by rw [← src_same, src_file], ?_, ?_, ?_, ?_⟩
      · have get₂ : ∀ q, q ≠ tmpOf dst → s₂.get q = s.get q := fun q ne => by
          rcases amend_ok filled with ⟨old, -, get⟩ | ⟨-, rfl⟩
          · rw [get, if_neg ne, get₁, if_neg ne]
          · rw [get₁, if_neg ne]
        exact (rename_ok_of_file tmp_full renamed).1.congr (get₂ dst (Ne.symm tmp_ne)).symm
          (get₂ dst.tail (tail_ne_suffixed dst _)).symm
      · refine (frame₂.mono (by simp) subset_rfl).trans
          ((Framed.rename tmp_full renamed).mono (by simp [Set.pair_comm]) subset_rfl)
      · simp [content, file_rename_dst tmp_full renamed, g_content]
      · exact file_rename_src tmp_full renamed tmp_ne
    · rw [rename_error failed]
      exact frame₂

/-- A copy succeeds when the target can hold a file and no directory takes the place of
the temporary one. -/
theorem copyFile_runs (apart : src ≠ tmpOf dst) (file : s.file src = some f) (holds : s.Holds dst)
    (free : s.get (tmpOf dst) ≠ some .dir) : ∃ t, e.copyFile src dst s = .ok () t := by
  have tmp_ne : tmpOf dst ≠ dst := suffixed_ne (by decide)
  have tmp_tail : (tmpOf dst).tail = dst.tail := suffixed_tail _ holds.1
  have tmp_holds : s.Holds (tmpOf dst) :=
    ⟨suffixed_ne_nil _ _, by rw [tmp_tail]; exact holds.2.1, free⟩
  have noCross : e.osRename (tmpOf dst) dst = rename (tmpOf dst) dst := by
    simp [osRename, near]
  -- the states after each call, with the nodes the next call looks at
  obtain ⟨s₁, opened⟩ : ∃ s₁, writeFile (tmpOf dst) ⟨.raw [], {}, .wall⟩ (written (.raw [])) s =
      .ok () s₁ := ⟨_, writeFile_of_holds tmp_holds⟩
  have get₁ := (writeFile_ok opened).2
  have src_get : s₁.get src = some (.file f) := by
    rw [get₁, if_neg apart]
    exact DirTree.file_eq_some.mp file
  have tmp_file := file_writeFile opened
  obtain ⟨s₂, filled⟩ : ∃ s₂, amend (tmpOf dst) (written f.content) s₁ = .ok () s₂ :=
    ⟨_, amend_of_file tmp_file⟩
  have get₂ : ∀ q, q ≠ tmpOf dst → s₂.get q = s.get q := fun q ne => by
    rcases amend_ok filled with ⟨old, -, get⟩ | ⟨-, rfl⟩
    · rw [get, if_neg ne, get₁, if_neg ne]
    · rw [get₁, if_neg ne]
  have tmp_full := file_amend tmp_file filled
  have dst_holds : s₂.Holds dst :=
    holds.congr (get₂ dst (Ne.symm tmp_ne)) (get₂ dst.tail (tail_ne_suffixed dst _))
  obtain ⟨s₃, renamed, -⟩ := rename_file_ok tmp_full dst_holds
  refine ⟨s₃, ?_⟩
  have found : (s.get src).isSome := by simp [DirTree.file_eq_some.mp file]
  refine bind_ok.mpr ⟨(), s, by simp [reading, found], bind_ok.mpr ⟨(), s₁, opened, ?_⟩⟩
  refine bind_ok.mpr ⟨.ok f, s₁, by simp [attempt, reading, DirTree.readFile, src_get], ?_⟩
  exact bind_ok.mpr ⟨(), s₂, filled, by rw [noCross, renamed]⟩

/-- A move of a file. -/
theorem moveFile_wp (apart : src ≠ tmpOf dst) (ne : src ≠ dst) (file : s.file src = some f) :
    wp (e.moveFile src dst)
      (fun _ t => Framed (e.moveCells src dst) ∅ s t ∧ s.Holds dst ∧
        content t dst = some f.content ∧ t.file src = none ∧
        (e.crosses src dst = true → t.file (tmpOf dst) = none))
      (fun _ t => Framed {tmpOf dst} ∅ s t) s := by
  unfold moveFile
  rw [wp_bind, wp_attempt]
  by_cases cross : e.crosses src dst = true
  · have failed : e.osRename src dst s = .error .exdev s := by simp [osRename, cross]
    simp only [wp, failed]
    change wp (do e.copyFile src dst; remove src) _ _ s
    rw [wp_bind]
    refine wp_mono (copyFile_wp near apart) ?_ (fun _ _ h => h)
    rintro - t ⟨f', file', holds, frame, dst_content, tmp_gone⟩
    obtain rfl : f' = f := by
      rw [file'] at file
      exact Option.some.inj file
    have src_file : t.file src = some f' := by
      rw [frame.file src (by simp [ne, apart]), file']
    obtain ⟨u, removed, get⟩ := remove_of_file src_file
    have frame' := Framed.remove removed
    refine wp_of_run removed ⟨?_, holds, ?_, file_remove removed, fun _ => ?_⟩
    · refine (frame.mono ?_ subset_rfl).trans (frame'.mono ?_ subset_rfl)
      · rintro q (rfl | rfl) <;> simp [moveCells, cross]
      · rintro q rfl
        simp [moveCells]
    · rw [← dst_content]
      exact content_of_file_eq (frame'.file dst (by simp [Ne.symm ne]))
    · rw [frame'.file _ (by simp [Ne.symm apart]), tmp_gone]
  · have noCross : e.osRename src dst = rename src dst := by simp [osRename, cross]
    rw [noCross]
    refine wp_cases (fun _ t renamed => ?_) (fun err t failed => ?_)
    · rw [wp_pure]
      refine ⟨(Framed.rename file renamed).mono ?_ subset_rfl,
        (rename_ok_of_file file renamed).1, ?_, file_rename_src file renamed ne,
        fun h => absurd h cross⟩
      · rintro q (rfl | rfl) <;> simp [moveCells]
      · simp [content, file_rename_dst file renamed]
    · -- Without a volume boundary the copy cannot go where the rename could not.
      have noHolds : ¬ s.Holds dst := fun holds => by
        obtain ⟨t', run, -⟩ := rename_file_ok file holds
        rw [run] at failed
        cases failed
      rw [rename_error failed]
      change wp (do e.copyFile src dst; remove src) _ _ s
      rw [wp_bind]
      refine wp_mono (copyFile_wp near apart) ?_ (fun _ _ h => h)
      rintro - u ⟨-, -, holds, -⟩
      exact absurd holds noHolds

theorem moveFile_runs (apart : src ≠ tmpOf dst) (ne : src ≠ dst) (file : s.file src = some f)
    (holds : s.Holds dst) (free : s.get (tmpOf dst) ≠ some .dir) :
    ∃ t, e.moveFile src dst s = .ok () t := by
  by_cases cross : e.crosses src dst = true
  · have failed : e.osRename src dst s = .error .exdev s := by simp [osRename, cross]
    obtain ⟨t, copied⟩ := copyFile_runs near apart file holds free
    obtain ⟨-, -, -, frame, -, -⟩ := wp_ok (copyFile_wp near apart) copied
    have src_file : t.file src = some f := by
      rw [frame.file src (by simp [ne, apart]), file]
    obtain ⟨u, removed, -⟩ := remove_of_file src_file
    refine ⟨u, bind_ok.mpr ⟨.error .exdev, s, by simp [attempt, failed], ?_⟩⟩
    exact bind_ok.mpr ⟨(), t, copied, removed⟩
  · have noCross : e.osRename src dst = rename src dst := by simp [osRename, cross]
    obtain ⟨t, renamed, -⟩ := rename_file_ok file holds
    exact ⟨t, bind_ok.mpr ⟨.ok (), t, by simp [attempt, noCross, renamed], rfl⟩⟩

end Copy

/-! ### Documents and payloads -/

/-- Write through the temporary file beside `p`. -/
def writeThrough (p : FilePath) (c : Content) : M Unit := do
  sys (mkdirAll p.tail)
  sys (writeFile (jsonTmp p) ⟨c, {}, .wall⟩ (written c))
  sys (rename (jsonTmp p) p)

theorem streamTo_eq (p : FilePath) (payload : Bytes) :
    streamTo p payload = writeThrough p (.raw payload) := rfl

theorem writeJSON_eq {doc doc' : Doc} (h : e.marshal doc = .ok doc') (p : FilePath) :
    e.writeJSON p doc = writeThrough p (.json doc') := by
  funext s
  simp [writeJSON, writeThrough, bind_apply, reading, h]

theorem writeThrough_wp (c : Content) :
    wp (writeThrough p c)
      (fun _ t => Framed {p, jsonTmp p} {q | q <:+ p.tail} s t ∧ content t p = some c ∧
        t.file (jsonTmp p) = none)
      (fun _ t => Framed {jsonTmp p} {q | q <:+ p.tail} s t) s := by
  have tmp_ne : jsonTmp p ≠ p := suffixed_ne (by decide)
  unfold writeThrough
  rw [wp_bind, wp_sys]
  refine wp_cases (fun _ s₁ made => ?_) (fun _ s₁ failed => ?_)
  swap
  · rw [(mkdirAll_error failed).1]
    exact Framed.refl s
  have frame₁ : Framed {jsonTmp p} {q | q <:+ p.tail} s s₁ :=
    (Framed.mkdirAll made).mono (by simp) subset_rfl
  rw [wp_bind, wp_sys]
  refine wp_cases (fun _ s₂ opened => ?_) (fun _ s₂ failed => ?_)
  swap
  · rw [(writeFile_error failed).1]
    exact frame₁
  have frame₂ := frame₁.trans ((Framed.writeFile opened).mono subset_rfl (by simp))
  have tmp_file := file_writeFile opened
  rw [wp_sys]
  refine wp_cases (fun _ s₃ renamed => ?_) (fun _ s₃ failed => ?_)
  · refine ⟨?_, ?_, file_rename_src tmp_file renamed tmp_ne⟩
    · exact (frame₂.mono (by simp) subset_rfl).trans
        ((Framed.rename tmp_file renamed).mono (by simp [Set.pair_comm]) (by simp))
    · rw [content, file_rename_dst tmp_file renamed]
      cases s₁.file (jsonTmp p) <;> rfl
  · rw [rename_error failed]
    exact frame₂

theorem writeThrough_runs (c : Content) (proper : p ≠ []) (clear : ∀ q, q <:+ p.tail → s.file q = none)
    (notDir : s.get p ≠ some .dir) (free : s.get (jsonTmp p) ≠ some .dir) :
    ∃ t, writeThrough p c s = .ok () t := by
  have tmp_ne : jsonTmp p ≠ p := suffixed_ne (by decide)
  have tmp_tail : (jsonTmp p).tail = p.tail := suffixed_tail _ proper
  have made := mkdirAll_of_clear clear
  have tmp_holds : (s.addDirs p.tail).Holds (jsonTmp p) := by
    rw [← tmp_tail]
    exact DirTree.holds_addDirs (suffixed_ne_nil _ _) free
  obtain ⟨s₂, opened⟩ : ∃ s₂, writeFile (jsonTmp p) ⟨c, {}, .wall⟩ (written c) (s.addDirs p.tail) =
      .ok () s₂ := ⟨_, writeFile_of_holds tmp_holds⟩
  have get₂ := (writeFile_ok opened).2
  have holds : s₂.Holds p :=
    (DirTree.holds_addDirs proper notDir).congr (by rw [get₂, if_neg (Ne.symm tmp_ne)])
      (by rw [get₂, if_neg (show p.tail ≠ jsonTmp p from tail_ne_suffixed p _)])
  obtain ⟨s₃, renamed, -⟩ := rename_file_ok (file_writeFile opened) holds
  refine ⟨s₃, bind_ok.mpr ⟨(), _, sys_run made, ?_⟩⟩
  exact bind_ok.mpr ⟨(), s₂, sys_run opened, sys_run renamed⟩

/-! ### Removals -/

/-- `os.Remove` of what is not a file never takes a file away. -/
theorem file_ignore_remove (h : (ignore (remove p : Call File Unit) : M Unit) s = .ok () t) :
    Framed {p} ∅ s t ∧ t.file p = none := by
  unfold ignore at h
  cases run : remove p s with
  | ok _ t' =>
    simp only [run, EStateM.Result.ok.injEq, true_and] at h
    subst h
    exact ⟨Framed.remove run, file_remove run⟩
  | error err t' =>
    simp only [run, EStateM.Result.ok.injEq, true_and] at h
    subst h
    rw [remove_error run]
    refine ⟨Framed.refl s, ?_⟩
    cases hf : s.file p with
    | none => rfl
    | some f =>
      obtain ⟨u, ok, -⟩ := remove_of_file hf
      rw [ok] at run
      cases run

theorem ignore_runs {α ε : Type} (x : EStateM ε Disk α) (s : Disk) :
    (ignore x : M Unit) s = .ok () (final x s) := by
  unfold ignore final
  cases x s <;> rfl

theorem removeIfPresent_wp (p : FilePath) :
    wp (removeIfPresent p)
      (fun _ t => Framed {p} ∅ s t ∧ t.file p = none)
      (fun _ t => t = s ∧ s.file p = none) s := by
  have noFile : ∀ {err t}, remove p s = .error err t → s.file p = none := fun run => by
    cases hf : s.file p with
    | none => rfl
    | some f =>
      obtain ⟨u, ok, -⟩ := remove_of_file hf
      rw [ok] at run
      cases run
  unfold removeIfPresent
  rw [wp_bind, wp_attempt]
  refine wp_cases (fun _ t removed => ?_) (fun err t failed => ?_)
  · exact ⟨Framed.remove removed, file_remove removed⟩
  · have none := noFile failed
    rw [remove_error failed]
    cases err with
    | noent => exact ⟨Framed.refl s, none⟩
    | _ => exact ⟨rfl, none⟩

/-- Removing a document that is a file or missing in reachable directories succeeds. -/
theorem removeIfPresent_runs (clear : ∀ q, q <:+ p.tail → s.file q = none)
    (notDir : s.get p ≠ some .dir) : ∃ t, removeIfPresent p s = .ok () t := by
  unfold removeIfPresent
  rcases node : s.get p with _ | _ | f
  · have unblocked := DirTree.not_blocked_iff.mpr clear
    refine ⟨s, bind_ok.mpr ⟨.error .noent, s, ?_, rfl⟩⟩
    simp [attempt, remove, node, DirTree.missing, unblocked]
  · exact absurd node notDir
  · obtain ⟨t, removed, -⟩ := remove_of_file (DirTree.file_eq_some.mpr node)
    exact ⟨t, bind_ok.mpr ⟨.ok (), t, by simp [attempt, removed], rfl⟩⟩

/-- Pruning only ever removes nodes between the bucket and the removed object, and none
of them is a file unless it was one already. -/
theorem pruneEmptyDirs_spec {stop dir : FilePath}
    (clear : ∀ q, q <:+ dir → Below stop q → s.file q = none) :
    ∃ t, pruneEmptyDirs stop dir s = .ok () t ∧ Framed ∅ ∅ s t := by
  induction dir generalizing s with
  | nil => exact ⟨s, rfl, Framed.refl s⟩
  | cons seg dir ih =>
    unfold pruneEmptyDirs
    by_cases below : Below stop (seg :: dir)
    swap
    · exact ⟨s, by simp [below], Framed.refl s⟩
    rw [if_pos below]
    cases run : remove (seg :: dir) s with
    | error err u =>
      refine ⟨s, ?_, Framed.refl s⟩
      have := remove_error run
      exact bind_ok.mpr ⟨.error err, s, by simp [attempt, run, this], rfl⟩
    | ok _ u =>
      have frame : Framed ∅ ∅ s u := by
        refine Framed.drop (p := seg :: dir) ((Framed.remove run).mono (by simp) subset_rfl) ?_
        rw [file_remove run, clear _ List.suffix_rfl below]
      have clear' : ∀ q, q <:+ dir → Below stop q → u.file q = none := fun q sub b => by
        rw [frame.file q (by simp)]
        exact clear q (sub.trans (List.suffix_cons seg dir)) b
      obtain ⟨t, pruned, frame'⟩ := ih clear'
      exact ⟨t, bind_ok.mpr ⟨.ok (), u, by simp [attempt, run], pruned⟩, frame.trans frame'⟩

/-- `removeCurrent` takes away the object file and no other, as long as no other object
file stands on the way to it. -/
theorem removeCurrent_spec {bucket key : String} (place : e.objectPath bucket key = .ok op)
    (clear : ∀ q, q <:+ op.tail → Below (e.bucketDir bucket) q → s.file q = none) :
    ∃ t, e.removeCurrent bucket key s = .ok () t ∧ Framed {op} ∅ s t ∧ t.file op = none := by
  simp only [removeCurrent, place]
  obtain ⟨frame, gone⟩ := file_ignore_remove (ignore_runs (remove op : Call File Unit) s)
  have op_ne : op ≠ [] := (confine_ok place).2.2.ne_nil
  have not_op : ∀ q, q <:+ op.tail → q ≠ op := fun q sub eq => by
    have len := sub.length_le
    rw [eq, List.length_tail] at len
    have := List.length_pos_iff.mpr op_ne
    omega
  have clear' : ∀ q, q <:+ op.tail → Below (e.bucketDir bucket) q →
      (final (remove op : Call File Unit) s).file q = none := fun q sub below => by
    rw [frame.file q (not_op q sub), clear q sub below]
  obtain ⟨t, pruned, frame'⟩ := pruneEmptyDirs_spec clear'
  refine ⟨t, bind_ok.mpr ⟨(), _, ignore_runs _ s, pruned⟩, ?_, ?_⟩
  · exact frame.trans (frame'.mono (by simp) subset_rfl)
  · rw [frame'.file op (by simp), gone]

/-- A clear way to an object that exists. -/
theorem clear_of_file {f : File} (file : s.file op = some f) :
    ∀ q, q <:+ op.tail → s.file q = none :=
  DirTree.not_blocked_iff.mp (DirTree.not_blocked_of_some (by simp [DirTree.file_eq_some.mp file]))

end Env

/-- The attributes and the time of the object file after `writeCurrentXattrs`. -/
def File.stamp (f : File) (v : ObjectMeta) : File :=
  { f with
    xattrs := f.xattrs.store v
    mtime := if v.lastModified.isZero then f.mtime else v.lastModified.fileTime }

theorem writeCurrentXattrs_spec {f : File} (file : s.file p = some f) (v : ObjectMeta) :
    ∃ t, writeCurrentXattrs p v s = .ok () t ∧ Framed {p} ∅ s t ∧
      t.file p = some (f.stamp v) := by
  obtain ⟨s₁, stored⟩ : ∃ s₁, amend p (fun f => { f with xattrs := f.xattrs.store v }) s =
      .ok () s₁ := ⟨_, amend_of_file file⟩
  have frame := Framed.amend stored
  have file₁ := file_amend file stored
  by_cases zero : v.lastModified.isZero = true
  · refine ⟨s₁, bind_ok.mpr ⟨(), s₁, sys_run stored, by simp [zero]⟩, frame, ?_⟩
    simp [file₁, File.stamp, zero]
  · obtain ⟨s₂, stamped⟩ : ∃ s₂, amend p
        (fun f : File => { f with mtime := v.lastModified.fileTime }) s₁ = .ok () s₂ :=
      ⟨_, amend_of_file file₁⟩
    refine ⟨s₂, bind_ok.mpr ⟨(), s₁, sys_run stored, ?_⟩,
      frame.trans (Framed.amend stamped), ?_⟩
    · simp [zero, ignore, stamped]
    · simp [file_amend file₁ stamped, File.stamp, zero]

end D9Store
