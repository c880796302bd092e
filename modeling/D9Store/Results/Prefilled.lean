import D9Store.Node.Mirror
import D9Store.Runs

/-!
Prefilled files under a snapshot install.

Files of the data tree without the managed marker are the operator's. A restoration sweeps
only managed files away, and then writes every entry of the archive over whatever lies in
its place.
-/

namespace D9Store

open Posix FilePath

/-- A file of the data tree that was not written through the log. -/
def Prefilled (e : Env) (s : Disk) (p : FilePath) (f : File) : Prop :=
  Below e.root p ∧ s.file p = some f ∧ f.xattrs.managed = false

/-- The prefilled files of `s` are still there, with their bytes and without the marker. -/
def Unharmed (e : Env) (s t : Disk) : Prop :=
  ∀ p f, Prefilled e s p f → ∃ g, Prefilled e t p g ∧ e.bytes g.content = e.bytes f.content

/-- In the place of a prefilled file of `s` the archive has nothing, or an unmanaged file of
the same bytes. -/
def Agreeable (e : Env) (s : Disk) (archive : Archive) : Prop :=
  ∀ p f, Prefilled e s p f → ∀ entry ∈ archive, entry.part = .data → entry.rel ++ e.root = p →
    e.bytes entry.content = e.bytes f.content ∧ entry.xattrs.managed = false

/-- The prefilled files of `s` are untouched in `t`. -/
def Spared (e : Env) (s t : Disk) : Prop := ∀ p f, Prefilled e s p f → t.file p = s.file p

namespace Spared

variable {e : Env} {s t u : Disk}

theorem prefilled (h : Spared e s t) {p : FilePath} {f : File} (pre : Prefilled e s p f) :
    Prefilled e t p f := ⟨pre.1, by rw [h p f pre, pre.2.1], pre.2.2⟩

theorem trans (h : Spared e s t) (h' : Spared e t u) : Spared e s u := fun p f pre => by
  rw [h' p f (h.prefilled pre), h p f pre]

theorem unharmed (h : Spared e s t) : Unharmed e s t := fun _ f pre => ⟨f, h.prefilled pre, rfl⟩

theorem of_cleared (h : Env.Cleared s t) : Spared e s t := by
  rintro p f ⟨-, file, off⟩
  refine h.frame.file p ?_
  rintro ⟨g, file', on⟩
  rw [file] at file'
  cases file'
  rw [off] at on
  cases on

theorem of_frame {D : Set FilePath} (h : Framed ∅ D s t) : Spared e s t :=
  fun p _ _ => h.file p (Set.notMem_empty _)

end Spared

namespace Env

variable {e : Env} {s s₁ t : Disk} {archive : Archive} {entry : ArchiveEntry}

/-! ### Up to the extraction -/

/-- The state directories are none of the data tree's. -/
theorem removeAllEach_spared (s : Disk) :
    ∃ t, removeAllEach (resetDirs.map fun d => e.idir [d]) s = .ok () t ∧ Spared e s t := by
  obtain ⟨t, run, get⟩ := removeAllEach_spec (resetDirs.map fun d => e.idir [d]) s
  refine ⟨t, run, fun p f pre => DirTree.file_of_get_eq ?_⟩
  rw [get, if_neg]
  rintro ⟨⟨q, mem, sub⟩, -⟩
  obtain ⟨d, dmem, rfl⟩ := List.mem_map.mp mem
  have plain : ∀ d ∈ resetDirs, Plain d := by decide
  rw [idir_single (plain d dmem)] at sub
  exact data_not_area pre.1.1 sub rfl

theorem sweep_wp (s : Disk) :
    wp e.sweep (fun _ t => Spared e s t) (fun _ t => Spared e s t) s := by
  obtain ⟨s₁, run₁, swept⟩ := removeReplicatedObjectFiles_spec (e := e) s
  obtain ⟨s₂, run₂, spared⟩ := removeAllEach_spared (e := e) s₁
  have before := (Spared.of_cleared swept).trans spared
  unfold sweep
  rw [wp_bind]
  refine wp_of_run run₁ ?_
  rw [wp_bind]
  refine wp_of_run run₂ ?_
  exact wp_mono (mkdirEach_wp _ s₂) (fun _ t h => before.trans (Spared.of_frame h))
    (fun _ t h => before.trans (Spared.of_frame h))

/-! ### The extraction -/

/-- An entry in the place of a prefilled file belongs to the object tree. -/
theorem data_of_target (data : e.root <:+ e.target entry) : entry.part = .data := by
  cases part : entry.part with
  | data => rfl
  | state =>
    rw [target, part] at data
    exact absurd rfl (data_not_state data (List.suffix_append _ _))

theorem extract_unharmed (old : Unharmed e s s₁) (ok : Agreeable e s [entry]) :
    wp (e.extract entry) (fun _ t => Unharmed e s t) (fun _ t => Unharmed e s t) s₁ := by
  refine wp_mono (extract_wp entry s₁) ?_ ?_
  · rintro - t ⟨frame, file⟩ p f pre
    obtain ⟨g, now, bytes⟩ := old p f pre
    by_cases eq : p = e.target entry
    · subst eq
      have data := data_of_target pre.1.1
      have place : entry.rel ++ e.root = e.target entry := by rw [target, data]; rfl
      obtain ⟨same, off⟩ := ok _ f pre entry List.mem_cons_self data place
      refine ⟨_, ⟨pre.1, file, ?_⟩, ?_⟩
      · simp [extracted, now.2.1, written, Xattrs.overlay, off, now.2.2]
      · simpa [extracted, now.2.1, written] using same
    · exact ⟨g, ⟨now.1, by rw [frame.file p eq, now.2.1], now.2.2⟩, bytes⟩
  · intro _ t frame
    exact fun p f pre => by
      obtain ⟨g, now, bytes⟩ := old p f pre
      exact ⟨g, (Spared.of_frame frame).prefilled now, bytes⟩

theorem extractAll_unharmed (old : Unharmed e s s₁) (ok : Agreeable e s archive) :
    wp (e.extractAll archive) (fun _ t => Unharmed e s t) (fun _ t => Unharmed e s t) s₁ := by
  induction archive generalizing s₁ with
  | nil => exact old
  | cons entry rest ih =>
    unfold extractAll
    rw [wp_bind]
    have head : Agreeable e s [entry] := fun p f pre b mem =>
      ok p f pre b (by rw [List.mem_singleton.mp mem]; exact List.mem_cons_self)
    have tail : Agreeable e s rest := fun p f pre b mem =>
      ok p f pre b (List.mem_cons_of_mem _ mem)
    exact wp_mono (extract_unharmed old head) (fun _ t h => ih h tail) fun _ t h => h

/-- The archive's entries show in what a complete extraction leaves. -/
theorem agreeable_of_extracted (spared : Spared e s s₁)
    (distinct : archive.Pairwise fun a b => e.target a ≠ e.target b)
    (run : e.extractAll archive s₁ = .ok () t) (h : Unharmed e s t) : Agreeable e s archive := by
  intro p f pre entry mem data place
  have file := (extractAll_ok distinct run).2 entry mem
  have here : e.target entry = p := by rw [target, data, ← place]; rfl
  obtain ⟨g, now, bytes⟩ := h p f pre
  rw [here, now.2.1, spared p f pre, pre.2.1] at file
  have eq := Option.some.inj file
  have off := now.2.2
  rw [eq] at bytes off
  simp only [extracted, Option.map_some, Option.getD_some, written, Xattrs.overlay,
    Bool.or_eq_false_iff] at bytes off
  exact ⟨bytes, off.1⟩

end Env

/-! ### The install -/

theorem restoreFrom_disk (e : Env) (archive : Archive) (b : Backend) :
    (final (Backend.restoreFrom e archive) b).disk = final (e.restoreDisk archive) b.disk ∧
      ((outcome (Backend.restoreFrom e archive) b).isOk = true →
        ∃ t, e.restoreDisk archive b.disk = .ok () t) := by
  cases run : e.restoreDisk archive b.disk with
  | error err t =>
    have whole : Backend.restoreFrom e archive b = .error err { b with disk := t } := by
      simp [Backend.restoreFrom, bind_apply, Backend.onDisk, run]
    simp [final, outcome, whole, run, Except.isOk, Except.toBool]
  | ok _ t =>
    have whole : Backend.restoreFrom e archive b = Backend.loadAccounts e { b with disk := t } := by
      simp [Backend.restoreFrom, bind_apply, Backend.onDisk, run]
    refine ⟨?_, fun _ => ⟨t, rfl⟩⟩
    simp only [final, whole, run, Backend.loadAccounts]
    split <;> rename_i h <;> revert h <;> split <;> intro h <;> cases h <;> rfl

/-- In the place of a prefilled file of `s` the sender has no file, or an unmanaged one of the
same bytes. -/
def Compatible (e : Env) (s : Disk) (e' : Env) (s' : Disk) : Prop :=
  ∀ rel f, Prefilled e s (rel ++ e.root) f → ∀ g, s'.file (rel ++ e'.root) = some g →
    e.bytes g.content = e.bytes f.content ∧ g.xattrs.managed = false

theorem agreeable_snapshotTo {e e' : Env} {s s' : Disk} :
    Agreeable e s (e'.snapshotTo s') ↔ Compatible e s e' s' := by
  constructor
  · intro h rel f pre g file
    have proper : rel ≠ [] := by
      rintro rfl
      exact pre.1.2 rfl
    have mem : (⟨.data, rel, g.content, g.xattrs⟩ : ArchiveEntry) ∈ e'.snapshotTo s' :=
      Env.mem_snapshotTo.mpr ⟨⟨proper, fun state => by cases state⟩, g, file, rfl, rfl⟩
    exact h _ f pre _ mem rfl rfl
  · rintro h p f pre entry mem data rfl
    obtain ⟨-, g, file, content, xattrs⟩ := Env.mem_snapshotTo.mp mem
    rw [Env.target, data] at file
    rw [content, xattrs, data]
    exact h entry.rel f pre g file

/-- An install leaves the prefilled files alone when the sender's files agree with them
wherever both have one, and a complete install only then. -/
theorem restore_keeps_prefilled_iff (e e' : Env) (b : Backend) (s' : Disk) :
    (Compatible e b.disk e' s' →
      Unharmed e b.disk (final (Backend.restoreFrom e (e'.snapshotTo s')) b).disk) ∧
    ((outcome (Backend.restoreFrom e (e'.snapshotTo s')) b).isOk = true →
      Unharmed e b.disk (final (Backend.restoreFrom e (e'.snapshotTo s')) b).disk →
      Compatible e b.disk e' s') := by
  obtain ⟨disk, complete⟩ := restoreFrom_disk e (e'.snapshotTo s') b
  rw [disk, ← agreeable_snapshotTo, Env.restoreDisk_eq] at *
  refine ⟨fun ok => ?_, fun done unharmed => ?_⟩
  · have all : wp (do e.sweep; e.extractAll (e'.snapshotTo s')) (fun _ t => Unharmed e b.disk t)
        (fun _ t => Unharmed e b.disk t) b.disk := by
      rw [wp_bind]
      exact wp_mono (Env.sweep_wp b.disk) (fun _ t h => Env.extractAll_unharmed h.unharmed ok)
        fun _ t h => h.unharmed
    exact wp_final all
  · obtain ⟨t, run⟩ := complete done
    obtain ⟨⟨⟩, s₁, run₁, run₂⟩ := bind_ok.mp run
    rw [final_of_ok run] at unharmed
    have swept := Env.sweep_wp (e := e) b.disk
    have spared := wp_ok swept run₁
    exact Env.agreeable_of_extracted spared (Env.distinct_snapshotTo s') run₂ unharmed

/-- A node agrees with itself. -/
theorem Compatible.self (e : Env) (s : Disk) : Compatible e s e s := by
  rintro rel f ⟨-, file, off⟩ g file'
  rw [file] at file'
  cases file'
  exact ⟨rfl, off⟩

/-- A disk of the small deployment with one object file. -/
def oneFile (bucket key : String) (f : File) : Disk :=
  final (do
    sys (mkdirAll [bucket, "data"])
    sys (writeFile [key, bucket, "data"] f fun _ => f) : M Unit) (smallDisk false)

/-- The disk of the small deployment on which the operator put `b/k`. -/
def seeded : Disk := oneFile "b" "k" ⟨.raw [1], {}, .wall⟩

/-- A disk on which `b/k` was written through the log. -/
def replicated : Disk := oneFile "b" "k" ⟨.raw [2], { managed := true }, .wall⟩

/-- Where both sides have the same unmanaged file, nothing is lost. -/
theorem restore_keeps_seeded :
    Unharmed (smallEnv false) seeded (final (Backend.restoreFrom (smallEnv false)
      ((smallEnv false).snapshotTo seeded)) ⟨seeded, []⟩).disk :=
  (restore_keeps_prefilled_iff (smallEnv false) (smallEnv false) ⟨seeded, []⟩ seeded).1
    (Compatible.self _ _)

/-- The sender's object takes the place of a prefilled file. -/
theorem restore_overwrites_seeded :
    ¬ Unharmed (smallEnv false) seeded (final (Backend.restoreFrom (smallEnv false)
      ((smallEnv false).snapshotTo replicated)) ⟨seeded, []⟩).disk := by
  intro h
  have before : Prefilled (smallEnv false) seeded ["k", "b", "data"] ⟨.raw [1], {}, .wall⟩ :=
    ⟨by decide, by decide +kernel, rfl⟩
  have after : (final (Backend.restoreFrom (smallEnv false)
      ((smallEnv false).snapshotTo replicated)) ⟨seeded, []⟩).disk.file ["k", "b", "data"] =
        some ⟨.raw [2], { managed := true }, .wall⟩ := by decide +kernel
  obtain ⟨g, ⟨-, file, off⟩, -⟩ := h _ _ before
  rw [after] at file
  cases file
  cases off

/-- A restored disk has the files of the snapshot. In the buckets there are prefilled files besides,
in places where the snapshot has none. -/
theorem restored_files {e e' : Env} {s s' t : Disk} (regular : e.Regular s)
    (run : e.restoreDisk (e'.snapshotTo s') s = .ok () t) :
    (∀ kind ∈ Env.resetDirs, ∀ rel, rel ≠ [] →
      content t (rel ++ e.area kind) = content s' (rel ++ e'.area kind)) ∧
      ∀ bucket, Plain bucket → ∀ rel, rel ≠ [] →
        content t (rel ++ bucket :: e.root) = content s' (rel ++ bucket :: e'.root) ∨
          s'.file (rel ++ bucket :: e'.root) = none ∧
            ∃ f, t.file (rel ++ bucket :: e.root) = some f ∧ Prefilled e s (rel ++ bucket :: e.root) f := by
  obtain ⟨s₁, swept, restores⟩ := Env.restoreDisk_restores run
  have bare := Env.sweep_bare swept
  refine ⟨fun kind mem rel ne => restores.content_state bare mem ne, fun bucket plain rel ne => ?_⟩
  have place (e : Env) : rel ++ bucket :: e.root = (rel ++ [bucket]) ++ e.sectionRoot .data := by
    simp [Env.sectionRoot]
  have below : Below (bucket :: e.root) (rel ++ bucket :: e.root) :=
    ⟨List.suffix_append _ _, by simpa using ne⟩
  cases sent : s'.file (rel ++ bucket :: e'.root) with
  | some f =>
    refine .inl ?_
    rw [content.eq_def s', sent, place]
    rw [place] at sent
    exact restores.carried .data _ f ⟨by simp, fun state => by cases state⟩ sent
  | none =>
    have kept : t.file (rel ++ bucket :: e.root) = s₁.file (rel ++ bucket :: e.root) := by
      rw [place] at sent ⊢
      exact restores.other_at sent
    cases file : t.file (rel ++ bucket :: e.root) with
    | none => exact .inl (by rw [content, content, file, sent])
    | some f =>
      exact .inr ⟨rfl, f, rfl, below.of_suffix (List.suffix_cons _ _),
        bare.data regular bucket plain _ below f (kept ▸ file)⟩

/-- The prefilled file stays where the snapshot has none. -/
theorem seeded_restored :
    let t := final ((smallEnv false).restoreDisk ((smallEnv false).snapshotTo (smallDisk false))) seeded
    ∀ rel, rel ≠ [] →
      content t (rel ++ ["b", "data"]) = content (smallDisk false) (rel ++ ["b", "data"]) ∨
      (smallDisk false).file (rel ++ ["b", "data"]) = none ∧ ∃ f, t.file (rel ++ ["b", "data"]) = some f ∧
        Prefilled (smallEnv false) seeded (rel ++ ["b", "data"]) f := by
  have regular : (smallEnv false).Regular seeded := by decide +kernel
  exact (restored_files regular (run_of_isOk (by decide +kernel))).2 "b" (by decide)

end D9Store
