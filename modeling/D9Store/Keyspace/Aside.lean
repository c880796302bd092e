import D9Store.Key.Commands
import D9Store.Posix.Footprint
import D9Store.Runs

/-!
What happens beside the keys: payloads arrive, buckets are created, configured and deleted,
uploads are started, extended and dropped. None of it changes the history of a key.
-/

namespace D9Store

open Posix FilePath

namespace Env

variable {e : Env} {c : Command} {bucket kind uploadID : String} {p : FilePath}

/-! ### Footprints -/

/-- An area that holds neither histories nor version blobs. -/
def Other (kind : String) : Prop := kind ≠ "history" ∧ kind ≠ "versions"

instance (kind : String) : Decidable (Other kind) := by
  unfold Other; infer_instance

/-- The files beside the keys. -/
def asideFiles (e : Env) : Set FilePath :=
  {q | (∃ kind, Other kind ∧ e.area kind <:+ q) ∨ e.root.join "mpstaging" <:+ q}

/-- The directories made beside the keys. -/
def asideDirs (e : Env) (bucket : String) : Set FilePath :=
  {q | ∃ p, q <:+ p ∧ (p = e.bucketDir bucket ∨ p = e.versionsDir bucket ∨ p = e.historyDir bucket ∨
    ∃ kind, Other kind ∧ e.area kind <:+ p ∧ (kind = "staging" → p = e.area kind))}

theorem writeThrough_within (p : FilePath) (b : Content) :
    Within {p, jsonTmp p} {q | q <:+ p.tail} (writeThrough p b) := fun s =>
  wp_mono (writeThrough_wp b) (fun _ _ h => h.1) fun _ _ frame => frame.mono (by simp) subset_rfl

theorem writeJSON_within (p : FilePath) (doc : Doc) :
    Within {p, jsonTmp p} {q | q <:+ p.tail} (e.writeJSON p doc) := by
  cases eq : e.marshal doc with
  | ok doc' =>
    rw [writeJSON_eq eq]
    exact writeThrough_within p _
  | error err =>
    intro s
    unfold writeJSON
    rw [wp_bind, wp_reading, eq]
    exact Framed.refl s

/-- A document written beside the keys. -/
theorem aside_write (other : Other kind) (area : e.area kind <:+ p.tail)
    (flat : kind = "staging" → p.tail = e.area kind) {x : M Unit}
    (h : Within {p, jsonTmp p} {q | q <:+ p.tail} x) :
    Within e.asideFiles (e.asideDirs bucket) x := by
  refine h.mono ?_ fun q sub => ⟨p.tail, sub, .inr (.inr (.inr ⟨kind, other, area, flat⟩))⟩
  rintro q (rfl | rfl)
  · exact .inl ⟨kind, other, area.trans (List.tail_suffix _)⟩
  · refine .inl ⟨kind, other, ?_⟩
    cases p with
    | nil => simpa [Env.area] using area.length_le
    | cons name dir => exact area.trans (List.suffix_cons _ _)

theorem aside_mkdirAll (h : p = e.bucketDir bucket ∨ p = e.versionsDir bucket ∨
      p = e.historyDir bucket ∨
      ∃ kind, Other kind ∧ e.area kind <:+ p ∧ (kind = "staging" → p = e.area kind)) :
    Within e.asideFiles (e.asideDirs bucket) (sys (mkdirAll p)) :=
  Within.failing (Within.mkdirAll fun _ sub => ⟨p, sub, h⟩)

theorem area_bucketMeta (noSlash : '/' ∉ bucket.toList) :
    e.area "buckets" <:+ (e.bucketMetaPath bucket).tail := by
  rw [bucketMetaPath_eq noSlash]
  exact List.suffix_rfl

theorem area_mpu (tame : Tame bucket) (noSlash : '/' ∉ uploadID.toList) :
    e.area "mpu" <:+ (e.mpuMetaPath bucket uploadID).tail := by
  rw [mpuMetaPath_eq noSlash]
  exact tame.suffix_join _

theorem applyCreateBucket_within (plain : Plain c.bucket) :
    Within e.asideFiles (e.asideDirs c.bucket) (e.applyCreateBucket c) := by
  have tame : Tame c.bucket := ⟨plain.2, plain.1.2.2⟩
  have mpu : e.area "mpu" <:+ e.idir ["mpu", c.bucket] := by
    simp only [idir, List.foldl_cons, List.foldl_nil, join_plain (show Plain "mpu" by decide)]
    exact tame.suffix_join _
  rw [applyCreateBucket]
  refine Within.ite (fun _ => ?_) fun _ => Within.throw _
  refine Within.bind (Within.reading _) fun _ => Within.ite (fun _ => Within.throw _) fun _ => ?_
  refine Within.bind (aside_mkdirAll (.inl rfl)) fun _ => ?_
  refine Within.bind (aside_mkdirAll (.inr (.inl rfl))) fun _ => ?_
  refine Within.bind (aside_mkdirAll (.inr (.inr (.inl rfl)))) fun _ => ?_
  refine Within.bind (aside_mkdirAll (.inr (.inr (.inr ⟨_, by decide, mpu, by simp⟩)))) fun _ => ?_
  exact aside_write (by decide) (area_bucketMeta plain.2) (by simp) (writeJSON_within _ _)

theorem applyBucketConfig_within (plain : Plain c.bucket) :
    Within e.asideFiles (e.asideDirs c.bucket) (e.applyBucketConfig c) := by
  rw [applyBucketConfig]
  refine Within.bind (Within.reading _) fun _ => Within.bind (Within.reading _) fun _ => ?_
  exact aside_write (by decide) (area_bucketMeta plain.2) (by simp) (writeJSON_within _ _)

theorem applyCreateMultipart_within (plain : Plain c.bucket) (upload : Plain c.uploadID) :
    Within e.asideFiles (e.asideDirs c.bucket) (e.applyCreateMultipart c) :=
  aside_write (by decide) (area_mpu ⟨plain.2, plain.1.2.2⟩ upload.2) (by simp) (writeJSON_within _ _)

theorem applyUploadPart_within (plain : Plain c.bucket) (upload : Plain c.uploadID) :
    Within e.asideFiles (e.asideDirs c.bucket) (e.applyUploadPart c) := by
  rw [applyUploadPart]
  refine Within.bind (Within.reading _) fun _ => Within.ite (fun _ => ?_) fun _ => Within.throw _
  refine Within.bind (Within.reading _) fun _ => ?_
  exact aside_write (by decide) (area_mpu ⟨plain.2, plain.1.2.2⟩ upload.2) (by simp) (writeJSON_within _ _)

theorem applyAbortMultipart_within (plain : Plain c.bucket) (upload : Plain c.uploadID) :
    Within e.asideFiles (e.asideDirs c.bucket) (e.applyAbortMultipart c) := by
  have area := area_mpu (e := e) ⟨plain.2, plain.1.2.2⟩ upload.2
  rw [applyAbortMultipart]
  refine Within.bind (Within.reading _) fun r => ?_
  cases r with
  | error err => exact Within.pure _
  | ok mp =>
    refine fun s => wp_mono (cleanupUpload_wp c.bucket upload) (fun _ t frame => ?_)
      fun _ _ h => h.elim
    refine frame.mono ?_ (Set.empty_subset _)
    rintro q (rfl | glob)
    · exact .inl ⟨"mpu", by decide, area.trans (List.tail_suffix _)⟩
    · exact .inr glob

theorem handleBlobPut_within (token : String) (payload : Bytes) :
    Within e.asideFiles (e.asideDirs bucket) (e.handleBlobPut token payload) := by
  unfold handleBlobPut
  refine Within.ite (fun safe => ?_) fun _ => Within.pure _
  rw [streamTo_eq]
  have tail : (e.stagingPath token).tail = e.area "staging" := by
    rw [stagingPath_eq (plain_of_safeToken safe), List.tail_cons]
  have area : e.area "staging" <:+ (e.stagingPath token).tail := by rw [tail]
  exact aside_write (by decide) area (fun _ => tail) (writeThrough_within _ _)

theorem handlePartPut_within (uploadID : String) (number : Int) (payload : Bytes) :
    Within e.asideFiles (e.asideDirs bucket) (e.handlePartPut uploadID number payload) := by
  unfold handlePartPut
  refine Within.ite (fun safe => ?_) fun _ => Within.pure _
  rw [streamTo_eq]
  have tail : (e.mpPartPath uploadID number).tail = e.area "mpstaging" := by
    rw [mpPartPath_eq (plain_of_safeToken safe).2, List.tail_cons]
  have area : e.area "mpstaging" <:+ (e.mpPartPath uploadID number).tail := by rw [tail]
  exact aside_write (by decide) area (by simp) (writeThrough_within _ _)

end Env

/-! ### Keys at rest -/

namespace Site

variable {e : Env} {y : Site e} {s t : Disk} {F D : Set FilePath} {bucket id token : String}
    {q : FilePath}

/-- A step beside the key leaves its history as it is. -/
theorem Rests.standing (h : y.Rests s t) (standing : y.Standing s) :
    y.Standing t ∧ y.entries t = y.entries s := by
  refine ⟨⟨h.ready, h.sound standing.sound, ?_, ?_, h.tmpFree⟩, h.entries⟩
  · rw [h.entries]
    exact standing.backed
  · rw [h.entries]
    exact standing.nodup

theorem aside_safe (proper : y.Proper) (mem : q ∈ e.asideFiles) : y.Safe q := by
  rcases mem with ⟨kind, other, area⟩ | glob
  · exact safe_area area other.1 other.2
  · rw [join_plain (show Plain "mpstaging" by decide)] at glob
    refine safe_data ((List.suffix_cons _ _).trans glob) ?_
    rintro rfl
    refine not_globbed proper rfl ?_
    rwa [join_plain (show Plain "mpstaging" by decide)]

theorem aside_blob (plain : '/' ∉ id.toList) : y.blob id ∉ e.asideFiles := by
  rintro (⟨kind, other, area⟩ | glob)
  · exact other.2 (Env.area_unique area (y.area_blob plain))
  · rw [join_plain (show Plain "mpstaging" by decide)] at glob
    exact Env.data_not_area ((List.suffix_cons _ _).trans glob) (y.area_blob plain) rfl

theorem length_tmp (proper : y.Proper) : e.root.length + 2 ≤ (Env.tmpOf y.op).length := by
  have len := (bucketDir_above proper).length_le
  have tail : (Env.tmpOf y.op).tail = y.op.tail := suffixed_tail _ y.op_ne_nil
  rw [← tail, List.length_tail, List.length_cons] at len
  omega

/-- The places of a key are deeper than the directories of a bucket. -/
theorem length_place (proper : y.Proper) (place : y.Place q) : e.state.length + 3 ≤ q.length := by
  have dir : ∀ kind, ((e.area kind).join y.bucket).length = e.state.length + 2 := fun kind => by
    rw [join_plain proper.1]
    rfl
  have history : e.state.length + 3 ≤ y.hp.length := by
    obtain ⟨-, -, below, ne⟩ := Env.confine_ok y.hp_eq
    have len := below.length_le
    rw [Env.historyDir_eq, dir] at len
    rcases Nat.lt_or_ge (e.state.length + 2) y.hp.length with h | h
    · exact h
    · refine absurd (below.eq_of_length_le ?_).symm ne
      rwa [Env.historyDir_eq, dir]
  have blob : ∀ id, '/' ∉ id.toList → (y.blob id).length = e.state.length + 3 := fun id plain => by
    rw [blob, Env.vblobPath_eq plain, List.length_cons, Env.versionsDir_eq, dir]
  rcases place with rfl | rfl | ⟨id, plain, rfl | rfl⟩
  · exact history
  · exact history.trans (length_le_suffixed _ _)
  · exact (blob id plain).ge
  · exact (blob id plain).ge.trans (length_le_suffixed _ _)

theorem area_place (place : y.Place q) : e.area "history" <:+ q ∨ e.area "versions" <:+ q := by
  rcases place with rfl | rfl | ⟨id, plain, eq⟩
  · exact .inl y.area_hp
  · exact .inl y.area_hpTmp
  · exact .inr (area_of_blob plain eq)

theorem aside_vacant (proper : y.Proper) (plain : Plain bucket) (mem : q ∈ e.asideDirs bucket) :
    y.Vacant q := by
  have tame : Tame bucket := ⟨plain.2, plain.1.2.2⟩
  obtain ⟨p, sub, which⟩ := mem
  have long : ∀ kind, p = (e.area kind).join bucket → y.Vacant q := by
    rintro kind rfl
    refine ⟨fun place => ?_, ?_⟩
    · have deep := (length_place proper place).trans sub.length_le
      rw [join_plain plain] at deep
      simp only [Env.area, List.length_cons] at deep
      omega
    · rintro rfl
      exact Env.data_not_area (y.root_tmp.trans sub) (tame.suffix_join (e.area kind)) rfl
  rcases which with rfl | eq | eq | ⟨kind, other, area, -⟩
  · refine ⟨fun place => ?_, ?_⟩
    · rcases area_place place with area | area
      · exact Env.data_not_area (Env.root_bucketDir tame) (area.trans sub) rfl
      · exact Env.data_not_area (Env.root_bucketDir tame) (area.trans sub) rfl
    · rintro rfl
      have deep := (length_tmp proper).trans sub.length_le
      rw [Env.bucketDir, join_plain plain, List.length_cons] at deep
      omega
  · exact long "versions" (eq.trans (Env.versionsDir_eq bucket))
  · exact long "history" (eq.trans (Env.historyDir_eq bucket))
  · refine ⟨fun place => ?_, ?_⟩
    · rcases area_place place with h | h
      · exact other.1 (Env.area_unique area (h.trans sub))
      · exact other.2 (Env.area_unique area (h.trans sub))
    · rintro rfl
      exact Env.data_not_area (y.root_tmp.trans sub) area rfl

/-- No payload's place becomes a directory. -/
theorem aside_staging (plain : Plain bucket) (named : Plain token) :
    e.stagingPath token ∉ e.asideDirs bucket := by
  have tame : Tame bucket := ⟨plain.2, plain.1.2.2⟩
  have area := area_staging (e := e) named
  rintro ⟨p, sub, rfl | eq | eq | ⟨kind, -, area', flat⟩⟩
  · exact Env.data_not_area (Env.root_bucketDir tame) (area.trans sub) rfl
  · exact absurd (Env.area_unique (area.trans sub) (eq ▸ Env.area_versionsDir tame)) (by decide)
  · exact absurd (Env.area_unique (area.trans sub) (eq ▸ Env.area_historyDir tame)) (by decide)
  · cases Env.area_unique (area.trans sub) area'
    have len := sub.length_le
    rw [flat rfl, Env.stagingPath_eq named, List.length_cons] at len
    omega

/-- Nothing that happens beside the keys changes a history. -/
theorem Standing.aside (standing : y.Standing s) (proper : y.Proper) (plain : Plain bucket)
    (frame : Framed e.asideFiles (e.asideDirs bucket) s t) :
    y.Standing t ∧ y.entries t = y.entries s :=
  (rests standing.ready standing.tmp frame (fun _ mem => aside_safe proper mem)
    (fun _ mem => aside_vacant proper plain mem)
    fun v mem _ => aside_blob (standing.sound.shape.plainBlob v mem)).standing standing

end Site

/-! ### Deleting a bucket -/

namespace Env

variable {e : Env} {s t : Disk} {c : Command}

/-- What the deletion of a bucket removes. -/
def bucketFiles (e : Env) (bucket : String) : Set FilePath :=
  {q | e.bucketDir bucket <:+ q ∨ e.versionsDir bucket <:+ q ∨ e.historyDir bucket <:+ q ∨
    e.idir ["mpu", bucket] <:+ q ∨ q = e.bucketMetaPath bucket}

theorem removeIfPresent_within {F D : Set FilePath} {p : FilePath} (mem : p ∈ F) :
    Within F D (removeIfPresent p) := fun s =>
  wp_mono (removeIfPresent_wp p) (fun _ _ h => h.1.mono (by simpa using mem) (Set.empty_subset _))
    fun _ t h => by
      rw [h.1]
      exact Framed.refl s

theorem removeIfPresent_shrinks (p : FilePath) :
    Guards (Shrinks s) (fun _ => True) (removeIfPresent p) := by
  unfold removeIfPresent
  refine Guards.seq ((Shrinks.guards_remove p).attempt.mono fun _ _ => trivial) fun r => ?_
  split
  · exact Guards.pure trivial
  · exact Guards.pure trivial
  · exact Guards.throw _

/-- The directories and the configuration of a bucket go. -/
def removeBucket (e : Env) (bucket : String) : M Unit := do
  sys (removeAll (e.bucketDir bucket))
  sys (removeAll (e.versionsDir bucket))
  sys (removeAll (e.historyDir bucket))
  sys (removeAll (e.idir ["mpu", bucket]))
  removeIfPresent (e.bucketMetaPath bucket)

theorem removeBucket_within (bucket : String) : Within (e.bucketFiles bucket) ∅ (e.removeBucket bucket) := by
  unfold removeBucket
  refine Within.bind (Within.failing (Within.removeAll fun q sub => .inl sub)) fun _ => ?_
  refine Within.bind (Within.failing (Within.removeAll fun q sub => .inr (.inl sub))) fun _ => ?_
  refine Within.bind (Within.failing (Within.removeAll fun q sub => .inr (.inr (.inl sub)))) fun _ => ?_
  refine Within.bind (Within.failing (Within.removeAll fun q sub =>
    .inr (.inr (.inr (.inl sub))))) fun _ => ?_
  exact removeIfPresent_within (.inr (.inr (.inr (.inr rfl))))

theorem removeBucket_shrinks (bucket : String) :
    Guards (Shrinks s) (fun _ => True) (e.removeBucket bucket) := by
  unfold removeBucket
  refine Guards.seq (Guards.failing (Shrinks.guards_removeAll _)) fun _ => ?_
  refine Guards.seq (Guards.failing (Shrinks.guards_removeAll _)) fun _ => ?_
  refine Guards.seq (Guards.failing (Shrinks.guards_removeAll _)) fun _ => ?_
  refine Guards.seq (Guards.failing (Shrinks.guards_removeAll _)) fun _ => ?_
  exact removeIfPresent_shrinks _

/-- A bucket goes only when it has neither an object file nor a history. -/
theorem applyDeleteBucket_run (s : Disk) (c : Command) :
    e.applyDeleteBucket c s =
      if ((e.walkObjectTree s c.bucket).isEmpty && dirEmpty s (e.historyDir c.bucket)) = true then
        e.removeBucket c.bucket s
      else .error (.api errBucketNotEmpty) s := by
  simp only [applyDeleteBucket, bind_apply, reading]
  split
  · rfl
  · rfl

theorem applyDeleteBucket_final (s : Disk) (c : Command) :
    final (e.applyDeleteBucket c) s = s ∨
      ((e.walkObjectTree s c.bucket).isEmpty = true ∧ dirEmpty s (e.historyDir c.bucket) = true ∧
        Framed (e.bucketFiles c.bucket) ∅ s (final (e.applyDeleteBucket c) s) ∧
        Shrinks s (final (e.applyDeleteBucket c) s)) := by
  have run := applyDeleteBucket_run (e := e) s c
  by_cases empty : ((e.walkObjectTree s c.bucket).isEmpty && dirEmpty s (e.historyDir c.bucket)) = true
  · rw [if_pos empty] at run
    have same : final (e.applyDeleteBucket c) s = final (e.removeBucket c.bucket) s := by
      rw [final, run]
      rfl
    obtain ⟨walk, dir⟩ := Bool.and_eq_true_iff.mp empty
    rw [same]
    exact .inr ⟨walk, dir, (removeBucket_within c.bucket).final s,
      (removeBucket_shrinks c.bucket).final (Shrinks.refl s)⟩
  · rw [if_neg empty] at run
    exact .inl (by rw [final, run])

end Env

namespace Site

variable {e : Env} {y : Site e} {s t : Disk} {c : Command} {q base : FilePath}

theorem Ready.shrinks (ready : y.Ready s) (h : Shrinks s t) : y.Ready t where
  history_clear q sub := h.file (ready.history_clear q sub)
  history_free := h.notDir ready.history_free
  historyTmp_free := h.notDir ready.historyTmp_free
  versions_clear q sub := h.file (ready.versions_clear q sub)
  blob_free id plain := h.notDir (ready.blob_free id plain)
  blobTmp_free id plain := h.notDir (ready.blobTmp_free id plain)

/-- A key without files stands. -/
theorem standing_of_gone (ready : y.Ready t) (op : t.file y.op = none) (hp : t.file y.hp = none)
    (tmp : t.get (Env.tmpOf y.op) ≠ some .dir) : y.Standing t where
  ready := ready
  sound := sound_nil op hp
  backed := by
    rw [entries_nil op hp]
    exact fun _ mem => by cases mem
  nodup := by
    rw [entries_nil op hp]
    exact List.nodup_nil
  tmp := tmp

/-- In an empty bucket no key has a history. -/
theorem gone_of_empty (walk : (e.walkObjectTree s y.bucket).isEmpty = true)
    (dir : Env.dirEmpty s (e.historyDir y.bucket) = true) :
    s.file y.op = none ∧ s.file y.hp = none := by
  obtain ⟨-, -, below⟩ := Env.confine_ok y.op_eq
  obtain ⟨-, -, below'⟩ := Env.confine_ok y.hp_eq
  refine ⟨?_, ?_⟩
  · by_contra found
    obtain ⟨f, file⟩ := Option.ne_none_iff_exists'.mp found
    have mem : Env.relKey (e.bucketDir y.bucket) y.op ∈ e.walkObjectTree s y.bucket :=
      mem_sorted.mpr (Finset.mem_image_of_mem _ (DirTree.mem_filesBelow.mpr ⟨below.1, f, file⟩))
    rw [List.isEmpty_iff.mp walk] at mem
    cases mem
  · have childless : s.childless (e.historyDir y.bucket) = true := by
      rcases Bool.or_eq_true_iff.mp dir with notDir | h
      · refine DirTree.childless_iff.mpr fun name => ?_
        by_contra found
        have parent := s.parent name _ (Option.isSome_iff_ne_none.mpr found)
        rw [DirTree.isDir_iff.mpr parent] at notDir
        cases notDir
      · exact h
    rw [DirTree.file, DirTree.get_below_childless childless below'.1 below'.2.symm]

/-- Directories of different buckets do not overlap. -/
theorem apart_dirs {bucket : String} (plain : Plain bucket) (proper : y.Proper)
    (other : bucket ≠ y.bucket) (sub : base.join bucket <:+ q) : ¬ base.join y.bucket <:+ q := by
  intro sub'
  rw [join_plain plain] at sub
  rw [join_plain proper.1] at sub'
  have eq := (List.suffix_of_suffix_length_le sub sub' (by simp)).eq_of_length (by simp)
  exact other (List.cons.inj eq).1

theorem bucketFiles_out (plain : Plain c.bucket) (proper : y.Proper) (other : c.bucket ≠ y.bucket)
    (mem : q ∈ e.bucketFiles c.bucket) :
    y.Safe q ∧ ∀ id, '/' ∉ id.toList → y.blob id ≠ q := by
  have tame : Tame c.bucket := ⟨plain.2, plain.1.2.2⟩
  have aside : ∀ {kind}, e.area kind <:+ q → Env.Other kind →
      y.Safe q ∧ ∀ id, '/' ∉ id.toList → y.blob id ≠ q := fun area other =>
    ⟨safe_area area other.1 other.2,
      fun id noSlash => Env.area_ne (y.area_blob noSlash) area other.2.symm⟩
  rcases mem with data | versions | history | mpu | rfl
  · have root := (Env.root_bucketDir tame).trans data
    have own : q ≠ y.op := by
      rintro rfl
      refine apart_dirs plain proper other data ?_
      rw [join_plain proper.1]
      exact (bucketDir_above proper).trans (List.tail_suffix y.op)
    exact ⟨safe_data root own, fun id noSlash => (Env.data_not_area root (y.area_blob noSlash)).symm⟩
  · have area := (Env.area_versionsDir tame).trans versions
    rw [Env.versionsDir_eq] at versions
    refine ⟨⟨(Env.data_not_area y.root_op area).symm, Env.area_ne area y.area_hp (by decide),
      fun sub => ?_, fun sub => ?_⟩, ?_⟩
    · exact absurd (Env.area_unique (area.trans (sub.trans (List.tail_suffix _))) y.area_hp) (by decide)
    · rw [Env.versionsDir_eq] at sub
      exact apart_dirs plain proper other (versions.trans sub) List.suffix_rfl
    · rintro id noSlash rfl
      refine apart_dirs plain proper other versions ?_
      rw [blob, Env.vblobPath_eq noSlash, Env.versionsDir_eq]
      exact List.suffix_cons _ _
  · have area := (Env.area_historyDir tame).trans history
    obtain ⟨-, -, below⟩ := Env.confine_ok y.hp_eq
    rw [Env.historyDir_eq] at history below
    refine ⟨⟨(Env.data_not_area y.root_op area).symm, ?_, fun sub => ?_, fun sub => ?_⟩, ?_⟩
    · rintro rfl
      exact apart_dirs plain proper other history below.1
    · exact apart_dirs plain proper other ((history.trans sub).trans (List.tail_suffix _)) below.1
    · exact absurd (Env.area_unique (area.trans sub) (Env.area_versionsDir y.tame)) (by decide)
    · exact fun id noSlash => Env.area_ne (y.area_blob noSlash) area (by decide)
  · have area : e.area "mpu" <:+ e.idir ["mpu", c.bucket] := by
      simp only [Env.idir, List.foldl_cons, List.foldl_nil, join_plain (show Plain "mpu" by decide)]
      exact tame.suffix_join _
    exact aside (area.trans mpu) (by decide)
  · exact aside ((Env.area_bucketMeta plain.2).trans (List.tail_suffix _)) (by decide)

/-- The deletion of a bucket changes no history: those of its own keys are empty. -/
theorem Standing.deleteBucket (standing : y.Standing s) (proper : y.Proper) (plain : Plain c.bucket) :
    y.Standing (final (e.applyDeleteBucket c) s) ∧
      y.entries (final (e.applyDeleteBucket c) s) = y.entries s := by
  rcases Env.applyDeleteBucket_final (e := e) s c with same | ⟨walk, dir, frame, shrinks⟩
  · rw [same]
    exact ⟨standing, rfl⟩
  · by_cases own : c.bucket = y.bucket
    · rw [own] at walk dir
      obtain ⟨op, hp⟩ := gone_of_empty walk dir
      rw [entries_nil op hp, entries_nil (shrinks.file op) (shrinks.file hp)]
      exact ⟨standing_of_gone (standing.ready.shrinks shrinks) (shrinks.file op) (shrinks.file hp)
        (shrinks.notDir standing.tmp), rfl⟩
    · refine (rests standing.ready standing.tmp frame
        (fun q mem => (bucketFiles_out plain proper own mem).1) (fun q mem => mem.elim)
        fun v mem _ found => ?_).standing standing
      exact (bucketFiles_out plain proper own found).2 _ (standing.sound.shape.plainBlob v mem) rfl

end Site

end D9Store
