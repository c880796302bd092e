import D9Store.Keyspace.Reach

/-!
Where the inputs of a node may write.

Under plain names every input keeps to the trees of its kind. The histories stay where they
belong, and nothing comes in the way of the configurations of buckets and of staged parts.
-/

namespace D9Store

open Posix FilePath

/-- An input whose names are plain. -/
def Input.Tidy : Input → Prop
  | .command c => c.Tidy
  | _ => True

instance : (i : Input) → Decidable i.Tidy
  | .command c => inferInstanceAs (Decidable c.Tidy)
  | .blob _ _ => isTrue trivial
  | .part _ _ _ => isTrue trivial

namespace Env

variable {e : Env} {s t : Disk} {c : Command} {bucket id kind : String} {q : FilePath} {i : Input}

/-! ### Footprints -/

/-- The places that a node needs for configurations and staged parts. -/
def grounds : List String := ["buckets", "mpstaging"]

/-- The files an input may change. -/
def touched (e : Env) : Input → Set FilePath
  | .blob _ _ => {q | e.area "staging" <:+ q}
  | .part id number _ =>
    {q | '/' ∉ id.toList ∧ (q = e.mpPartPath id number ∨ q = jsonTmp (e.mpPartPath id number))}
  | .command c =>
    match c.op with
    | .putAccount | .deleteAccount | .unknown _ => ∅
    | .deleteBucket => e.bucketFiles c.bucket
    | .putObject | .deleteObject | .copyObject
    | .putObjectAcl | .putObjectTagging | .deleteObjectTag | .putObjectRetention
    | .putObjectLegalHold => e.objectFiles
    | .completeMultipart => {q | q ∈ e.objectFiles ∨ q = e.mpuMetaPath c.bucket c.uploadID}
    | .createMultipart | .uploadPart =>
      {e.mpuMetaPath c.bucket c.uploadID, jsonTmp (e.mpuMetaPath c.bucket c.uploadID)}
    | .abortMultipart => e.cleanupCells c.bucket c.uploadID
    | _ => {e.bucketMetaPath c.bucket, jsonTmp (e.bucketMetaPath c.bucket)}

/-- Directories on the way to a path that is not below a place of its own. -/
theorem open_of_area {p : FilePath} (area : e.area kind <:+ p)
    (flat : kind ∈ grounds → p = e.area kind) (sub : q <:+ p) : q ∈ e.openDirs := by
  have apart : ∀ kind', kind' ∈ grounds → ¬ Below (e.area kind') q := by
    rintro kind' mem ⟨below, ne⟩
    have same := area_unique area (below.trans sub)
    subst same
    have short := sub.length_le
    rw [flat mem] at short
    exact ne (below.eq_of_length_le short).symm
  exact ⟨apart _ (by decide), apart _ (by decide)⟩

theorem open_of_root {p : FilePath} (data : e.root <:+ p) (sub : q <:+ p) : q ∈ e.openDirs :=
  objectFiles_open (.inl (.inl data)) sub

/-- Writing a document in a directory of its kind. -/
theorem write_framed {p : FilePath} (area : e.area kind <:+ p.tail)
    (flat : kind ∈ grounds → p.tail = e.area kind) {x : M Unit}
    (h : Within {p, jsonTmp p} {q | q <:+ p.tail} x) : Within {p, jsonTmp p} e.openDirs x :=
  h.mono subset_rfl fun _ sub => open_of_area area flat sub

theorem bucketMeta_flat (plain : Plain bucket) :
    (e.bucketMetaPath bucket).tail = e.area "buckets" := by
  rw [bucketMetaPath_eq plain.2]
  rfl

theorem createBucket_framed (plain : Plain c.bucket) :
    Within {e.bucketMetaPath c.bucket, jsonTmp (e.bucketMetaPath c.bucket)} e.openDirs
      (e.applyCreateBucket c) := by
  have tame := tame_of_plain plain
  have mpu : e.area "mpu" <:+ e.idir ["mpu", c.bucket] := by
    simp only [idir, List.foldl_cons, List.foldl_nil, join_plain (show Plain "mpu" by decide)]
    exact tame.suffix_join _
  have make {kind : String} {p : FilePath} (area : e.area kind <:+ p) (other : kind ∉ grounds) :
      Within {e.bucketMetaPath c.bucket, jsonTmp (e.bucketMetaPath c.bucket)} e.openDirs
        (sys (mkdirAll p)) :=
    Within.failing (Within.mkdirAll fun _ sub => open_of_area area (fun mem => absurd mem other) sub)
  rw [applyCreateBucket]
  refine Within.ite (fun _ => ?_) fun _ => Within.throw _
  refine Within.bind (Within.reading _) fun _ => Within.ite (fun _ => Within.throw _) fun _ => ?_
  refine Within.bind (Within.failing (Within.mkdirAll fun _ sub =>
    open_of_root (root_bucketDir tame) sub)) fun _ => ?_
  refine Within.bind (make (area_versionsDir tame) (by decide)) fun _ => ?_
  refine Within.bind (make (area_historyDir tame) (by decide)) fun _ => ?_
  refine Within.bind (make mpu (by decide)) fun _ => ?_
  exact write_framed (area_bucketMeta plain.2) (fun _ => bucketMeta_flat plain) (writeJSON_within _ _)

theorem bucketConfig_framed (plain : Plain c.bucket) :
    Within {e.bucketMetaPath c.bucket, jsonTmp (e.bucketMetaPath c.bucket)} e.openDirs
      (e.applyBucketConfig c) := by
  rw [applyBucketConfig]
  refine Within.bind (Within.reading _) fun _ => Within.bind (Within.reading _) fun _ => ?_
  exact write_framed (area_bucketMeta plain.2) (fun _ => bucketMeta_flat plain) (writeJSON_within _ _)

theorem writeRecord_framed (tame : Tame bucket) (upload : Plain id) (doc : Doc) :
    Within {e.mpuMetaPath bucket id, jsonTmp (e.mpuMetaPath bucket id)} e.openDirs
      (e.writeJSON (e.mpuMetaPath bucket id) doc) :=
  write_framed (area_mpu tame upload.2) (fun mem => absurd mem (by decide))
    (writeJSON_within _ _)

theorem uploadPart_framed (tame : Tame c.bucket) (upload : Plain c.uploadID) :
    Within {e.mpuMetaPath c.bucket c.uploadID, jsonTmp (e.mpuMetaPath c.bucket c.uploadID)} e.openDirs
      (e.applyUploadPart c) := by
  rw [applyUploadPart]
  refine Within.bind (Within.reading _) fun _ => Within.ite (fun _ => ?_) fun _ => Within.throw _
  exact Within.bind (Within.reading _) fun _ => writeRecord_framed tame upload _

theorem cleanup_framed (upload : Plain id) :
    Within (e.cleanupCells bucket id) e.openDirs (e.cleanupUpload bucket id) := fun _ =>
  wp_mono (cleanupUpload_wp bucket upload) (fun _ _ frame => frame.mono subset_rfl (Set.empty_subset _))
    fun _ _ h => h.elim

theorem abort_framed (upload : Plain c.uploadID) :
    Within (e.cleanupCells c.bucket c.uploadID) e.openDirs (e.applyAbortMultipart c) := by
  rw [applyAbortMultipart]
  refine Within.bind (Within.reading _) fun r => ?_
  cases r with
  | error err => exact Within.pure _
  | ok mp => exact cleanup_framed upload

theorem blob_framed (token : String) (payload : Bytes) :
    Within {q | e.area "staging" <:+ q} e.openDirs (e.handleBlobPut token payload) := by
  unfold handleBlobPut
  refine Within.ite (fun safe => ?_) fun _ => Within.pure _
  have path := stagingPath_eq (e := e) (plain_of_safeToken safe)
  rw [streamTo_eq]
  refine (writeThrough_within _ _).mono ?_ fun q sub => ?_
  · rw [path]
    rintro q (rfl | rfl)
    · exact List.suffix_cons _ _
    · exact List.suffix_cons _ _
  · rw [path] at sub
    exact open_of_area List.suffix_rfl (fun _ => rfl) sub

theorem part_framed (id : String) (number : Int) (payload : Bytes) :
    Within (e.touched (.part id number payload)) e.openDirs (e.handlePartPut id number payload) := by
  unfold handlePartPut
  refine Within.ite (fun safe => ?_) fun _ => Within.pure _
  have plain := (plain_of_safeToken safe).2
  rw [streamTo_eq]
  refine (writeThrough_within _ _).mono (fun q mem => ⟨plain, mem⟩) fun q sub => ?_
  rw [mpPartPath_eq plain] at sub
  exact open_of_area List.suffix_rfl (fun _ => rfl) sub

/-! ### What an input leaves -/

theorem mpuDir_eq (plain : Plain bucket) : e.idir ["mpu", bucket] = bucket :: e.area "mpu" := by
  simp only [idir, List.foldl_cons, List.foldl_nil, join_plain (show Plain "mpu" by decide),
    join_plain plain]
  rfl

theorem recordCells_area (tame : Tame bucket) (plain : '/' ∉ id.toList)
    (mem : q ∈ ({e.mpuMetaPath bucket id, jsonTmp (e.mpuMetaPath bucket id)} : Set FilePath)) :
    e.area "mpu" <:+ q := by
  rw [mpuMetaPath_eq plain] at mem
  rcases mem with rfl | rfl
  · exact (tame.suffix_join _).trans (List.suffix_cons _ _)
  · exact (tame.suffix_join _).trans (List.suffix_cons _ _)

theorem metaCells_below (plain : '/' ∉ bucket.toList)
    (mem : q ∈ ({e.bucketMetaPath bucket, jsonTmp (e.bucketMetaPath bucket)} : Set FilePath)) :
    Below (e.area "buckets") q := by
  rw [bucketMetaPath_eq plain] at mem
  rcases mem with rfl | rfl
  · exact below_cons _ _
  · exact below_cons _ _

theorem partCells_below {number : Int} {payload : Bytes}
    (mem : q ∈ e.touched (.part id number payload)) : Below (e.area "mpstaging") q := by
  obtain ⟨plain, mem⟩ := mem
  rw [mpPartPath_eq plain] at mem
  rcases mem with rfl | rfl
  · exact below_cons _ _
  · exact below_cons _ _

theorem cleanupCells_kind (tame : Tame bucket) (plain : '/' ∉ id.toList)
    (mem : q ∈ e.cleanupCells bucket id) : e.root <:+ q ∨ e.area "mpu" <:+ q := by
  rcases mem with rfl | glob
  · exact .inr (recordCells_area tame plain (.inl rfl))
  · rw [join_plain (show Plain "mpstaging" by decide)] at glob
    exact .inl ((List.suffix_cons _ _).trans glob)

theorem Filed.shrinks (filed : e.Filed s) (less : Shrinks s t) : e.Filed t := by
  intro bucket key hp f tame place file
  refine filed bucket key hp f tame place ?_
  rcases less hp with same | gone
  · rw [← DirTree.file_of_get_eq same, file]
  · simp [DirTree.file, gone] at file

theorem Filed.cleaned (filed : e.Filed s) (tame : Tame bucket) (upload : Plain id)
    (frame : Framed (e.cleanupCells bucket id) e.openDirs s t) : e.Filed t := by
  refine filed.framed frame fun q mem history => ?_
  rcases cleanupCells_kind tame upload.2 mem with data | area
  · exact data_not_area data history rfl
  · exact absurd (area_unique area history) (by decide)

/-- An input changes what it may and leaves the histories where they belong. -/
theorem take_framed (tidy : e.Tidy s) (ok : i.Tidy) :
    Framed (e.touched i) e.openDirs s (final (e.take i) s) ∧ e.Filed (final (e.take i) s) := by
  have aside {F : Set FilePath} {x : M Unit} (h : Within F e.openDirs x) {kind : String}
      (area : ∀ q ∈ F, e.area kind <:+ q) (other : kind ≠ "history") :
      Framed F e.openDirs s (final x s) ∧ e.Filed (final x s) :=
    ⟨h.final s, tidy.filed.framed (h.final s) fun q mem history =>
      other (area_unique (area q mem) history)⟩
  cases i with
  | blob token payload => exact aside (blob_framed token payload) (fun q mem => mem) (by decide)
  | part id number payload =>
    exact aside (part_framed id number payload) (fun q mem => (partCells_below mem).1) (by decide)
  | command c =>
    have plain (addressed : c.onDisk = true) : Plain c.bucket := ok.bucket addressed
    have tame (addressed : c.onDisk = true) : Tame c.bucket := tame_of_plain (plain addressed)
    have reached {x : M Unit} (h : wp x (fun _ => e.Reached s) (fun _ => e.Reached s) s) :
        Framed e.objectFiles e.openDirs s (final x s) ∧ e.Filed (final x s) := wp_final h
    simp only [take, touched, applyDisk]
    cases op : c.op <;> simp only
    case putAccount | deleteAccount | unknown => exact ⟨Framed.refl s, tidy.filed⟩
    case deleteBucket =>
      rcases applyDeleteBucket_final (e := e) s c with same | ⟨-, -, frame, less⟩
      · rw [same]
        exact ⟨Framed.refl s, tidy.filed⟩
      · exact ⟨frame.mono subset_rfl (Set.empty_subset _), tidy.filed.shrinks less⟩
    case putObject =>
      exact reached (applyPutObject_reaches tidy (tame (by simp [Command.onDisk, op]))
        (ok.token (.inl op)))
    case copyObject => exact reached (applyCopyObject_reaches tidy (tame (by simp [Command.onDisk, op])))
    case deleteObject => exact applyDeleteObject_reaches tidy (tame (by simp [Command.onDisk, op]))
    case putObjectAcl | putObjectTagging | deleteObjectTag | putObjectRetention | putObjectLegalHold =>
      exact reached (applyObjectMetaMutation_reaches tidy (tame (by simp [Command.onDisk, op])))
    case createBucket =>
      have own := plain (by simp [Command.onDisk, op])
      exact aside (createBucket_framed own) (fun q mem => (metaCells_below own.2 mem).1) (by decide)
    case createMultipart =>
      have own := plain (by simp [Command.onDisk, op])
      have upload := ok.upload (.inl op)
      exact aside (writeRecord_framed (tame_of_plain own) upload _)
        (fun q mem => recordCells_area (tame_of_plain own) upload.2 mem) (by decide)
    case uploadPart =>
      have own := plain (by simp [Command.onDisk, op])
      have upload := ok.upload (.inr (.inl op))
      exact aside (uploadPart_framed (tame_of_plain own) upload)
        (fun q mem => recordCells_area (tame_of_plain own) upload.2 mem) (by decide)
    case abortMultipart =>
      have upload := ok.upload (.inr (.inr (.inr op)))
      have frame := (abort_framed (e := e) upload).final s
      exact ⟨frame, tidy.filed.cleaned (tame (by simp [Command.onDisk, op])) upload frame⟩
    case completeMultipart =>
      have upload := ok.upload (.inr (.inr (.inl op)))
      have own := tame (by simp [Command.onDisk, op])
      refine wp_final (P := fun t => Framed _ e.openDirs s t ∧ e.Filed t)
        (wp_mono (applyCompleteMultipart_reaches tidy own (ok.token (.inr op)) upload) ?_ ?_)
      · rintro - t ⟨-, u, inv, cleanup⟩
        have swept := wp_ok (cleanup_framed upload u) cleanup
        refine ⟨?_, inv.2.cleaned own upload swept⟩
        refine (inv.1.mono (fun q mem => .inl mem) subset_rfl).trans (swept.mono ?_ subset_rfl)
        rintro q (rfl | glob)
        · exact .inr rfl
        · rw [join_plain (show Plain "mpstaging" by decide)] at glob
          exact .inl (.inl (.inl ((List.suffix_cons _ _).trans glob)))
      · exact fun _ t inv => ⟨inv.1.mono (fun q mem => .inl mem) subset_rfl, inv.2⟩
    all_goals
      have own := plain (by simp [Command.onDisk, op])
      exact aside (bucketConfig_framed own) (fun q mem => (metaCells_below own.2 mem).1) (by decide)

theorem take_tidy (tidy : e.Tidy s) (ok : i.Tidy) : e.Tidy (final (e.take i) s) := by
  refine ⟨(take_framed tidy ok).2, ?_⟩
  cases i with
  | blob token payload => exact handleBlobPut_guards.final tidy.names
  | part id number payload => exact handlePartPut_guards.final tidy.names
  | command c => exact applyDisk_names tidy ok

/-- A disk on which plain names can do no harm: tidy histories, and nothing in the way of
configurations and staged parts. -/
structure Grounded (e : Env) (s : Disk) : Prop where
  tidy : e.Tidy s
  clear : ∀ kind ∈ grounds, ∀ q, q <:+ e.area kind → s.file q = none
  free : ∀ kind ∈ grounds, ∀ q, Below (e.area kind) q → s.get q ≠ some .dir

/-- What a command may change: files of objects, configurations of buckets and records of
uploads. -/
theorem touched_kind (ok : c.Tidy) (mem : q ∈ e.touched (.command c)) :
    q ∈ e.objectFiles ∨ Below (e.area "buckets") q ∨
      e.area "mpu" <:+ q ∧ (c.op = .deleteBucket ∨ Plain c.bucket ∧ Plain c.uploadID ∧
        q ∈ ({e.mpuMetaPath c.bucket c.uploadID,
          jsonTmp (e.mpuMetaPath c.bucket c.uploadID)} : Set FilePath)) := by
  have plain (addressed : c.onDisk = true) : Plain c.bucket := ok.bucket addressed
  have record (own : Plain c.bucket) (upload : Plain c.uploadID)
      (h : q ∈ ({e.mpuMetaPath c.bucket c.uploadID,
        jsonTmp (e.mpuMetaPath c.bucket c.uploadID)} : Set FilePath)) :
      e.area "mpu" <:+ q ∧ (c.op = .deleteBucket ∨ Plain c.bucket ∧ Plain c.uploadID ∧
        q ∈ ({e.mpuMetaPath c.bucket c.uploadID,
          jsonTmp (e.mpuMetaPath c.bucket c.uploadID)} : Set FilePath)) :=
    ⟨recordCells_area (tame_of_plain own) upload.2 h, .inr ⟨own, upload, h⟩⟩
  simp only [touched] at mem
  cases op : c.op <;> simp only [op] at mem record
  case putAccount | deleteAccount | unknown => exact mem.elim
  case putObject | deleteObject | copyObject | putObjectAcl | putObjectTagging | deleteObjectTag |
      putObjectRetention | putObjectLegalHold => exact .inl mem
  case deleteBucket =>
    have own := plain (by simp [Command.onDisk, op])
    have tame := tame_of_plain own
    rcases mem with h | h | h | h | h
    · exact .inl (.inl (.inl ((root_bucketDir tame).trans h)))
    · exact .inl (.inl (.inr (.inl ((area_versionsDir tame).trans h))))
    · exact .inl (.inr ((area_historyDir tame).trans h))
    · rw [mpuDir_eq own] at h
      exact .inr (.inr ⟨(List.suffix_cons _ _).trans h, .inl rfl⟩)
    · exact .inr (.inl (metaCells_below own.2 (.inl h)))
  case completeMultipart =>
    have own := plain (by simp [Command.onDisk, op])
    rcases mem with h | h
    · exact .inl h
    · exact .inr (.inr (record own (ok.upload (.inr (.inr (.inl op)))) (.inl h)))
  case createMultipart =>
    exact .inr (.inr (record (plain (by simp [Command.onDisk, op])) (ok.upload (.inl op)) mem))
  case uploadPart =>
    exact .inr (.inr (record (plain (by simp [Command.onDisk, op])) (ok.upload (.inr (.inl op))) mem))
  case abortMultipart =>
    have own := plain (by simp [Command.onDisk, op])
    rcases mem with h | glob
    · exact .inr (.inr (record own (ok.upload (.inr (.inr (.inr op)))) (.inl h)))
    · rw [join_plain (show Plain "mpstaging" by decide)] at glob
      exact .inl (.inl (.inl ((List.suffix_cons _ _).trans glob)))
  all_goals exact .inr (.inl (metaCells_below (plain (by simp [Command.onDisk, op])).2 mem))

/-- What an input may change is never on the way to those places. -/
theorem touched_inside (ok : i.Tidy) (ground : kind ∈ grounds) (mem : q ∈ e.touched i) :
    ¬ q <:+ e.area kind := by
  intro sub
  have inside {kind' : String} (h : e.area kind' <:+ q) : kind' = kind ∧ q = e.area kind := by
    have same := area_unique (h.trans sub) List.suffix_rfl
    subst same
    exact ⟨rfl, (h.eq_of_length_le sub.length_le).symm⟩
  have other {kind' : String} (h : e.area kind' <:+ q) (apart : kind' ∉ grounds) : False :=
    apart ((inside h).1 ▸ ground)
  have below {kind' : String} (h : Below (e.area kind') q) : False := by
    obtain ⟨rfl, eq⟩ := inside h.1
    exact h.2 eq
  cases i with
  | blob token payload => exact other mem (by decide)
  | part id number payload => exact below (partCells_below mem)
  | command c =>
    rcases touched_kind ok mem with ((h | h | h) | h) | h | ⟨h, -⟩
    · exact data_not_area (h.trans sub) List.suffix_rfl rfl
    · exact other h (by decide)
    · exact other h (by decide)
    · exact other h (by decide)
    · exact below h
    · exact other h (by decide)

theorem Grounded.take (ground : e.Grounded s) (ok : i.Tidy) : e.Grounded (final (e.take i) s)  where
  tidy := take_tidy ground.tidy ok
  clear kind mem q sub := by
    have frame := (take_framed ground.tidy ok).1
    rw [frame.file q fun touched => touched_inside ok mem touched sub]
    exact ground.clear kind mem q sub
  free kind mem q below dir := by
    have frame := (take_framed ground.tidy ok).1
    refine ground.free kind mem q below (frame.dir q (fun free => ?_) dir)
    simp only [grounds, List.mem_cons, List.not_mem_nil, or_false] at mem
    rcases mem with rfl | rfl
    · exact free.1 below
    · exact free.2 below

end Env

end D9Store
