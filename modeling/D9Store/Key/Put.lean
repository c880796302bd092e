import D9Store.Key.Entries

/-!
`applyPutObject` and the deletions that leave a marker, on one key.
-/

namespace D9Store

open Posix FilePath

/-! ### The metadata of a new version -/

section Metadata

variable {e : Env} (bm : BucketMeta) (nv : ObjectMeta) (c : Command)

theorem applyLockDefaults_eq :
    ∃ r, e.applyLockDefaults bm nv c = { nv with retention := r } := by
  unfold Env.applyLockDefaults
  split
  · exact ⟨nv.retention, rfl⟩
  · split
    · exact ⟨nv.retention, rfl⟩
    · exact ⟨_, rfl⟩

@[simp] theorem applyLockDefaults_key : (e.applyLockDefaults bm nv c).key = nv.key := by
  obtain ⟨r, eq⟩ := applyLockDefaults_eq (e := e) bm nv c
  rw [eq]

@[simp] theorem applyLockDefaults_versionID :
    (e.applyLockDefaults bm nv c).versionID = nv.versionID := by
  obtain ⟨r, eq⟩ := applyLockDefaults_eq (e := e) bm nv c
  rw [eq]

@[simp] theorem applyLockDefaults_blobID : (e.applyLockDefaults bm nv c).blobID = nv.blobID := by
  obtain ⟨r, eq⟩ := applyLockDefaults_eq (e := e) bm nv c
  rw [eq]

@[simp] theorem applyLockDefaults_deleteMarker :
    (e.applyLockDefaults bm nv c).deleteMarker = nv.deleteMarker := by
  obtain ⟨r, eq⟩ := applyLockDefaults_eq (e := e) bm nv c
  rw [eq]

/-- The fields a put takes from its command. -/
theorem putMeta_eq : ∃ acl tags retention legalHold, e.putMeta bm c =
    { e.metaFromCommand c c.size c.etag (Env.writeVersionID bm c) with
      blobID := "", acl, tags, retention, legalHold } := by
  obtain ⟨r, eq⟩ := applyLockDefaults_eq (e := e) bm
    { e.metaFromCommand c c.size c.etag (Env.writeVersionID bm c) with blobID := "" } c
  exact ⟨_, _, _, _, by rw [Env.putMeta, eq]; rfl⟩

@[simp] theorem putMeta_bucket : (e.putMeta bm c).bucket = c.bucket := by
  obtain ⟨_, _, _, _, eq⟩ := putMeta_eq (e := e) bm c
  rw [eq]
  rfl

@[simp] theorem putMeta_key : (e.putMeta bm c).key = c.key := by
  obtain ⟨_, _, _, _, eq⟩ := putMeta_eq (e := e) bm c
  rw [eq]
  rfl

@[simp] theorem putMeta_versionID : (e.putMeta bm c).versionID = Env.writeVersionID bm c := by
  obtain ⟨_, _, _, _, eq⟩ := putMeta_eq (e := e) bm c
  rw [eq]
  rfl

@[simp] theorem putMeta_blobID : (e.putMeta bm c).blobID = "" := by
  obtain ⟨_, _, _, _, eq⟩ := putMeta_eq (e := e) bm c
  rw [eq]

@[simp] theorem putMeta_deleteMarker : (e.putMeta bm c).deleteMarker = false := by
  obtain ⟨_, _, _, _, eq⟩ := putMeta_eq (e := e) bm c
  rw [eq]
  rfl

@[simp] theorem putMeta_size : (e.putMeta bm c).size = c.size := by
  obtain ⟨_, _, _, _, eq⟩ := putMeta_eq (e := e) bm c
  rw [eq]
  rfl

@[simp] theorem putMeta_lastModified : (e.putMeta bm c).lastModified = e.mtime c := by
  obtain ⟨_, _, _, _, eq⟩ := putMeta_eq (e := e) bm c
  rw [eq]
  rfl

/-! A copy and a completion name their version the same way. -/

@[simp] theorem copyMeta_key (src : ObjectMeta) : (e.copyMeta bm c src).key = c.key := by
  unfold Env.copyMeta
  rw [applyLockDefaults_key]
  split <;> split <;> rfl

@[simp] theorem copyMeta_versionID (src : ObjectMeta) :
    (e.copyMeta bm c src).versionID = Env.writeVersionID bm c := by
  unfold Env.copyMeta
  rw [applyLockDefaults_versionID]
  split <;> split <;> rfl

@[simp] theorem copyMeta_blobID (src : ObjectMeta) : (e.copyMeta bm c src).blobID = "" := by
  unfold Env.copyMeta
  rw [applyLockDefaults_blobID]
  split <;> split <;> rfl

theorem copyMeta_live {src : ObjectMeta} (live : src.deleteMarker = false) :
    (e.copyMeta bm c src).deleteMarker = false := by
  unfold Env.copyMeta
  rw [applyLockDefaults_deleteMarker]
  split <;> split <;> first | rfl | exact live

variable (mp : MultipartUpload) (parts : List Part) (total : Int)

@[simp] theorem completeMeta_key : (e.completeMeta bm mp c parts total).key = c.key :=
  applyLockDefaults_key _ _ _

@[simp] theorem completeMeta_versionID :
    (e.completeMeta bm mp c parts total).versionID = Env.writeVersionID bm c :=
  applyLockDefaults_versionID _ _ _

@[simp] theorem completeMeta_blobID : (e.completeMeta bm mp c parts total).blobID = "" :=
  applyLockDefaults_blobID _ _ _

@[simp] theorem completeMeta_deleteMarker :
    (e.completeMeta bm mp c parts total).deleteMarker = false :=
  applyLockDefaults_deleteMarker _ _ _

end Metadata

/-- An identifier that can name a version blob. -/
def Nameable (id : String) : Prop := id ≠ "" ∧ '/' ∉ id.toList

instance (id : String) : Decidable (Nameable id) := by
  unfold Nameable; infer_instance

namespace Site

variable {e : Env} {x : Site e} {s t : Disk} {c : Command} {enabled : Bool} {nv : ObjectMeta}

/-- The command is about the key. -/
def Addresses (x : Site e) (c : Command) : Prop := c.bucket = x.bucket ∧ c.key = x.key

theorem writeVersionID_nameable {bm : BucketMeta}
    (id : bm.versioningEnabled = true → Nameable c.versionID) :
    Nameable (Env.writeVersionID bm c) := by
  unfold Env.writeVersionID
  split
  · rename_i on
    exact id on
  · decide

theorem fit_putMeta (bm : BucketMeta) (addr : x.Addresses c)
    (id : bm.versioningEnabled = true → Nameable c.versionID) : x.Fit (e.putMeta bm c) := by
  obtain ⟨named, plain⟩ := writeVersionID_nameable id
  exact ⟨by simp [addr.2], by simpa using named, by simpa using plain, by simp, by simp⟩

theorem area_staging {token : String} (h : Plain token) :
    e.area "staging" <:+ e.stagingPath token := by
  rw [Env.stagingPath_eq h]
  exact List.suffix_cons _ _

/-! ### Put -/

theorem applyPutObject_wp {g : File} (ready : x.Ready s) (sound : x.Sound s)
    (addr : x.Addresses c) (token : Plain c.blobToken)
    (id : (e.bucketMetaForWrite s x.bucket).versioningEnabled = true → Nameable c.versionID)
    (file : s.file (e.stagingPath c.blobToken) = some g) :
    wp (e.applyPutObject c)
      (fun _ t =>
        x.Installed (e.bucketMetaForWrite s x.bucket).versioningEnabled
          (e.putMeta (e.bucketMetaForWrite s x.bucket) c) g.content {e.stagingPath c.blobToken} s t ∧
        t.file (e.stagingPath c.blobToken) = none ∧
        (e.separateVolumes = false → t.file (Env.tmpOf x.op) = s.file (Env.tmpOf x.op)))
      (fun _ t => s.get (Env.tmpOf x.op) ≠ some .dir → x.Stray s t) s := by
  obtain ⟨bucket, key⟩ := addr
  have arrived : (s.get (e.stagingPath c.blobToken)).isSome = true := by
    simp [DirTree.file_eq_some.mp file]
  have installs := install_wp (e.bucketMetaForWrite s x.bucket).versioningEnabled
    ready sound (fit_putMeta (e.bucketMetaForWrite s x.bucket) ⟨bucket, key⟩ id)
    (area_staging token) file
  unfold Env.applyPutObject
  simp only [wp_bind, wp_get, arrived, if_true, bucket, key, loadKeyMetaOrNew_eq ready sound]
  simpa only [wp_bind] using installs

/-- A put whose payload did not arrive changes nothing. -/
theorem applyPutObject_missing (gone : s.get (e.stagingPath c.blobToken) = none) :
    e.applyPutObject c s = .error .blobMissing s := by
  simp [Env.applyPutObject, bind_apply, reading, gone]

theorem applyPutObject_arrived (run : e.applyPutObject c s = .ok () t) :
    (s.get (e.stagingPath c.blobToken)).isSome = true := by
  by_contra gone
  rw [Bool.not_eq_true, Option.isSome_eq_false_iff, Option.isNone_iff_eq_none] at gone
  rw [applyPutObject_missing gone] at run
  cases run

/-! ### Delete markers -/

/-- The disk after a delete marker was put in front of the history. -/
structure Marked (x : Site e) (enabled : Bool) (nv : ObjectMeta) (s t : Disk) : Prop where
  frame : Framed (x.cells {id | History.archivedID enabled (x.versions s) = some id} ∅) x.dirs s t
  gone : t.file x.op = none
  tmp : t.file (Env.tmpOf x.op) = s.file (Env.tmpOf x.op)
  archived : ∀ id, History.archivedID enabled (x.versions s) = some id →
    content t (x.blob id) = content s x.op
  recorded : x.Recorded (History.prepended nv (History.displaced enabled (x.versions s))) t

theorem marker_shape (sound : x.Sound s) (own : nv.key = x.key) (id : Nameable nv.versionID)
    (blob : nv.blobID = "") :
    History.Shape x.key (History.prepended nv (History.displaced enabled (x.versions s))) :=
  sound.shape.displaced.prepended (History.displaced_archived sound.shape) own id.1 id.2 blob

theorem Marked.entries (h : x.Marked enabled nv s t) (sound : x.Sound s) (own : nv.key = x.key)
    (id : Nameable nv.versionID) (blob : nv.blobID = "") (marker : nv.deleteMarker = true)
    (fresh : ∀ id, History.archivedID enabled (x.versions s) = some id →
      ∀ v ∈ x.versions s, v.blobID ≠ id) :
    x.entries t = Versioned.History.mark enabled nv.versionID (x.entries s) := by
  rw [h.recorded.entries (marker_shape sound own id blob) (History.Latest.prepended _ _),
    map_entry_prepended, map_entry_displaced sound h.frame h.archived fresh]
  have new : x.entry t nv = { id := nv.versionID, marker := true, latest := nv.isLatest } := by
    simp [entry, bodyAt, blob, marker]
  rw [new, Versioned.History.mark, Versioned.History.push, Versioned.History.push]
  cases Versioned.History.displaced enabled (x.entries s) with
  | nil => rfl
  | cons y rest => rfl

/-- Deletion under versioning always succeeds. -/
theorem deleteToMarker_spec (ready : x.Ready s) (sound : x.Sound s) :
    ∃ t, e.deleteToMarker c (x.keyMeta (x.versions s)) s = .ok () t ∧
      x.Marked true (e.marker c c.versionID) s t := by
  obtain ⟨s₁, run₁, frame₁, idle, archived⟩ := displaceCurrent_spec ready sound true
  set arch := History.archivedID true (x.versions s) with arch_def
  have plain : ∀ id, arch = some id → '/' ∉ id.toList := fun id h => plain_archivedID sound h
  have frame₁' : Framed (x.cells {id | arch = some id} ∅) x.dirs s s₁ :=
    frame₁.mono (displacedCells_subset arch ∅ plain) fun q h => .inr (.inr (.inl h))
  have ready₁ : x.Ready s₁ := ready.framed frame₁'
  have gone : s₁.file x.op = none := by
    cases eq : arch with
    | some id => exact (archived id eq).1
    | none =>
      rw [idle eq]
      have := sound.head
      rcases History.archivedID_eq_none eq with ⟨-, notHere⟩ | ⟨cur, rest, -, -, off, -⟩
      · rw [notHere] at this
        simpa using this
      · cases off
  obtain ⟨t, run₂, frame₂, file, -, recorded⟩ := record_spec ready₁
    (History.prepended (e.marker c c.versionID) (History.displaced true (x.versions s)))
    (by rw [gone]; simp [History.prepended, Env.marker, Env.atKeyPath])
  have frame₂ := record_frame frame₂
  have tmp_ne : Env.tmpOf x.op ≠ x.op := suffixed_ne (by decide)
  refine ⟨t, ?_, ⟨?_, ?_, ?_, ?_, recorded⟩⟩
  · refine bind_ok.mpr ⟨_, s₁, run₁, ?_⟩
    simpa [Env.finalizeKey, History.prependLatest_eq, keyMeta, History.prepended] using run₂
  · refine frame₁'.trans (frame₂.mono ?_ subset_rfl)
    rintro q (h | h | h)
    · exact .inl h
    · exact .inr (.inr (.inl h))
    · exact .inr (.inr (.inr (.inl h)))
  · rw [file, gone, Option.map_none]
  · rw [frame₂.file, frame₁.file]
    · rintro ⟨id, eq, h | h | h⟩
      · exact tmp_ne h
      · exact Env.data_not_area x.root_tmp (x.area_blob (plain id eq)) h
      · exact Env.data_not_area x.root_tmp (x.area_blobTmp (plain id eq)) h
    · simp [tmp_ne, Env.data_not_area x.root_tmp x.area_hp,
        Env.data_not_area x.root_tmp x.area_hpTmp]
  · intro id eq
    have blob := x.area_blob (plain id eq)
    rw [← (archived id eq).2.1]
    refine content_of_file_eq (frame₂.file _ ?_)
    have h₁ := Ne.symm (x.op_ne_blob (plain id eq))
    have h₂ := Ne.symm (x.hp_ne_blob (plain id eq))
    have h₃ := Env.area_ne blob x.area_hpTmp (by decide)
    simp [h₁, h₂, h₃]

/-- What `applyDeleteObject` does once the history was read. -/
theorem applyDeleteObject_eq (ready : x.Ready s) (sound : x.Sound s) (addr : x.Addresses c) :
    e.applyDeleteObject c s =
      if x.versions s = [] ∧
          ¬ ((e.bucketMetaForWrite s x.bucket).versioningEnabled = true ∧ c.versionID ≠ "") then
        .ok () s
      else if Env.explicitVersion c then e.deleteVersion c (x.keyMeta (x.versions s)) s
      else if (e.bucketMetaForWrite s x.bucket).versioningEnabled then
        e.deleteToMarker c (x.keyMeta (x.versions s)) s
      else e.deleteNull (e.bucketMetaForWrite s x.bucket) c (x.keyMeta (x.versions s)) s := by
  obtain ⟨bucket, key⟩ := addr
  by_cases empty : x.versions s = []
  · have read := readKeyMeta_nil ready sound empty
    simp only [Env.applyDeleteObject, bind_apply, reading, bucket, key, read, empty, true_and]
    by_cases on : (e.bucketMetaForWrite s x.bucket).versioningEnabled = true ∧ c.versionID ≠ ""
    · rw [if_pos on, if_neg (not_not.mpr on)]
      simp only [keyMeta]
      split
      · rfl
      · rw [if_pos on.1, if_pos on.1]
    · rw [if_neg on, if_pos on]
      rfl
  · obtain ⟨flag, read⟩ := readKeyMeta_some ready sound empty
    simp only [Env.applyDeleteObject, bind_apply, reading, bucket, key, read, empty, false_and,
      if_false, keyMeta]
    split
    · rfl
    · split <;> rfl

/-! ### Metadata -/

/-- A metadata command rewrites the history with other metadata, or changes nothing. -/
theorem applyObjectMetaMutation_wp (ready : x.Ready s) (sound : x.Sound s) (addr : x.Addresses c) :
    wp (e.applyObjectMetaMutation c)
      (fun _ t => ∃ vs, e.amendTarget c (x.versions s) = .ok vs ∧ x.versions s ≠ [] ∧
        Framed (x.recordCells vs) (x.historyDirs vs) s t ∧
        content t x.op = content s x.op ∧ t.file x.op = (s.file x.op).map (stampHead vs) ∧
        x.Recorded vs t)
      (fun _ t => t = s) s := by
  obtain ⟨bucket, key⟩ := addr
  unfold Env.applyObjectMetaMutation
  rw [wp_bind, wp_reading, bucket, key]
  by_cases empty : x.versions s = []
  · rw [readKeyMeta_nil ready sound empty]
  · obtain ⟨flag, read⟩ := readKeyMeta_some ready sound empty
    rw [read]
    dsimp only
    rw [wp_bind, wp_reading]
    cases amended : e.amendTarget c (x.versions s) with
    | error err => rfl
    | ok vs =>
      dsimp only
      have head : (s.file x.op).isSome = vs.head?.any Env.atKeyPath := by
        rw [sound.head, History.head_of_core (History.amendTarget_core amended)]
      obtain ⟨t, run, frame, file, content, recorded⟩ := record_spec ready vs head
      exact wp_of_run run ⟨vs, rfl, empty, frame, content, file, recorded⟩

theorem entry_of_core {v w : ObjectMeta} (h : History.core v = History.core w) :
    x.entry s v = x.entry s w := by
  have id := congrArg ObjectMeta.versionID h
  have blob := congrArg ObjectMeta.blobID h
  have marker := congrArg ObjectMeta.deleteMarker h
  have latest := congrArg ObjectMeta.isLatest h
  simp only [History.core] at id blob marker latest
  simp only [entry, bodyAt, id, blob, marker, latest]

theorem map_entry_core {vs ws : List ObjectMeta}
    (h : vs.map History.core = ws.map History.core) :
    vs.map (x.entry s) = ws.map (x.entry s) := by
  induction vs generalizing ws with
  | nil =>
    cases ws with
    | nil => rfl
    | cons w ws => cases h
  | cons v vs ih =>
    cases ws with
    | nil => cases h
    | cons w ws =>
      simp only [List.map_cons, List.cons.injEq] at h ⊢
      exact ⟨entry_of_core h.1, ih h.2⟩

/-- No history on disk is the forgotten kind. -/
theorem settle_entries (sound : x.Sound s) :
    Versioned.History.settle (x.entries s) = x.entries s := by
  rw [entries]
  cases eq : x.versions s with
  | nil => rfl
  | cons v rest =>
    cases rest with
    | cons w rest => rfl
    | nil =>
      cases marker : v.deleteMarker with
      | true => simp [Versioned.History.settle, entry, marker]
      | false =>
        have blob := (History.atKeyPath_iff.mp (sound.single eq marker)).1
        simp [Versioned.History.settle, entry, blob]

/-- A metadata command leaves every entry as it is. -/
theorem entries_amended {vs : List ObjectMeta} (sound : x.Sound s)
    (same : vs.map History.core = (x.versions s).map History.core)
    (frame : Framed (x.recordCells vs) (x.historyDirs vs) s t)
    (op : content t x.op = content s x.op) (recorded : x.Recorded vs t) :
    x.entries t = x.entries s := by
  have bodies : ∀ v ∈ x.versions s, x.entry t v = x.entry s v := by
    intro v mem
    have plain := sound.shape.plainBlob v mem
    have out : x.blob v.blobID ∉ ({x.op, x.hp, Env.jsonTmp x.hp} : Set FilePath) := by
      simp [Ne.symm (x.op_ne_blob plain), Ne.symm (x.hp_ne_blob plain),
        Env.area_ne (x.area_blob plain) x.area_hpTmp (by decide)]
    simp only [entry, bodyAt, op, content_of_file_eq ((record_frame frame).file _ out)]
  rw [recorded.entries (sound.shape.of_core same) (sound.latest.of_core same), map_entry_core same,
    List.map_congr_left bodies]
  exact settle_entries sound

end Site

end D9Store
