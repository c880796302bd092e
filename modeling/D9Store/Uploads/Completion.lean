import D9Store.Key.Metadata
import D9Store.Keyspace.Needed
import D9Store.Uploads.Assembly
import D9Store.Uploads.Ledger
import D9Store.Uploads.Parts

/-!
From the parts of an upload to its object.

`lastParts` says which parts a run has left in the record of an upload, `validated` which requests
a completion accepts, and `complete_left` what a completion leaves on the disk.
-/

namespace D9Store

open Posix FilePath

namespace Env

variable {e : Env} {s t : Disk} {c : Command} {bucket id : String} {m : Int → Option Part}
    {mp : MultipartUpload} {x : Site e} {nv : ObjectMeta} {bytes : Bytes}

/-! ### The parts a run records -/

/-- What an input does to the parts of an upload. -/
def tallied (e : Env) (s : Disk) (bucket id : String) (i : Input) (m : Int → Option Part) :
    Int → Option Part :=
  match i with
  | .command c =>
    if (outcome (e.applyDisk c) s).isOk = true ∧ bucket = c.bucket ∧ id = c.uploadID then
      match c.op with
      | .createMultipart => fun _ => none
      | .uploadPart => Function.update m c.partNumber (some (e.partOf c))
      | _ => m
    else m
  | _ => m

/-- The last part of each number that was uploaded since the upload began. -/
def lastParts (e : Env) (bucket id : String) :
    List Input → Disk → (Int → Option Part) → Int → Option Part
  | [], _, m => m
  | i :: rest, s, m => e.lastParts bucket id rest (final (e.take i) s) (e.tallied s bucket id i m)

/-- The record of the upload has these parts. -/
def Tallies (m : Int → Option Part) (mp : MultipartUpload) : Prop :=
  Numbered mp.parts ∧ ∀ p, p ∈ mp.parts ↔ m p.partNumber = some p

theorem Tallies.record (h : Tallies m mp) :
    Tallies (Function.update m c.partNumber (some (e.partOf c))) (e.recorded c mp) := by
  obtain ⟨asc, parts⟩ := h
  refine ⟨numbered_recordPart asc, fun p => ?_⟩
  rw [show (e.recorded c mp).parts = recordPart (e.partOf c) mp.parts from rfl,
    mem_recordPart_iff asc, parts p]
  by_cases same : p.partNumber = c.partNumber
  · rw [same, Function.update_self]
    simp [partOf, eq_comm]
  · rw [Function.update_of_ne same]
    have other : p ≠ e.partOf c := fun eq => same (congrArg Part.partNumber eq)
    rw [or_iff_right other]
    exact and_iff_left same

theorem tallies_booked {i : Input} {U : Uploads} (inv : ∀ mp, U bucket id = some mp → Tallies m mp)
    (found : e.booked s i U bucket id = some mp) : Tallies (e.tallied s bucket id i m) mp := by
  cases i with
  | blob token payload => exact inv mp found
  | part id number payload => exact inv mp found
  | command c =>
    unfold booked at found
    unfold tallied
    by_cases ok : (outcome (e.applyDisk c) s).isOk = true
    · simp only [ok, if_true, true_and] at found ⊢
      by_cases own : bucket = c.bucket ∧ id = c.uploadID
      · rw [if_pos own]
        cases op : c.op <;> simp only [op] at found
        case createMultipart =>
          simp only [Uploads.set, if_pos own, Option.some.injEq] at found
          rw [← found]
          exact ⟨.nil, fun p => by simp [opened]⟩
        case uploadPart =>
          simp only [Uploads.set, if_pos own] at found
          obtain ⟨old, known, rfl⟩ := Option.map_eq_some_iff.mp found
          rw [← own.1, ← own.2] at known
          exact (inv old known).record
        case completeMultipart | abortMultipart =>
          simp only [Uploads.set, if_pos own] at found
          cases found
        case deleteBucket =>
          rw [if_pos own.1] at found
          cases found
        all_goals exact inv mp found
      · rw [if_neg own]
        refine inv mp ?_
        cases op : c.op <;> simp only [op] at found
        case createMultipart | uploadPart | completeMultipart | abortMultipart =>
          simpa only [Uploads.set, if_neg own] using found
        case deleteBucket =>
          split at found
          · cases found
          · exact found
        all_goals exact found
    · simp only [ok, Bool.false_eq_true, if_false, false_and] at found ⊢
      exact inv mp found

/-- In every run the record of an upload has the last part of each number. -/
theorem tallies_feed (ground : e.Grounded s) (plain : Plain bucket) (name : '/' ∉ id.toList)
    (inv : ∀ mp, e.upload s bucket id = some mp → Tallies m mp) {ins : List Input}
    (run : e.Along (fun _ i => i.Tidy) ins s) (found : e.upload (e.feed ins s) bucket id = some mp) :
    Tallies (e.lastParts bucket id ins s m) mp := by
  induction ins generalizing s m with
  | nil => exact inv mp found
  | cons i rest ih =>
    refine ih (ground.take run.1) (fun mp' found' => ?_) run.2 found
    rw [upload_take ground run.1 plain name] at found'
    exact tallies_booked inv found'

/-! ### The checks of a completion -/

/-- The checks of `applyCompleteMultipart`, before it changes anything. -/
def validated (e : Env) (s : Disk) (c : Command) : Except Err (MultipartUpload × List Part) := do
  let (mp, ordered) ← Site.completed e s c
  if ordered.all fun p => (s.get (e.mpPartPath c.uploadID p.partNumber)).isSome then .ok (mp, ordered)
  else .error .blobMissing

/-- `applyCompleteMultipart` after its checks. -/
def joinAndInstall (e : Env) (bm : BucketMeta) (mp : MultipartUpload) (c : Command)
    (ordered : List Part) : M Unit := do
  let tmp := e.stagingPath c.blobToken
  sys (writeFile tmp ⟨.raw [], {}, .wall⟩ (written (.raw [])))
  let total ← e.appendParts c.uploadID tmp ordered
  let km ← reading fun s => .ok (e.loadKeyMetaOrNew s c.bucket c.key)
  match ← attempt (e.displaceCurrent km bm.versioningEnabled) with
  | .error (err : Err) => do
    ignore (remove tmp : Call File Unit)
    throw err
  | .ok km => do
    e.putCurrentBytes c.bucket c.key tmp
    e.writeKeyMeta (km.prependLatest (e.completeMeta bm mp c ordered total))
    e.cleanupUpload c.bucket c.uploadID

/-- A completion checks its request, and goes on only when it passes. -/
theorem applyCompleteMultipart_eq (s : Disk) :
    e.applyCompleteMultipart c s =
      match e.validated s c with
      | .error err => .error err s
      | .ok (mp, ordered) => e.joinAndInstall (e.bucketMetaForWrite s c.bucket) mp c ordered s := by
  unfold applyCompleteMultipart validated Site.completed
  simp only [bind_apply, reading]
  cases e.readMPU s c.bucket c.uploadID with
  | error err => rfl
  | ok mp =>
    simp only [except_ok_bind]
    cases orderedParts mp c with
    | error err => rfl
    | ok ordered =>
      simp only [except_ok_bind]
      cases ordered.all fun p => (s.get (e.mpPartPath c.uploadID p.partNumber)).isSome <;> rfl

/-- The requests that pass the checks. -/
theorem validated_iff (ground : e.Grounded s) (named : '/' ∉ c.uploadID.toList)
    (asc : ∀ mp, e.upload s c.bucket c.uploadID = some mp → Numbered mp.parts) {ordered : List Part} :
    e.validated s c = .ok (mp, ordered) ↔
      e.upload s c.bucket c.uploadID = some mp ∧ ordered = requestedParts mp c ∧ Acceptable e s mp c := by
  have file (number : Int) : (s.get (e.mpPartPath c.uploadID number)).isSome =
      (s.file (e.mpPartPath c.uploadID number)).isSome := by
    have notDir := ground.free "mpstaging" (by decide) (e.mpPartPath c.uploadID number) (by
      rw [mpPartPath_eq named]
      exact below_cons _ _)
    unfold DirTree.file
    cases node : s.get (e.mpPartPath c.uploadID number) with
    | none => rfl
    | some n =>
      cases n with
      | dir => exact absurd node notDir
      | file f => rfl
  simp only [validated, Site.completed, file]
  constructor
  · intro passed
    obtain ⟨⟨mp', ordered'⟩, found, arrived⟩ := except_bind_ok passed
    obtain ⟨mp'', record, rest⟩ := except_bind_ok found
    obtain ⟨ordered'', order, eq⟩ := except_bind_ok rest
    cases eq
    dsimp only at arrived
    split at arrived
    · rename_i present
      cases arrived
      have known := readMPU_ok.mp record
      have same := requested_of_resolves (asc mp known) (Site.orderedParts_spec order)
      refine ⟨known, same.symm, (acceptable_iff (asc mp known)).mp ⟨?_, fun p mem => ?_⟩⟩
      · rw [same, order]
      · rw [same] at mem
        exact List.all_eq_true.mp present p mem
    · cases arrived
  · rintro ⟨known, rfl, ok⟩
    obtain ⟨order, present⟩ := (acceptable_iff (asc mp known)).mpr ok
    rw [readMPU_ok.mpr known, except_ok_bind, order, except_ok_bind, except_ok_bind]
    exact if_pos (List.all_eq_true.mpr present)

/-! ### What a write leaves on a neat disk -/

theorem Left.spared (h : Left x nv bytes s) (upload : Plain c.uploadID)
    (kept : ¬ e.Swept x.bucket c.uploadID x.op)
    (run : e.cleanupUpload x.bucket c.uploadID s = .ok () t) : Left x nv bytes t := by
  obtain ⟨shrinks, effect⟩ := cleanupUpload_effect run
  cases h with
  | file f absent raw file =>
    exact .file f (readDoc_absent_shrinks shrinks absent) raw ((effect _ _ file).2 kept)
  | doc km found current =>
    obtain ⟨f, file, holds⟩ := readDoc_ok found
    obtain ⟨g, object, raw⟩ := Option.map_eq_some_iff.mp current
    refine .doc km (readDoc_of_document ?_ holds) ?_
    · exact (effect _ _ file).2 (not_swept upload x.area_hp (by decide) x.tame)
    · rw [content, (effect _ _ object).2 kept, Option.map_some, raw]

/-- The latest version of a key that was written, apart from its id and its time. -/
theorem Left.head (h : Left x nv bytes t) (bucket : nv.bucket = x.bucket) (key : nv.key = x.key)
    (blob : nv.blobID = "") (live : nv.deleteMarker = false) (size : nv.size = bytes.length)
    (hold : nv.legalHold = nv.hold) :
    ∃ v, (e.versionsOf t x.bucket x.key).head? = some v ∧
      v.undated = { nv with isLatest := true }.undated := by
  rcases h.latest.2 with ⟨rest, eq⟩ | ⟨f, raw, eq⟩
  · exact ⟨_, by rw [eq]; rfl, rfl⟩
  · refine ⟨_, by rw [eq]; rfl, ?_⟩
    have length : e.size f.content = nv.size := by rw [raw, size]; rfl
    simp only [ObjectMeta.undated, Site.readBack, bucket, key, blob, live, length, ObjectMeta.mk.injEq,
      true_and]
    exact hold.symm

/-- The record of a completed object. -/
theorem completeMeta_eq (bm : BucketMeta) (mp : MultipartUpload) (c : Command) (parts : List Part)
    (total : Int) :
    e.completeMeta bm mp c parts total =
      { bucket := c.bucket, key := c.key, versionID := writeVersionID bm c,
        etag := e.multipartETag parts, size := total, contentType := mp.contentType,
        userMeta := mp.userMeta, storageClass := mp.storageClass, lastModified := e.mtime c,
        acl := mp.acl, retention := e.defaultRetention bm c } :=
  applyLockDefaults_or e bm _ c

/-- What a completion leaves, until the cleanup. -/
theorem complete_left (neat : e.Neat s) (plain : Plain c.bucket) (token : Plain c.blobToken)
    (upload : Plain c.uploadID) (run : e.applyCompleteMultipart c s = .ok () t) :
    ∃ (mp : MultipartUpload) (parts : List Part) (x : Site e) (u : Disk),
      Site.completed e s c = .ok (mp, parts) ∧ x.bucket = c.bucket ∧ x.key = c.key ∧
      Left x (e.completeMeta (e.bucketMetaForWrite s c.bucket) mp c parts
        (e.joined s c.uploadID parts).length) (e.joined s c.uploadID parts) u ∧
      e.cleanupUpload c.bucket c.uploadID u = .ok () t := by
  have tame := tame_of_plain plain
  obtain ⟨mp, parts, total, s₁, s₂, s₃, u, found, assembled, displace, install, record, cleanup⟩ :=
    applyCompleteMultipart_ok tame token run
  obtain ⟨payload, rfl, -⟩ := assembled.payload upload.2
  obtain ⟨op, place⟩ := objectPath_of_putCurrentBytes install
  obtain ⟨x, xBucket, xKey⟩ := site_of_write tame place record
  refine ⟨mp, parts, x, u, found, xBucket, xKey, ?_, cleanup⟩
  have names := neat.tidy.load tame c.key
  rw [← xBucket, ← xKey] at install record
  have moved := installed_content x names.bucket names.head (area_staging token) payload displace
    install
  rw [← xBucket]
  exact neat.left (completeMeta_deleteMarker ..) (completeMeta_blobID ..) moved record

/-- What a put leaves. -/
theorem put_left (neat : e.Neat s) (plain : Plain c.bucket) (token : Plain c.blobToken)
    (payload : content s (e.stagingPath c.blobToken) = some (.raw bytes))
    (run : e.applyPutObject c s = .ok () t) :
    ∃ x : Site e, x.bucket = c.bucket ∧ x.key = c.key ∧
      Left x (e.putMeta (e.bucketMetaForWrite s c.bucket) c) bytes t := by
  have tame := tame_of_plain plain
  obtain ⟨s₁, s₂, displace, install, record⟩ := applyPutObject_ok run
  obtain ⟨op, place⟩ := objectPath_of_putCurrentBytes install
  obtain ⟨x, xBucket, xKey⟩ := site_of_write tame place record
  refine ⟨x, xBucket, xKey, ?_⟩
  have names := neat.tidy.load tame c.key
  rw [← xBucket, ← xKey] at install record
  have moved := installed_content x names.bucket names.head (area_staging token) payload displace
    install
  rw [← xBucket]
  exact neat.left (putMeta_deleteMarker ..) (putMeta_blobID ..) moved record

end Env

end D9Store
