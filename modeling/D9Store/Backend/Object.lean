import D9Store.Backend.Bucket

/-!
Object commands: put, delete, copy and metadata changes
(`internal/storage/backend_object.go`, `backend_meta.go`).
-/

namespace D9Store

open Posix

/-- `userMetaFrom`: the `x-amz-meta-` entries, without the prefix. -/
def userMetaFrom (m : StrMap) : StrMap :=
  m.filterMap fun (k, v) =>
    if "x-amz-meta-".toList <+: k.toList then some (String.ofList (k.toList.drop 11), v) else none

namespace Env

variable (e : Env)

/-! ### From a command to metadata -/

/-- `metaFromCommand`. -/
def metaFromCommand (c : Command) (size : Int) (etag versionID : String) : ObjectMeta :=
  { bucket := c.bucket
    key := c.key
    versionID := versionID
    blobID := c.blobToken
    etag := etag
    size := size
    contentType := c.metaMap.find Command.metaContentType
    contentEncoding := c.metaMap.find Command.metaContentEncoding
    contentLanguage := c.metaMap.find Command.metaContentLang
    contentDisposition := c.metaMap.find Command.metaContentDisp
    cacheControl := c.metaMap.find Command.metaCacheControl
    expires := c.metaMap.find Command.metaExpires
    storageClass := c.storageCls
    lastModified := e.mtime c
    userMeta := userMetaFrom c.metaMap }

/-- `AddDate` on a command's time. -/
def later (t : Stamp) (years days : Int) : Stamp :=
  match t with
  | .time t => .time (e.addDate t years days)
  | .wall => .wall

/-- `applyLockDefaults`: the bucket's default retention, for a version without one. -/
def applyLockDefaults (bm : BucketMeta) (nv : ObjectMeta) (c : Command) : ObjectMeta :=
  match bm.objectLock with
  | none => nv
  | some lock =>
    if !lock.enabled || lock.defaultMode == "" || nv.retention.isSome then nv
    else
      let base := e.mtime c
      let days := if 0 < lock.defaultDays then e.later base 0 lock.defaultDays else base
      let years := if 0 < lock.defaultYrs then e.later days lock.defaultYrs 0 else days
      { nv with retention := some ⟨lock.defaultMode, years⟩ }

/-- `applyPutExtras`: ACL, tags, retention and legal hold supplied with a put. -/
def applyPutExtras (nv : ObjectMeta) (c : Command) : ObjectMeta :=
  let acl := if c.config = "" then none else e.unmarshalACL c.config
  let tags :=
    if c.metaMap.find Command.metaTags = "" then none
    else e.unmarshalTags (c.metaMap.find Command.metaTags)
  let retention :=
    if c.metaMap.find Command.metaRetentionMode = "" then none
    else (e.parseTime (c.metaMap.find Command.metaRetainUntil)).map fun t =>
      (⟨c.metaMap.find Command.metaRetentionMode, .time t⟩ : Retention)
  let hold := c.metaMap.find Command.metaLegalHold
  { nv with
    acl := acl.or nv.acl
    tags := tags.getD nv.tags
    retention := retention.or nv.retention
    legalHold := if hold = "" then nv.legalHold else some ⟨hold⟩ }

/-- The version id a write gets. -/
def writeVersionID (bm : BucketMeta) (c : Command) : String :=
  if bm.versioningEnabled then c.versionID else "null"

/-- The metadata `applyPutObject` stores. -/
def putMeta (bm : BucketMeta) (c : Command) : ObjectMeta :=
  let nv := { e.metaFromCommand c c.size c.etag (writeVersionID bm c) with blobID := "" }
  e.applyPutExtras (e.applyLockDefaults bm nv c) c

/-! ### Put -/

/-- `applyPutObject`. -/
def applyPutObject (c : Command) : M Unit := do
  let bm ← reading fun s => .ok (e.bucketMetaForWrite s c.bucket)
  let staged := e.stagingPath c.blobToken
  let arrived ← reading fun s => .ok (s.get staged).isSome
  unless arrived do throw .blobMissing
  let km ← reading fun s => .ok (e.loadKeyMetaOrNew s c.bucket c.key)
  let km ← e.displaceCurrent km bm.versioningEnabled
  e.putCurrentBytes c.bucket c.key staged
  e.writeKeyMeta (km.prependLatest (e.putMeta bm c))

/-! ### Delete -/

/-- `promoteNewLatest`: pull the new latest version up to the key path when it is an
archived one. -/
def promoteNewLatest (km : KeyMeta) : M KeyMeta :=
  match km.versions with
  | [] => pure km
  | nl :: rest =>
    let nl := { nl with isLatest := true }
    if !nl.deleteMarker && nl.blobID != "" then do
      match ← attempt (e.promoteArchived km.bucket km.key nl.blobID) with
      | .ok _ => pure { km with versions := { nl with blobID := "" } :: rest }
      | .error (_ : Err) => pure { km with versions := nl :: rest }
    else pure { km with versions := nl :: rest }

/-- The version whose bytes are the object file. -/
def atKeyPath (v : ObjectMeta) : Bool := v.blobID == "" && !v.deleteMarker

/-- The blobs of the removed versions go, in history order. -/
def removeBlobs (bucket : String) : List ObjectMeta → M Unit
  | [] => pure ()
  | v :: rest => do
    unless atKeyPath v do e.removeArchivedBlob bucket v.blobID
    removeBlobs bucket rest

/-- Deletion of a named version. -/
def deleteVersion (c : Command) (km : KeyMeta) : M Unit := do
  let removed := km.versions.filter fun v => v.versionID == c.versionID
  let kept := { km with versions := km.versions.filter fun v => v.versionID != c.versionID }
  e.removeBlobs c.bucket removed
  if removed.any atKeyPath then do
    e.removeCurrent c.bucket c.key
    let kept ← e.promoteNewLatest kept
    e.finalizeKey kept
  else e.finalizeKey kept.markLatest

/-- A delete marker. -/
def marker (c : Command) (versionID : String) : ObjectMeta :=
  { bucket := c.bucket, key := c.key, versionID, deleteMarker := true, lastModified := e.mtime c }

/-- Deletion of the latest version under enabled versioning. -/
def deleteToMarker (c : Command) (km : KeyMeta) : M Unit := do
  let km ← e.displaceCurrent km true
  e.finalizeKey (km.prependLatest (e.marker c c.versionID))

/-- The bytes of the latest version go; its entry goes too when it is the unversioned one
or the object file. -/
def dropCurrent (c : Command) (km : KeyMeta) : M KeyMeta :=
  match km.versions with
  | [] => pure km
  | cur :: rest =>
    if cur.deleteMarker then pure km
    else do
      if cur.blobID = "" then e.removeCurrent c.bucket c.key
      else e.removeArchivedBlob c.bucket cur.blobID
      if cur.versionID = "null" ∨ cur.blobID = "" then pure { km with versions := rest }
      else pure km

/-- Deletion of the latest version in an unversioned or suspended bucket. -/
def deleteNull (bm : BucketMeta) (c : Command) (km : KeyMeta) : M Unit := do
  let km ← e.dropCurrent c km
  if bm.versioning = "Suspended" then
    e.finalizeKey (km.prependLatest (e.marker c "null"))
  else e.finalizeKey km.markLatest

/-- The request names the version to delete. -/
def explicitVersion (c : Command) : Bool :=
  c.versionID != "" && c.metaMap.find "explicit-version" == "true"

/-- `applyDeleteObject`. -/
def applyDeleteObject (c : Command) : M Unit := do
  let bm ← reading fun s => .ok (e.bucketMetaForWrite s c.bucket)
  let found ← reading fun s => .ok (e.readKeyMeta s c.bucket c.key)
  let proceed (km : KeyMeta) : M Unit :=
    let km := { km with synthesized := false }
    if explicitVersion c then e.deleteVersion c km
    else if bm.versioningEnabled then e.deleteToMarker c km
    else e.deleteNull bm c km
  match found with
  | .ok km => proceed km
  | .error err =>
    -- Deleting a missing key leaves a marker under versioning and is a no-op otherwise.
    if err = .api errNoSuchKey ∧ bm.versioningEnabled ∧ c.versionID ≠ "" then
      proceed { bucket := c.bucket, key := c.key }
    else pure ()

/-! ### Copy -/

/-- `resolveVersion`: the named version, or the latest. -/
def resolveVersion (s : Disk) (bucket key versionID : String) :
    Except Err (ObjectMeta × KeyMeta) := do
  let _ ← e.readBucketMeta s bucket
  let km ← e.readKeyMeta s bucket key
  if versionID ≠ "" then
    match km.versions.find? fun v => v.versionID == versionID with
    | some v => .ok (v, km)
    | none => .error (.api errNoSuchVersion)
  else
    match km.latest with
    | some v => .ok (v, km)
    | none => .error (.api errNoSuchKey)

/-- The metadata `applyCopyObject` stores. -/
def copyMeta (bm : BucketMeta) (c : Command) (src : ObjectMeta) : ObjectMeta :=
  let vid := writeVersionID bm c
  let inherited :=
    { src with
      bucket := c.bucket, key := c.key, versionID := vid, blobID := "",
      lastModified := e.mtime c, isLatest := false, acl := none }
  let nv :=
    if c.metaMap.find "metadata-directive" = "REPLACE" then
      { e.metaFromCommand c src.size src.etag vid with
        blobID := "", storageClass := inherited.storageClass }
    else inherited
  let nv := if c.metaMap.find "tagging-directive" = "REPLACE" then { nv with tags := [] } else nv
  e.applyLockDefaults bm nv c

/-- `applyCopyObject` until the bytes are copied. The source path is resolved before the
destination's current file is displaced. -/
def copyBytes (ref : ObjectRef) (bucket key : String) : M (BucketMeta × ObjectMeta × KeyMeta) := do
  let bm ← reading fun s => .ok (e.bucketMetaForWrite s bucket)
  let (src, _) ← reading fun s => e.resolveVersion s ref.bucket ref.key ref.versionID
  if src.deleteMarker then throw (.api errNoSuchKey)
  let srcPath ← reading fun _ => e.physPath ref.bucket src
  let km ← reading fun s => .ok (e.loadKeyMetaOrNew s bucket key)
  let km ← e.displaceCurrent km bm.versioningEnabled
  let dst ← reading fun _ => e.objectPath bucket key
  sys (mkdirAll dst.tail)
  sys (e.copyFile srcPath dst)
  pure (bm, src, km)

/-- `applyCopyObject`. -/
def applyCopyObject (c : Command) : M Unit := do
  match c.source with
  | none => throw (.api errInvalidKey)
  | some ref => do
    let (bm, src, km) ← e.copyBytes ref c.bucket c.key
    e.writeKeyMeta (km.prependLatest (e.copyMeta bm c src))

/-- A copy gets as far as the bytes. -/
def copyLands (s : Disk) (ref : ObjectRef) (bucket key : String) : Bool :=
  (outcome (e.copyBytes ref bucket key) s).isOk

/-- `applyCopyObject` step by step. -/
theorem applyCopyObject_steps (c : Command) : e.applyCopyObject c = (do
    match c.source with
    | none => throw (.api errInvalidKey)
    | some ref => do
      let bm ← reading fun s => .ok (e.bucketMetaForWrite s c.bucket)
      let (src, _) ← reading fun s => e.resolveVersion s ref.bucket ref.key ref.versionID
      if src.deleteMarker then throw (.api errNoSuchKey)
      let srcPath ← reading fun _ => e.physPath ref.bucket src
      let km ← reading fun s => .ok (e.loadKeyMetaOrNew s c.bucket c.key)
      let km ← e.displaceCurrent km bm.versioningEnabled
      let dst ← reading fun _ => e.objectPath c.bucket c.key
      sys (mkdirAll dst.tail)
      sys (e.copyFile srcPath dst)
      e.writeKeyMeta (km.prependLatest (e.copyMeta bm c src))) := by
  unfold applyCopyObject copyBytes
  cases c.source with
  | none => rfl
  | some ref =>
    simp only [bind_assoc]
    refine bind_congr fun bm => bind_congr fun found => ?_
    split
    · rfl
    · simp only [bind_assoc, pure_bind]

/-! ### Metadata -/

/-- The change a metadata command makes to its target (`mutObjectACL` and its siblings). -/
def mutate (c : Command) (v : ObjectMeta) : Except Err ObjectMeta :=
  match c.op with
  | .putObjectAcl =>
    match e.unmarshalACL c.config with
    | some acl => .ok { v with acl := some acl }
    | none => .error .json
  | .putObjectTagging =>
    match e.unmarshalTags c.config with
    | some tags => .ok { v with tags := tags }
    | none => .error .json
  | .deleteObjectTag => .ok { v with tags := [] }
  | .putObjectRetention =>
    match e.unmarshalRetention c.config with
    | some r => .ok { v with retention := some r }
    | none => .error .json
  | .putObjectLegalHold =>
    match e.unmarshalLegalHold c.config with
    | some hold => .ok { v with legalHold := some hold }
    | none => .error .json
  | _ => .ok v

/-- Apply `f` to the first version named `vid`. -/
def amendVersion (f : ObjectMeta → Except Err ObjectMeta) (vid : String) :
    List ObjectMeta → Except Err (List ObjectMeta)
  | [] => .error (.api errNoSuchVersion)
  | v :: rest =>
    if v.versionID = vid then do .ok ((← f v) :: rest)
    else do .ok (v :: (← amendVersion f vid rest))

/-- Apply `f` to the latest version, unless it is a delete marker. -/
def amendLatest (f : ObjectMeta → Except Err ObjectMeta) :
    List ObjectMeta → Except Err (List ObjectMeta)
  | [] => .error (.api errNoSuchKey)
  | v :: rest =>
    if v.deleteMarker then .error (.api errNoSuchKey)
    else do .ok ((← f v) :: rest)

/-- The history after `applyObjectMetaMutation`'s change. -/
def amendTarget (c : Command) (versions : List ObjectMeta) : Except Err (List ObjectMeta) :=
  if c.versionID ≠ "" then amendVersion (e.mutate c) c.versionID versions
  else amendLatest (e.mutate c) versions

/-- `applyObjectMetaMutation`. -/
def applyObjectMetaMutation (c : Command) : M Unit := do
  let km ← reading fun s => e.readKeyMeta s c.bucket c.key
  let versions ← reading fun _ => e.amendTarget c km.versions
  e.writeKeyMeta { km with versions, synthesized := false }

end Env

end D9Store
