import D9Store.Backend.KeyMeta

/-!
Buckets: creation, deletion, configuration and reads (`internal/storage/backend.go`),
and the walks over a bucket's trees that listings and deletion share.
-/

namespace D9Store

open Posix

/-- `mtime`: the time the gateway stamped on a command, the zero time without one. -/
def Env.mtime (e : Env) (c : Command) : Stamp :=
  match c.metaMap.find Command.metaMTime with
  | "" => .time 0
  | text => .time ((e.parseTime text).getD 0)

/-- The name check of `applyCreateBucket`. -/
def validBucketName (bucket : String) : Bool :=
  bucket != "" && !bucket.toList.contains '/' && !bucket.toList.contains '\\'

namespace Env

variable (e : Env)

/-! ### Walks -/

/-- `filepath.Rel` as a slash path. -/
def relKey (base p : FilePath) : String :=
  if p = base then "."
  else FilePath.unsegments (p.take (p.length - base.length)).reverse

/-- `walkObjectTree`: the keys with an object file, sorted. -/
def walkObjectTree (s : Disk) (bucket : String) : List String :=
  sorted ((s.filesBelow (e.bucketDir bucket)).image (relKey (e.bucketDir bucket)))

/-- `walkAllKeys`: the keys with a history file, sorted. -/
def walkAllKeys (s : Disk) (bucket : String) : List String :=
  sorted (((s.filesBelow (e.historyDir bucket)).filter fun p =>
      (p.headD "").endsWith ".json").image
    fun p => ((relKey (e.historyDir bucket) p).dropEnd 5).toString)

/-- `dirEmpty`: a missing directory counts as empty. -/
def dirEmpty (s : Disk) (p : FilePath) : Bool := !s.isDir p || s.childless p

/-! ### Reads -/

/-- `readBucketMeta`: the configuration, or the default one for a plain directory of the
data root. -/
def readBucketMeta (s : Disk) (bucket : String) : Except Err BucketMeta :=
  match e.readDoc s (e.bucketMetaPath bucket) with
  | .ok doc => .ok doc.asBucketMeta
  | .error _ =>
    if validBucketName bucket && s.isDir (e.bucketDir bucket) then
      .ok { name := bucket, createdAt := .wall, ownership := "BucketOwnerEnforced" }
    else .error (.api errNoSuchBucket)

/-- `bucketMetaForWrite`: object writes never reject on a missing bucket. -/
def bucketMetaForWrite (s : Disk) (bucket : String) : BucketMeta :=
  match e.readBucketMeta s bucket with
  | .ok bm => bm
  | .error _ => { name := bucket, ownership := "BucketOwnerEnforced" }

/-! ### Commands -/

/-- The configuration a new bucket starts with. -/
def newBucketMeta (c : Command) : BucketMeta :=
  let lock := c.metaMap.find "object-lock" == "true"
  { name := c.bucket
    owner := c.issuedBy
    createdAt := e.mtime c
    ownership :=
      if c.metaMap.find "ownership" = "" then "BucketOwnerEnforced" else c.metaMap.find "ownership"
    objectLock := if lock then some { enabled := true } else none
    versioning := if lock then "Enabled" else ""
    acl := if c.config = "" then none else e.unmarshalACL c.config }

/-- `applyCreateBucket`. -/
def applyCreateBucket (c : Command) : M Unit := do
  unless validBucketName c.bucket do throw (.api errInvalidBucketName)
  let taken ← reading fun s => .ok (s.get (e.bucketMetaPath c.bucket)).isSome
  if taken then throw (.api errBucketAlreadyOwn)
  sys (mkdirAll (e.bucketDir c.bucket))
  sys (mkdirAll (e.idir ["versions", c.bucket]))
  sys (mkdirAll (e.historyDir c.bucket))
  sys (mkdirAll (e.idir ["mpu", c.bucket]))
  e.writeJSON (e.bucketMetaPath c.bucket) (.bucketMeta (e.newBucketMeta c))

/-- `applyDeleteBucket`: refused while the bucket holds an object file or a history
record. -/
def applyDeleteBucket (c : Command) : M Unit := do
  let empty ← reading fun s =>
    .ok ((e.walkObjectTree s c.bucket).isEmpty && dirEmpty s (e.historyDir c.bucket))
  unless empty do throw (.api errBucketNotEmpty)
  sys (removeAll (e.bucketDir c.bucket))
  sys (removeAll (e.idir ["versions", c.bucket]))
  sys (removeAll (e.historyDir c.bucket))
  sys (removeAll (e.idir ["mpu", c.bucket]))
  removeIfPresent (e.bucketMetaPath c.bucket)

/-- The one field `applyBucketConfig` changes. -/
def configure (c : Command) (bm : BucketMeta) : Except Err BucketMeta :=
  match c.op with
  | .putBucketAcl =>
    match e.unmarshalACL c.config with
    | some acl => .ok { bm with acl := some acl }
    | none => .error .json
  | .putBucketPolicy => .ok { bm with policy := c.config }
  | .deleteBucketPolicy => .ok { bm with policy := "" }
  | .putBucketCors =>
    match e.unmarshalCORS c.config with
    | some rules => .ok { bm with cors := rules }
    | none => .error .json
  | .deleteBucketCors => .ok { bm with cors := [] }
  | .putBucketTagging =>
    match e.unmarshalTags c.config with
    | some tags => .ok { bm with tags := tags }
    | none => .error .json
  | .deleteBucketTag => .ok { bm with tags := [] }
  | .putBucketVersioning => .ok { bm with versioning := c.config }
  | .putBucketOwnership => .ok { bm with ownership := c.config }
  | .deleteBucketOwner => .ok { bm with ownership := "" }
  | .putObjectLockConfig =>
    match e.unmarshalLock c.config with
    | some lock => .ok { bm with objectLock := some lock }
    | none => .error .json
  | _ => .ok bm

/-- `applyBucketConfig`. -/
def applyBucketConfig (c : Command) : M Unit := do
  let bm ← reading fun s => e.readBucketMeta s c.bucket
  let bm ← reading fun _ => e.configure c bm
  e.writeJSON (e.bucketMetaPath c.bucket) (.bucketMeta bm)

end Env

end D9Store
