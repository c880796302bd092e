import D9Store.Backend.Disk

/-!
Persistence of one key: the object file with its extended attributes, the version
blobs and the optional history file (`backend.go`, `backend_xmeta.go` and the first
half of `backend_object.go` in `internal/storage`).

The current version of a key is a plain file at `<data>/<bucket>/<key>` (empty blob
id); non-current versions are blobs of the state root. A history file exists only for
keys with more than a single live version.
-/

namespace D9Store

open Posix

/-! ### Attributes of the object file -/

namespace Xattrs

/-- `setOrRemove` on a text attribute. -/
def setStr (val : String) : Option String := if val ≠ "" then some val else none

/-- `setJSON` on a map attribute. -/
def setMap (m : StrMap) : Option StrMap := if m ≠ [] then some m else none

/-- The attributes after `writeCurrentXattrs`: each one is set or removed. -/
def store (x : Xattrs) (v : ObjectMeta) : Xattrs :=
  { x with
    managed := true
    versionID := setStr v.versionID
    etag := setStr v.etag
    contentType := setStr v.contentType
    contentEncoding := setStr v.contentEncoding
    contentLanguage := setStr v.contentLanguage
    contentDisposition := setStr v.contentDisposition
    cacheControl := setStr v.cacheControl
    expires := setStr v.expires
    storageClass := setStr v.storageClass
    userMeta := setMap v.userMeta
    tags := setMap v.tags
    acl := v.acl
    retention := v.retention
    legalHold := v.legalHold.bind fun hold => setStr hold.status }

end Xattrs

/-- `writeCurrentXattrs`: the metadata go on the file, and a non-zero modification time
becomes the file's. -/
def writeCurrentXattrs (p : FilePath) (v : ObjectMeta) : M Unit := do
  sys (amend p fun f => { f with xattrs := f.xattrs.store v })
  unless v.lastModified.isZero do
    ignore (amend p fun f => { f with mtime := v.lastModified.fileTime } : Call File Unit)

namespace Env

variable (e : Env)

/-- `md5File`, in quotes. -/
def md5File (c : Content) : String := "\"" ++ e.md5Hex (e.bytes c) ++ "\""

/-- The metadata an object file stands for: a managed file carries them, a prefilled one
has them synthesized. The flag tells the latter. -/
def fileMeta (bucket key : String) (f : File) : ObjectMeta × Bool :=
  if f.xattrs.managed then
    ({ bucket := bucket
       key := key
       size := e.size f.content
       lastModified := f.mtime
       isLatest := true
       versionID := f.xattrs.versionID.getD "null"
       etag := f.xattrs.etag.getD ""
       contentType := f.xattrs.contentType.getD ""
       contentEncoding := f.xattrs.contentEncoding.getD ""
       contentLanguage := f.xattrs.contentLanguage.getD ""
       contentDisposition := f.xattrs.contentDisposition.getD ""
       cacheControl := f.xattrs.cacheControl.getD ""
       expires := f.xattrs.expires.getD ""
       storageClass := f.xattrs.storageClass.getD ""
       userMeta := f.xattrs.userMeta.getD []
       tags := f.xattrs.tags.getD []
       acl := f.xattrs.acl
       retention := f.xattrs.retention
       legalHold := (f.xattrs.legalHold.bind Xattrs.setStr).map LegalHold.mk }, false)
  else
    ({ bucket := bucket
       key := key
       versionID := "null"
       size := e.size f.content
       etag := e.md5File f.content
       contentType := e.guessContentType key
       lastModified := f.mtime
       isLatest := true }, true)

/-- `readCurrentMeta`. -/
def readCurrentMeta (s : Disk) (p : FilePath) (bucket key : String) :
    Except Err (ObjectMeta × Bool) :=
  match s.file p with
  | none => .error (.os .noent)
  | some f => .ok (e.fileMeta bucket key f)

/-! ### The object file and the version blobs -/

/-- `putCurrentBytes`: install a staged file as the object file. -/
def putCurrentBytes (bucket key : String) (src : FilePath) : M Unit := do
  let op ← reading fun _ => e.objectPath bucket key
  sys (mkdirAll op.tail)
  sys (e.moveFile src op)

/-- `archiveCurrent`: move the object file into the version store. -/
def archiveCurrent (bucket key vid : String) : M Unit := do
  let op ← reading fun _ => e.objectPath bucket key
  sys (mkdirAll (e.idir ["versions", bucket]))
  sys (e.moveFile op (e.vblobPath bucket vid))

/-- `promoteArchived`: move a version blob back to the object file. -/
def promoteArchived (bucket key vid : String) : M Unit := do
  let op ← reading fun _ => e.objectPath bucket key
  sys (mkdirAll op.tail)
  sys (e.moveFile (e.vblobPath bucket vid) op)

/-- `pruneEmptyDirs`: `os.Remove` upwards from `dir`, up to `stop` exclusive, until one
fails. -/
def pruneEmptyDirs (stop : FilePath) : FilePath → M Unit
  | [] => pure ()
  | seg :: dir =>
    if FilePath.Below stop (seg :: dir) then do
      match ← attempt (remove (seg :: dir)) with
      | .ok _ => pruneEmptyDirs stop dir
      | .error (_ : Errno) => pure ()
    else pure ()

/-- `removeCurrent`: delete the object file and prune its emptied parents. -/
def removeCurrent (bucket key : String) : M Unit :=
  match e.objectPath bucket key with
  | .error _ => pure ()
  | .ok op => do
    ignore (remove op : Call File Unit)
    pruneEmptyDirs (e.bucketDir bucket) op.tail

/-- `removeArchivedBlob`; an empty blob id is the object file and not touched. -/
def removeArchivedBlob (bucket blobID : String) : M Unit := do
  unless blobID = "" do
    ignore (remove (e.vblobPath bucket blobID) : Call File Unit)

/-! ### The history of a key -/

/-- `readKeyMeta`: the history file, else a single version read from the object file. -/
def readKeyMeta (s : Disk) (bucket key : String) : Except Err KeyMeta := do
  let hp ← e.historyPath bucket key
  match e.readDoc s hp with
  | .ok doc => .ok doc.asKeyMeta
  | .error (.os .noent) => do
    let op ← e.objectPath bucket key
    match e.readCurrentMeta s op bucket key with
    | .error _ => .error (.api errNoSuchKey)
    | .ok (cur, synthesized) => .ok { bucket, key, synthesized, versions := [cur] }
  | .error err => .error err

/-- `loadKeyMetaOrNew`. -/
def loadKeyMetaOrNew (s : Disk) (bucket key : String) : KeyMeta :=
  match e.readKeyMeta s bucket key with
  | .ok km => { km with synthesized := false }
  | .error _ => { bucket, key }

/-- `os.Remove` of a file that may be absent. -/
def removeIfPresent (p : FilePath) : M Unit := do
  match ← attempt (remove p) with
  | .ok _ => pure ()
  | .error .noent => pure ()
  | .error (err : Errno) => throw (.os err)

/-- The attributes of a current version at the key path go on the object file. -/
def writeHead (km : KeyMeta) : M Unit :=
  match km.latest with
  | some cur =>
    if !cur.deleteMarker && cur.blobID == "" then do
      let op ← reading fun _ => e.objectPath km.bucket km.key
      writeCurrentXattrs op cur
    else pure ()
  | none => pure ()

/-- A history file, unless the key is a single live version. -/
def writeHistory (km : KeyMeta) : M Unit := do
  let hp ← reading fun _ => e.historyPath km.bucket km.key
  match km.versions with
  | [v] => if v.deleteMarker then e.writeJSON hp (.keyMeta km) else removeIfPresent hp
  | _ => e.writeJSON hp (.keyMeta km)

/-- `writeKeyMeta`. -/
def writeKeyMeta (km : KeyMeta) : M Unit := do
  e.writeHead km
  e.writeHistory km

/-- `deleteKeyMeta`. -/
def deleteKeyMeta (bucket key : String) : M Unit := do
  let hp ← reading fun _ => e.historyPath bucket key
  removeIfPresent hp

/-- `physPath`: where a version's bytes lie. -/
def physPath (bucket : String) (v : ObjectMeta) : Except Err FilePath :=
  if v.blobID = "" then e.objectPath bucket v.key else .ok (e.vblobPath bucket v.blobID)

/-- `displaceCurrent`: archive the object file, or drop an unversioned current version
that is about to be overwritten. -/
def displaceCurrent (km : KeyMeta) (versioningEnabled : Bool) : M KeyMeta :=
  match km.versions with
  | [] => pure km
  | cur :: rest =>
    if cur.deleteMarker || cur.blobID != "" then pure km
    else if versioningEnabled || cur.versionID != "null" then do
      e.archiveCurrent km.bucket km.key cur.versionID
      pure { km with versions := { cur with blobID := cur.versionID } :: rest }
    else pure { km with versions := rest }

/-- `finalizeKey`. -/
def finalizeKey (km : KeyMeta) : M Unit := do
  if km.versions = [] then do
    e.removeCurrent km.bucket km.key
    e.deleteKeyMeta km.bucket km.key
  else e.writeKeyMeta km

end Env

/-- `prependLatest`. -/
def KeyMeta.prependLatest (km : KeyMeta) (nv : ObjectMeta) : KeyMeta :=
  { km with versions := { nv with isLatest := true } ::
      km.versions.map fun v => { v with isLatest := false } }

/-- `km.Versions[0].IsLatest = true`, when there is one. -/
def KeyMeta.markLatest (km : KeyMeta) : KeyMeta :=
  match km.versions with
  | [] => km
  | v :: rest => { km with versions := { v with isLatest := true } :: rest }

end D9Store
