import D9Store.Node.Fsm

/-!
Snapshots: the whole data set as one archive, and its restoration
(`internal/storage/backend_snapshot.go`, `Snapshot`, `Persist` and `Restore` in `fsm.go`).

The archive keeps the contents of files and the attributes of object files. It keeps no
directories, no modification times and nothing of the pre-commit staging areas.
-/

namespace D9Store

open Posix

/-- The part of the tree an archive entry belongs to. -/
inductive Section where
  | data
  | state
  deriving DecidableEq

/-- A tar entry; `rel` is its path below the root of its section. -/
structure ArchiveEntry where
  part : Section
  rel : FilePath
  content : Content
  xattrs : Xattrs := {}
  deriving DecidableEq

abbrev Archive := List ArchiveEntry

/-- Attributes set on top of those a file already has. -/
def Xattrs.overlay (new old : Xattrs) : Xattrs where
  managed := new.managed || old.managed
  versionID := new.versionID.or old.versionID
  etag := new.etag.or old.etag
  contentType := new.contentType.or old.contentType
  contentEncoding := new.contentEncoding.or old.contentEncoding
  contentLanguage := new.contentLanguage.or old.contentLanguage
  contentDisposition := new.contentDisposition.or old.contentDisposition
  cacheControl := new.cacheControl.or old.cacheControl
  expires := new.expires.or old.expires
  storageClass := new.storageClass.or old.storageClass
  userMeta := new.userMeta.or old.userMeta
  tags := new.tags.or old.tags
  acl := new.acl.or old.acl
  retention := new.retention.or old.retention
  legalHold := new.legalHold.or old.legalHold

namespace Env

variable (e : Env)

/-- The root of a section. -/
def sectionRoot : Section → FilePath
  | .data => e.root
  | .state => e.state

/-- The top-level directories of the state root that are not archived. -/
def snapSkip : List String := ["staging", "mpstaging", "raft"]

/-- `tarTree`: the files below a root, those in skipped top-level directories left out. -/
def tarTree (s : Disk) (part : Section) (skip : List String) : Archive :=
  let base := e.sectionRoot part
  (walkOrder (s.filesBelow base)).filterMap fun p =>
    let rel := p.take (p.length - base.length)
    match s.file p with
    | some f =>
      if rel = [] ∨ rel.getLastD "" ∈ skip then none
      else some ⟨part, rel, f.content, if part = .data then f.xattrs else {}⟩
    | none => none

/-- `snapshotTo`. -/
def snapshotTo (s : Disk) : Archive := e.tarTree s .data [] ++ e.tarTree s .state snapSkip

/-! ### Restoration -/

/-- The keys of one bucket whose file was written through the log go. -/
def removeManaged (bucket : String) : List String → M Unit
  | [] => pure ()
  | key :: rest => do
    match e.objectPath bucket key with
    | .error _ => pure ()
    | .ok op => do
      let managed ← reading fun s => .ok ((s.file op).any fun f => f.xattrs.managed)
      if managed then e.removeCurrent bucket key
    removeManaged bucket rest

def removeManagedIn : List String → M Unit
  | [] => pure ()
  | bucket :: rest => do
    let keys ← reading fun s => .ok (e.walkObjectTree s bucket)
    e.removeManaged bucket keys
    removeManagedIn rest

/-- `removeReplicatedObjectFiles`. -/
def removeReplicatedObjectFiles : M Unit := do
  let buckets ← reading fun s =>
    .ok ((sorted (s.children e.root)).filter fun name => s.isDir (name :: e.root))
  e.removeManagedIn buckets

/-- The directories of the state root that a restoration empties. -/
def resetDirs : List String := ["versions", "history", "buckets", "mpu", "iam"]

def removeAllEach : List FilePath → M Unit
  | [] => pure ()
  | p :: rest => do
    sys (removeAll p)
    removeAllEach rest

/-- One archive entry is written out. -/
def extract (entry : ArchiveEntry) : M Unit := do
  let dst := entry.rel ++ e.sectionRoot entry.part
  sys (mkdirAll dst.tail)
  sys (writeFile dst ⟨entry.content, {}, .wall⟩ (written entry.content))
  sys (amend dst fun f => { f with xattrs := entry.xattrs.overlay f.xattrs })

def extractAll : Archive → M Unit
  | [] => pure ()
  | entry :: rest => do
    e.extract entry
    extractAll rest

/-- `restoreFrom` on the disk. -/
def restoreDisk (archive : Archive) : M Unit := do
  e.removeReplicatedObjectFiles
  removeAllEach (resetDirs.map fun d => e.idir [d])
  mkdirEach (stateDirs.map fun d => e.idir [d])
  e.extractAll archive

end Env

/-- `restoreFrom`. -/
def Backend.restoreFrom (e : Env) (archive : Archive) : EStateM Err Backend Unit := do
  onDisk (e.restoreDisk archive)
  loadAccounts e

/-- `fsmSnapshot`: a reference to the backend, not its contents. -/
structure FsmSnapshot where
  deriving DecidableEq

/-- `fsm.Snapshot`. -/
def Fsm.snapshot (_ : Fsm) : FsmSnapshot := {}

/-- `fsmSnapshot.Persist`, on the backend as it is when the sink is written. -/
def FsmSnapshot.persist (_ : FsmSnapshot) (e : Env) (backend : Backend) : Archive :=
  e.snapshotTo backend.disk

end D9Store
