import D9Store.Backend.Reads

/-!
The dispatch of committed commands, the account store and the staging of payloads
(`posixBackend.Apply` in `internal/storage/backend.go`, `backend_iam.go`, `streamTo` in
`node_http.go`).
-/

namespace D9Store

open Posix

namespace Env

variable (e : Env)

/-- The directories of the state root that a backend starts with. -/
def stateDirs : List String :=
  ["staging", "mpstaging", "versions", "history", "buckets", "mpu", "iam"]

/-- Make directories one after the other. -/
def mkdirEach : List FilePath → M Unit
  | [] => pure ()
  | p :: rest => do
    sys (mkdirAll p)
    mkdirEach rest

/-- `posixBackend.Apply` on every command but the account ones. -/
def applyDisk (c : Command) : M Unit :=
  match c.op with
  | .createBucket => e.applyCreateBucket c
  | .deleteBucket => e.applyDeleteBucket c
  | .putObject => e.applyPutObject c
  | .deleteObject => e.applyDeleteObject c
  | .copyObject => e.applyCopyObject c
  | .createMultipart => e.applyCreateMultipart c
  | .uploadPart => e.applyUploadPart c
  | .completeMultipart => e.applyCompleteMultipart c
  | .abortMultipart => e.applyAbortMultipart c
  | .putObjectAcl | .putObjectTagging | .deleteObjectTag | .putObjectRetention
  | .putObjectLegalHold => e.applyObjectMetaMutation c
  | .putBucketAcl | .putBucketPolicy | .deleteBucketPolicy | .putBucketCors | .deleteBucketCors
  | .putBucketTagging | .deleteBucketTag | .putBucketVersioning | .putBucketOwnership
  | .deleteBucketOwner | .putObjectLockConfig => e.applyBucketConfig c
  | .putAccount | .deleteAccount | .unknown _ => throw (.unsupportedOp c.op)

/-- `streamTo`: a fanned-out payload arrives through a temporary file. -/
def streamTo (p : FilePath) (payload : Bytes) : M Unit := do
  sys (mkdirAll p.tail)
  sys (writeFile (jsonTmp p) ⟨.raw payload, {}, .wall⟩ (written (.raw payload)))
  sys (rename (jsonTmp p) p)

/-- `safeToken`: what a fan-out endpoint accepts as a name. -/
def safeToken (token : String) : Bool :=
  token != "" && token.toList.all fun c => c != '/' && c != '\\' && c != '.'

/-- `handleBlobPut`. -/
def handleBlobPut (token : String) (payload : Bytes) : M Unit :=
  if safeToken token then streamTo (e.stagingPath token) payload else pure ()

/-- `handlePartPut`. -/
def handlePartPut (uploadID : String) (part : Int) (payload : Bytes) : M Unit :=
  if safeToken uploadID then streamTo (e.mpPartPath uploadID part) payload else pure ()

/-- A part is staged. -/
def partLands (s : Disk) (uploadID : String) (part : Int) (payload : Bytes) : Bool :=
  safeToken uploadID && (outcome (e.handlePartPut uploadID part payload) s).isOk

end Env

/-! ### The backend with its accounts -/

/-- `posixBackend`: the disk and the account map held in memory. -/
structure Backend where
  disk : Disk
  accounts : List (String × Account) := []

namespace Backend

/-- `iamStore.lookup`. -/
def lookup (b : Backend) (accessKeyID : String) : Option Account :=
  (b.accounts.find? fun x => x.1 == accessKeyID).map Prod.snd

/-- `iamStore.list`. -/
def listAccounts (b : Backend) : List Account :=
  (b.accounts.map Prod.snd).insertionSort fun x y => x.accessKeyID ≤ y.accessKeyID

/-- A step on the disk alone. -/
def onDisk {α : Type} (x : M α) : EStateM Err Backend α := fun b =>
  match x b.disk with
  | .ok a s => .ok a { b with disk := s }
  | .error err s => .error err { b with disk := s }

variable (e : Env)

/-- `iamStore.persist`. -/
def persist : EStateM Err Backend Unit := fun b =>
  let doc := Content.json (.accounts b.accounts)
  onDisk (do
    sys (writeFile (Env.jsonTmp e.accountsPath) ⟨doc, {}, .wall⟩ (Env.written doc))
    sys (rename (Env.jsonTmp e.accountsPath) e.accountsPath)) b

/-- `iamStore.put`. -/
def putAccount (config : String) : EStateM Err Backend Unit := do
  match e.unmarshalAccount config with
  | none => throw .json
  | some a => do
    modify fun b =>
      { b with accounts := (a.accessKeyID, a) :: b.accounts.filter (·.1 != a.accessKeyID) }
    persist e

/-- `iamStore.delete`. -/
def deleteAccount (accessKeyID : String) : EStateM Err Backend Unit := do
  modify fun b => { b with accounts := b.accounts.filter (·.1 != accessKeyID) }
  persist e

/-- `iamStore.load`: the file's entries are merged into the map in memory. -/
def loadAccounts : EStateM Err Backend Unit := fun b =>
  match e.readDoc b.disk e.accountsPath with
  | .error (.os .noent) => .ok () b
  | .error err => .error err b
  | .ok (.accounts as) =>
    .ok () { b with
      accounts := as ++ b.accounts.filter fun x => !(as.map Prod.fst).contains x.1 }
  | .ok _ => .error .json b

/-- `posixBackend.Apply`. -/
def apply (c : Command) : EStateM Err Backend Unit :=
  match c.op with
  | .putAccount => putAccount e c.config
  | .deleteAccount => deleteAccount e c.key
  | _ => onDisk (e.applyDisk c)

end Backend

/-- `newPosixBackend` on an existing tree. -/
def Env.newPosixBackend (e : Env) : EStateM Err Backend Unit := do
  Backend.onDisk (sys (mkdirAll e.root))
  Backend.onDisk (Env.mkdirEach (Env.stateDirs.map fun d => e.state.join d))
  Backend.loadAccounts e

end D9Store
