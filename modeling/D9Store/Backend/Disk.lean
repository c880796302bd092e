import D9Store.Types

/-!
The storage engine's disk: what its files hold, where they lie, and the file
helpers built on the system calls (`internal/storage/backend.go`, `util.go`,
`xattr.go`).

Files below the state root hold JSON documents, kept here as the values they encode.
`Env` fixes the deployment (the two roots and whether they are separate volumes) and
the parsers and digests the engine takes from the Go library.
-/

namespace D9Store

open Posix

/-- The JSON documents of the state root. -/
inductive Doc where
  | keyMeta (km : KeyMeta)
  | bucketMeta (bm : BucketMeta)
  | upload (mp : MultipartUpload)
  | accounts (as : List (String × Account))
  deriving DecidableEq

inductive Content where
  | raw (bytes : Bytes)
  | json (doc : Doc)
  deriving DecidableEq

/-- Extended attributes below `user.d9ds3.`; `managed` marks a file written through S3. -/
structure Xattrs where
  managed : Bool := false
  versionID : Option String := none
  etag : Option String := none
  contentType : Option String := none
  contentEncoding : Option String := none
  contentLanguage : Option String := none
  contentDisposition : Option String := none
  cacheControl : Option String := none
  expires : Option String := none
  storageClass : Option String := none
  userMeta : Option StrMap := none
  tags : Option StrMap := none
  acl : Option ACL := none
  retention : Option Retention := none
  legalHold : Option String := none
  deriving DecidableEq

structure File where
  content : Content
  xattrs : Xattrs := {}
  mtime : Stamp := .wall
  deriving DecidableEq

abbrev Disk := DirTree File

/-- The name holds a pattern character. -/
def hasMeta (name : String) : Bool := name.toList.any ['*', '?', '[', '\\'].contains

/-- The deployment of a node and the library functions the engine is built on. -/
structure Env where
  root : FilePath
  state : FilePath
  separateVolumes : Bool
  state_outside : ¬ root <:+ state
  root_outside : ¬ state <:+ root
  /-- The path of the data root holds no pattern characters. -/
  root_literal : ∀ name ∈ root, hasMeta name = false
  /-- `filepath.Match` on one path element, false for a malformed pattern. -/
  matchName : String → String → Bool
  unmarshalACL : String → Option ACL
  unmarshalTags : String → Option StrMap
  unmarshalRetention : String → Option Retention
  unmarshalLegalHold : String → Option LegalHold
  unmarshalCORS : String → Option (List CORSRule)
  unmarshalLock : String → Option ObjectLockConfig
  unmarshalAccount : String → Option Account
  /-- A document read from the bytes of an object file. -/
  unmarshalDoc : Bytes → Option Doc
  /-- An upload record read from the bytes of an object file. -/
  unmarshalUpload : Bytes → Option MultipartUpload
  /-- The compact form of a JSON text, `none` for text that is not JSON. -/
  compactJSON : String → Option String
  /-- `time.Parse(time.RFC3339Nano, ·)`. -/
  parseTime : String → Option Time
  /-- `Time.AddDate` by years and days. -/
  addDate : Time → Int → Int → Time
  md5Hex : Bytes → String
  /-- The content type a host's tables give to a key's extension. -/
  guessContentType : String → String
  /-- A JSON document as it lies on disk. -/
  jsonText : Doc → Bytes

/-- A step of the engine on its disk. -/
abbrev M (α : Type) := EStateM Err Disk α

/-- A system call, its failure reported as it is. -/
def sys {α : Type} (x : Call File α) : M α := failing .os x

namespace Env

variable (e : Env)

/-! ### FilePath helpers -/

def idir (parts : List String) : FilePath := parts.foldl FilePath.join e.state

def stagingPath (token : String) : FilePath := e.idir ["staging", token]

/-- `%05d`. -/
def pad5 (n : Int) : String :=
  match n with
  | .ofNat m => String.ofList (List.leftpad 5 '0' (Nat.repr m).toList)
  | .negSucc m => "-" ++ String.ofList (List.leftpad 4 '0' (Nat.repr (m + 1)).toList)

def mpPartPath (uploadID : String) (part : Int) : FilePath :=
  e.idir ["mpstaging", uploadID ++ "__" ++ pad5 part]

def vblobPath (bucket blobID : String) : FilePath := e.idir ["versions", bucket, blobID ++ ".blob"]

def bucketMetaPath (bucket : String) : FilePath := e.idir ["buckets", bucket ++ ".json"]

def mpuMetaPath (bucket uploadID : String) : FilePath := e.idir ["mpu", bucket, uploadID ++ ".json"]

def accountsPath : FilePath := e.idir ["iam", "accounts.json"]

/-- The traversal check: `full` starts with the text of `base` and a slash. -/
def confine (base full : FilePath) : Except Err FilePath :=
  if base ≠ [] ∧ FilePath.Below base full then .ok full else .error (.api errInvalidKey)

def historyDir (bucket : String) : FilePath := e.idir ["history", bucket]

def historyPath (bucket key : String) : Except Err FilePath :=
  confine (e.historyDir bucket) ((e.historyDir bucket).join (key ++ ".json"))

def bucketDir (bucket : String) : FilePath := e.root.join bucket

def objectPath (bucket key : String) : Except Err FilePath :=
  confine (e.bucketDir bucket) ((e.bucketDir bucket).join key)

/-! ### File helpers -/

/-- The data root and the state root may be separate volumes. -/
def crosses (src dst : FilePath) : Bool :=
  e.separateVolumes && (decide (e.root <:+ src) != decide (e.root <:+ dst))

/-- `os.Rename`. -/
def osRename (src dst : FilePath) : Call File Unit :=
  if e.crosses src dst then throw .exdev else rename src dst

/-- A file whose bytes were just written. -/
def written (c : Content) (f : File) : File := { f with content := c, mtime := .wall }

/-- The temporary file `copyFile` goes through. -/
def tmpOf (p : FilePath) : FilePath := p.suffixed ".d9tmp"

/-- The temporary file a document or a payload is written to first. -/
def jsonTmp (p : FilePath) : FilePath := p.suffixed ".tmp"

/-- `copyFile`: through a temporary file beside `dst`. The source is opened before
that file is created but read after, so copying from the temporary file's own path
reads the truncated file. -/
def copyFile (src dst : FilePath) : Call File Unit := do
  let _ ← reading fun s => if (s.get src).isSome then .ok () else .error (s.missing src)
  writeFile (tmpOf dst) ⟨.raw [], {}, .wall⟩ (written (.raw []))
  match ← attempt (reading (DirTree.readFile · src)) with
  | .error err => do
    ignore (remove (tmpOf dst))
    throw (err : Errno)
  | .ok (f : File) => do
    amend (tmpOf dst) (written f.content)
    e.osRename (tmpOf dst) dst

/-- `moveFile`: a rename, or a copy and a removal when the rename fails. -/
def moveFile (src dst : FilePath) : Call File Unit := do
  match ← attempt (e.osRename src dst) with
  | .ok _ => pure ()
  | .error (_ : Errno) => do
    e.copyFile src dst
    remove src

/-- `json.Marshal`. A bucket policy is embedded as it is, compacted, and fails where it is no JSON.
Times are taken to lie in the years that marshal. -/
def marshal : Doc → Except Err Doc
  | .bucketMeta bm =>
    if bm.policy = "" then .ok (.bucketMeta bm)
    else match e.compactJSON bm.policy with
      | some text => .ok (.bucketMeta { bm with policy := text })
      | none => .error .json
  | doc => .ok doc

def writeJSON (p : FilePath) (doc : Doc) : M Unit := do
  let doc ← reading fun _ => e.marshal doc
  sys (mkdirAll p.tail)
  sys (writeFile (jsonTmp p) ⟨.json doc, {}, .wall⟩ (written (.json doc)))
  sys (rename (jsonTmp p) p)

/-- What reading a file yields. -/
def bytes (c : Content) : Bytes :=
  match c with
  | .raw bytes => bytes
  | .json doc => e.jsonText doc

/-- The length `stat` reports. -/
def size (c : Content) : Int := (e.bytes c).length

end Env

/-! ### Reading documents back

`json.Unmarshal` ignores unknown fields and leaves absent ones zero, so a document of
one kind also reads as another. -/

def Doc.asKeyMeta : Doc → KeyMeta
  | .keyMeta km => km
  | .upload mp => { bucket := mp.bucket, key := mp.key }
  | _ => { bucket := "", key := "" }

def Doc.asBucketMeta : Doc → BucketMeta
  | .bucketMeta bm => bm
  | .upload mp => { name := "", owner := mp.owner, acl := mp.acl }
  | _ => { name := "" }

def Doc.asUpload : Doc → MultipartUpload
  | .upload mp => mp
  | .keyMeta km => { bucket := km.bucket, key := km.key }
  | .bucketMeta bm => { bucket := "", key := "", owner := bm.owner, acl := bm.acl }
  | .accounts _ => { bucket := "", key := "" }

/-- The document that a file's content is read as. -/
def Env.document (e : Env) : Content → Option Doc
  | .json doc => some doc
  | .raw bytes => e.unmarshalDoc bytes

/-- `readJSON`, up to the target type. -/
def Env.readDoc (e : Env) (s : Disk) (p : FilePath) : Except Err Doc :=
  match s.readFile p with
  | .error err => .error (.os err)
  | .ok f =>
    match e.document f.content with
    | some doc => .ok doc
    | none => .error .json

end D9Store
