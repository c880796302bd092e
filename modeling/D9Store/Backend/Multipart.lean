import D9Store.Backend.Object
import D9Store.Text

/-!
Multipart uploads (`internal/storage/backend_multipart.go`).

An upload is a record below the state root; its parts wait in `mpstaging` until they
are assembled into one staged payload, which is installed like that of a plain put.
-/

namespace D9Store

open Posix

/-- `MinPartSize`: the least size of every part but the last. -/
def minPartSize : Int := 5 * 1024 * 1024

/-- `strings.Trim(s, "\"")`. -/
def trimQuotes (s : String) : String := Text.trimBoth (· == '"') s

/-- `etagEqual`. -/
def etagEqual (a b : String) : Bool := trimQuotes a == trimQuotes b

def hexDigit (c : Char) : Option UInt8 :=
  if '0' ≤ c ∧ c ≤ '9' then some (UInt8.ofNat (c.toNat - '0'.toNat))
  else if 'a' ≤ c ∧ c ≤ 'f' then some (UInt8.ofNat (c.toNat - 'a'.toNat + 10))
  else if 'A' ≤ c ∧ c ≤ 'F' then some (UInt8.ofNat (c.toNat - 'A'.toNat + 10))
  else none

/-- `hex.DecodeString`, `none` on malformed text. -/
def decodeHex : List Char → Option Bytes
  | [] => some []
  | hi :: lo :: rest => do
    let byte := (← hexDigit hi) * 16 + (← hexDigit lo)
    some (byte :: (← decodeHex rest))
  | [_] => none

/-- Replace the part of the same number, or append; the list stays sorted by number. -/
def recordPart (part : Part) (parts : List Part) : List Part :=
  let replaced :=
    if parts.any fun p => p.partNumber == part.partNumber then
      let (before, after) := parts.span fun p => p.partNumber != part.partNumber
      before ++ part :: after.tail
    else parts ++ [part]
  replaced.insertionSort fun p q => p.partNumber ≤ q.partNumber

/-- The requested parts among the uploaded ones; numbers must increase. -/
def resolveParts (uploaded : List Part) : Int → List CompletedPart → Except Err (List Part)
  | _, [] => .ok []
  | prev, want :: rest =>
    if want.partNumber ≤ prev then .error (.api errInvalidPartOrder)
    else
      match uploaded.reverse.find? fun p => p.partNumber == want.partNumber with
      | none => .error (.api errInvalidPart)
      | some got =>
        if etagEqual got.etag want.etag then do
          .ok (got :: (← resolveParts uploaded want.partNumber rest))
        else .error (.api errInvalidPart)

/-- The checks of a completion request before any payload is looked at. -/
def orderedParts (mp : MultipartUpload) (c : Command) : Except Err (List Part) := do
  let ordered ← resolveParts mp.parts 0 c.parts
  if ordered = [] then .error (.api errInvalidPart)
  else if ordered.dropLast.any fun p => p.size < minPartSize then .error (.api errEntityTooSmall)
  else .ok ordered

namespace Env

variable (e : Env)

/-- An upload record read from any file. -/
def readUpload (s : Disk) (p : FilePath) : Option MultipartUpload :=
  match s.file p with
  | none => none
  | some f =>
    match f.content with
    | .json doc => some doc.asUpload
    | .raw bytes => e.unmarshalUpload bytes

/-- `readMPU`. -/
def readMPU (s : Disk) (bucket uploadID : String) : Except Err MultipartUpload :=
  match e.readUpload s (e.mpuMetaPath bucket uploadID) with
  | some mp => .ok mp
  | none => .error (.api errNoSuchUpload)

/-- `applyCreateMultipart`. -/
def applyCreateMultipart (c : Command) : M Unit :=
  e.writeJSON (e.mpuMetaPath c.bucket c.uploadID) (.upload
    { bucket := c.bucket
      key := c.key
      uploadID := c.uploadID
      initiated := e.mtime c
      owner := c.issuedBy
      storageClass := c.storageCls
      contentType := c.metaMap.find Command.metaContentType
      userMeta := userMetaFrom c.metaMap
      acl := if c.config = "" then none else e.unmarshalACL c.config })

/-- `applyUploadPart`. -/
def applyUploadPart (c : Command) : M Unit := do
  let arrived ← reading fun s => .ok (s.get (e.mpPartPath c.uploadID c.partNumber)).isSome
  unless arrived do throw .blobMissing
  let mp ← reading fun s => e.readMPU s c.bucket c.uploadID
  let part : Part := ⟨c.partNumber, c.etag, c.size, e.mtime c⟩
  e.writeJSON (e.mpuMetaPath c.bucket c.uploadID)
    (.upload { mp with parts := recordPart part mp.parts })

/-! ### Completion -/

/-- Append the parts to the staged payload one after the other; the result is their
total length. A part that cannot be read drops the payload. -/
def appendParts (uploadID : String) (tmp : FilePath) : List Part → M Int
  | [] => pure 0
  | p :: rest => do
    match ← attempt (reading fun s => s.readFile (e.mpPartPath uploadID p.partNumber)) with
    | .error (err : Errno) => do
      ignore (remove tmp : Call File Unit)
      throw (.os err)
    | .ok (part : File) => do
      sys (amend tmp fun f => written (.raw (e.bytes f.content ++ e.bytes part.content)) f)
      return e.size part.content + (← appendParts uploadID tmp rest)

/-- The digest of the parts' digests, with their number. -/
def multipartETag (parts : List Part) : String :=
  let raw := parts.flatMap fun p => (decodeHex (trimQuotes p.etag).toList).getD []
  "\"" ++ e.md5Hex raw ++ "-" ++ toString parts.length ++ "\""

/-- The metadata `applyCompleteMultipart` stores. -/
def completeMeta (bm : BucketMeta) (mp : MultipartUpload) (c : Command) (parts : List Part)
    (total : Int) : ObjectMeta :=
  e.applyLockDefaults bm
    { bucket := c.bucket
      key := c.key
      versionID := writeVersionID bm c
      etag := e.multipartETag parts
      size := total
      contentType := mp.contentType
      userMeta := mp.userMeta
      storageClass := mp.storageClass
      lastModified := e.mtime c
      acl := mp.acl } c

/-- Remove files one by one, ignoring failures. -/
def removeEach : List FilePath → M Unit
  | [] => pure ()
  | p :: rest => do
    ignore (remove p : Call File Unit)
    removeEach rest

/-- `filepath.Glob`, one path element after the other. The front of the pattern that holds no
pattern character is taken as it is. -/
def glob (s : Disk) : FilePath → List FilePath
  | [] => [[]]
  | pattern :: dir =>
    if (pattern :: dir).any hasMeta then
      (glob s dir).flatMap fun found =>
        ((sorted (s.children found)).filter (e.matchName pattern)).map (· :: found)
    else [pattern :: dir]

/-- The staged parts of an upload as they are looked for: below the data root, not below the
state root where `mpPartPath` puts them. -/
def globParts (s : Disk) (uploadID : String) : List FilePath :=
  e.glob s ((e.root.join "mpstaging").join (uploadID ++ "__*"))

/-- `cleanupUpload`. -/
def cleanupUpload (bucket uploadID : String) : M Unit := do
  let matched ← reading fun s => .ok (e.globParts s uploadID)
  removeEach matched
  ignore (remove (e.mpuMetaPath bucket uploadID) : Call File Unit)

/-- `applyCompleteMultipart`. -/
def applyCompleteMultipart (c : Command) : M Unit := do
  let bm ← reading fun s => .ok (e.bucketMetaForWrite s c.bucket)
  let mp ← reading fun s => e.readMPU s c.bucket c.uploadID
  let ordered ← reading fun _ => orderedParts mp c
  let arrived ← reading fun s =>
    .ok (ordered.all fun p => (s.get (e.mpPartPath c.uploadID p.partNumber)).isSome)
  unless arrived do throw .blobMissing
  let tmp := e.stagingPath c.blobToken
  sys (writeFile tmp ⟨.raw [], {}, .wall⟩ (written (.raw [])))
  let total ← e.appendParts c.uploadID tmp ordered
  let km ← reading fun s => .ok (e.loadKeyMetaOrNew s c.bucket c.key)
  match ← attempt (e.displaceCurrent km bm.versioningEnabled) with
  | .error (err : Err) => do
    ignore (remove tmp : Call File Unit)
    throw err
  | .ok km => do
    e.putCurrentBytes c.bucket c.key tmp
    e.writeKeyMeta (km.prependLatest (e.completeMeta bm mp c ordered total))
    e.cleanupUpload c.bucket c.uploadID

/-- `applyAbortMultipart`: an upload that is already gone is no error. -/
def applyAbortMultipart (c : Command) : M Unit := do
  match ← reading fun s => .ok (e.readMPU s c.bucket c.uploadID) with
  | .error (_ : Err) => pure ()
  | .ok _ => e.cleanupUpload c.bucket c.uploadID

end Env

end D9Store
