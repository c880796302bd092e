import D9Store.Posix.Calls

/-!
The data model shared by the storage node and the gateway (`internal/types`,
`internal/command`, `internal/s3err`).

A Go map is an association list in which the first entry of a key counts; the empty
list stands for both the nil and the empty map. Times are instants in nanoseconds
with 0 for Go's zero time. A file that nobody stamped carries the wall clock of its
last write, which the model does not track.
-/

namespace D9Store

open Posix

abbrev Bytes := List UInt8

abbrev StrMap := List (String × String)

/-- `m[k]` on a Go map of strings: absent keys read as the empty string. -/
def StrMap.find (m : StrMap) (k : String) : String := (m.lookup k).getD ""

/-- An instant, in nanoseconds; 0 is the zero `time.Time`. -/
abbrev Time := Int

inductive Stamp where
  | time (t : Time)
  | wall
  deriving DecidableEq, Repr

/-- `t.IsZero()`. -/
def Stamp.isZero (t : Stamp) : Bool := t == .time 0

/-- The start of Unix time. -/
def unixEpoch : Time := 62135596800 * 10 ^ 9

/-- The time `os.Chtimes` gives a file: `UnixNano` counts in 64 bits, and wraps around before
September 1677 and after April 2262. -/
def Stamp.fileTime : Stamp → Stamp
  | .time t => .time (unixEpoch + (t - unixEpoch).bmod (2 ^ 64))
  | .wall => .wall

/-! ### Access control, object lock -/

structure Owner where
  id : String := ""
  displayName : String := ""
  deriving DecidableEq, Repr

structure Grantee where
  type : String := ""
  id : String := ""
  displayName : String := ""
  uri : String := ""
  email : String := ""
  deriving DecidableEq, Repr

structure Grant where
  grantee : Grantee := {}
  permission : String := ""
  deriving DecidableEq, Repr

structure ACL where
  owner : Owner := {}
  grants : List Grant := []
  deriving DecidableEq, Repr

structure Retention where
  mode : String
  retainUntil : Stamp
  deriving DecidableEq, Repr

structure LegalHold where
  status : String
  deriving DecidableEq, Repr

structure ObjectLockConfig where
  enabled : Bool
  defaultMode : String := ""
  defaultDays : Int := 0
  defaultYrs : Int := 0
  deriving DecidableEq, Repr

/-! ### Objects and versions -/

/-- Metadata of one object version. -/
structure ObjectMeta where
  bucket : String
  key : String
  versionID : String
  blobID : String := ""
  etag : String := ""
  size : Int := 0
  contentType : String := ""
  contentEncoding : String := ""
  contentLanguage : String := ""
  contentDisposition : String := ""
  cacheControl : String := ""
  expires : String := ""
  userMeta : StrMap := []
  storageClass : String := ""
  lastModified : Stamp := .time 0
  isLatest : Bool := false
  deleteMarker : Bool := false
  acl : Option ACL := none
  tags : StrMap := []
  retention : Option Retention := none
  legalHold : Option LegalHold := none
  deriving DecidableEq, Repr

/-- The version history of one key, newest first. -/
structure KeyMeta where
  bucket : String
  key : String
  versions : List ObjectMeta := []
  synthesized : Bool := false
  deriving DecidableEq, Repr

/-- `KeyMeta.Latest`. -/
def KeyMeta.latest (km : KeyMeta) : Option ObjectMeta := km.versions.head?

/-! ### Buckets, uploads, accounts -/

structure CORSRule where
  id : String := ""
  allowedOrigins : List String := []
  allowedMethods : List String := []
  allowedHeaders : List String := []
  exposeHeaders : List String := []
  maxAgeSeconds : Int := 0
  deriving DecidableEq, Repr

structure BucketMeta where
  name : String
  owner : String := ""
  createdAt : Stamp := .time 0
  versioning : String := ""
  ownership : String := ""
  acl : Option ACL := none
  policy : String := ""
  cors : List CORSRule := []
  tags : StrMap := []
  objectLock : Option ObjectLockConfig := none
  deriving DecidableEq, Repr

/-- `BucketMeta.VersioningEnabled`. -/
def BucketMeta.versioningEnabled (bm : BucketMeta) : Bool := bm.versioning == "Enabled"

structure Part where
  partNumber : Int
  etag : String
  size : Int
  lastModified : Stamp
  deriving DecidableEq, Repr

structure MultipartUpload where
  bucket : String
  key : String
  uploadID : String := ""
  initiated : Stamp := .time 0
  owner : String := ""
  storageClass : String := ""
  contentType : String := ""
  userMeta : StrMap := []
  acl : Option ACL := none
  parts : List Part := []
  deriving DecidableEq, Repr

structure Account where
  accessKeyID : String
  secretKey : String
  role : String
  userID : String := ""
  deriving DecidableEq, Repr

/-! ### Commands -/

/-- The mutation a command stands for; `unknown` is any other tag in the log. -/
inductive Op where
  | createBucket | deleteBucket
  | putObject | deleteObject | copyObject
  | createMultipart | uploadPart | completeMultipart | abortMultipart
  | putObjectAcl | putObjectTagging | deleteObjectTag | putObjectRetention | putObjectLegalHold
  | putBucketAcl | putBucketPolicy | deleteBucketPolicy | putBucketCors | deleteBucketCors
  | putBucketTagging | deleteBucketTag | putBucketVersioning | putBucketOwnership
  | deleteBucketOwner | putObjectLockConfig
  | putAccount | deleteAccount
  | unknown (tag : String)
  deriving DecidableEq, Repr

structure ObjectRef where
  bucket : String
  key : String
  versionID : String := ""
  deriving DecidableEq, Repr

structure CompletedPart where
  partNumber : Int
  etag : String
  deriving DecidableEq, Repr

/-- One entry of the replicated log. Its configuration payload is text. -/
structure Command where
  op : Op
  bucket : String := ""
  key : String := ""
  versionID : String := ""
  blobToken : String := ""
  size : Int := 0
  etag : String := ""
  storageCls : String := ""
  uploadID : String := ""
  partNumber : Int := 0
  parts : List CompletedPart := []
  metaMap : StrMap := []
  source : Option ObjectRef := none
  config : String := ""
  issuedBy : String := ""
  deriving DecidableEq, Repr

namespace Command

def metaContentType := "content-type"
def metaContentEncoding := "content-encoding"
def metaContentLang := "content-language"
def metaContentDisp := "content-disposition"
def metaCacheControl := "cache-control"
def metaExpires := "expires"
def metaMTime := "d9:mtime"
def metaTags := "d9:tags"
def metaRetentionMode := "d9:ret-mode"
def metaRetainUntil := "d9:ret-until"
def metaLegalHold := "d9:legal-hold"

end Command

/-- The kind of character in a UUID: a dash, a lower-case hex digit or none of these. -/
def uuidMask (c : Char) : Char :=
  if c = '-' then '-'
  else if ('0' ≤ c ∧ c ≤ '9') ∨ ('a' ≤ c ∧ c ≤ 'f') then 'x'
  else '?'

/-- The shape of the gateway's `newID`, a `uuid.NewString()`. -/
def isUUID (id : String) : Bool :=
  id.toList.map uuidMask == "xxxxxxxx-xxxx-xxxx-xxxx-xxxxxxxxxxxx".toList

/-! ### Reads -/

/-- An inclusive byte range of `int64` bounds; a negative `stop` means "to the end". -/
structure ByteRange where
  start : Int
  stop : Int
  deriving DecidableEq, Repr

structure GetOptions where
  versionID : String := ""
  range : Option ByteRange := none
  deriving DecidableEq, Repr

structure ListInput where
  bucket : String
  pre : String := ""
  delimiter : String := ""
  maxKeys : Int := 0
  continuationToken : String := ""
  startAfter : String := ""
  marker : String := ""
  deriving DecidableEq, Repr

structure ListResult where
  objects : List ObjectMeta := []
  commonPrefixes : List String := []
  isTruncated : Bool := false
  nextToken : String := ""
  nextMarker : String := ""
  deriving DecidableEq, Repr

structure ListVersionsInput where
  bucket : String
  pre : String := ""
  delimiter : String := ""
  maxKeys : Int := 0
  keyMarker : String := ""
  versionIDMarker : String := ""
  deriving DecidableEq, Repr

structure ListVersionsResult where
  versions : List ObjectMeta := []
  deleteMarkers : List ObjectMeta := []
  commonPrefixes : List String := []
  isTruncated : Bool := false
  nextKeyMarker : String := ""
  nextVersionIDMarker : String := ""
  deriving DecidableEq, Repr

/-! ### Errors -/

/-- `s3err.APIError`. -/
structure APIError where
  code : String
  message : String
  httpStatus : Nat
  deriving DecidableEq, Repr

def errNoSuchBucket : APIError := ⟨"NoSuchBucket", "The specified bucket does not exist.", 404⟩
def errNoSuchKey : APIError := ⟨"NoSuchKey", "The specified key does not exist.", 404⟩
def errNoSuchVersion : APIError := ⟨"NoSuchVersion", "The specified version does not exist.", 404⟩
def errNoSuchUpload : APIError :=
  ⟨"NoSuchUpload", "The specified multipart upload does not exist.", 404⟩
def errBucketNotEmpty : APIError :=
  ⟨"BucketNotEmpty", "The bucket you tried to delete is not empty.", 409⟩
def errBucketAlreadyOwn : APIError := ⟨"BucketAlreadyOwnedByYou", "The bucket already exists.", 409⟩
def errInvalidBucketName : APIError := ⟨"InvalidBucketName", "The specified bucket is not valid.", 400⟩
def errInvalidKey : APIError := ⟨"InvalidArgument", "The specified key is not valid.", 400⟩
def errInvalidRange : APIError := ⟨"InvalidRange", "The requested range is not satisfiable.", 416⟩
def errInvalidPart : APIError :=
  ⟨"InvalidPart", "One or more of the specified parts could not be found.", 400⟩
def errInvalidPartOrder : APIError :=
  ⟨"InvalidPartOrder", "The list of parts was not in ascending order.", 400⟩
def errEntityTooSmall : APIError :=
  ⟨"EntityTooSmall", "Your proposed upload is smaller than the minimum allowed object size.", 400⟩
def errMethodNotAllowed : APIError :=
  ⟨"MethodNotAllowed", "The specified method is not allowed against this resource.", 405⟩

/-- A failure of the storage engine. -/
inductive Err where
  | api (e : APIError)
  | blobMissing
  | os (e : Errno)
  | json
  | unsupportedOp (op : Op)
  deriving DecidableEq, Repr

end D9Store
