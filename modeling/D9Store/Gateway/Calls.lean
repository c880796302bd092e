import D9Store.Backend.Reads

/-!
The write surface of the gateway (`internal/gateway`).

Each call builds one command and, where it has one, the answer for the client. What a call reads
before comes from the disk of the node that answers it; the identifiers it mints are arguments.
-/

namespace D9Store

/-- What a gateway process adds to its commands: the clock, the JSON encoder and the check of a
client's digest. -/
structure Gateway where
  nowStamp : String
  marshalACL : ACL → String
  marshalTags : StrMap → String
  marshalCORS : List CORSRule → String
  marshalLock : ObjectLockConfig → String
  marshalRetention : Retention → String
  marshalLegalHold : LegalHold → String
  marshalAccount : Account → String
  /-- `RetainUntil.UTC().Format(time.RFC3339Nano)`. -/
  formatTime : Time → String
  checkContentMD5 : String → Bytes → Except Err Unit

/-- `gateway.Ctx`. -/
structure Ctx where
  account : String
  sourceIP : String := ""
  deriving DecidableEq

/-- `CreateBucketInput`. -/
structure CreateBucketInput where
  bucket : String
  ownership : String := ""
  objectLock : Bool := false
  acl : Option ACL := none

/-- `PutObjectInput`. -/
structure PutObjectInput where
  bucket : String
  key : String
  contentType : String := ""
  contentEncoding : String := ""
  contentLanguage : String := ""
  contentDisposition : String := ""
  cacheControl : String := ""
  expires : String := ""
  storageClass : String := ""
  userMeta : StrMap := []
  tags : StrMap := []
  acl : Option ACL := none
  retentionMode : String := ""
  retainUntil : Time := 0
  legalHold : String := ""
  contentMD5 : String := ""

/-- `CopyObjectInput`. -/
structure CopyObjectInput where
  srcBucket : String
  srcKey : String
  srcVersionID : String := ""
  dstBucket : String := ""
  dstKey : String := ""
  metadataDirective : String := ""
  taggingDirective : String := ""
  contentType : String := ""
  userMeta : StrMap := []
  acl : Option ACL := none

/-- The answer to a write: `PutResult`, `CopyResult`, `CompleteResult` and `DeleteResult`. -/
structure CallResult where
  etag : String := ""
  versionID : String := ""
  deleteMarker : Bool := false
  deriving DecidableEq

/-- `visibleVersion`. -/
def visibleVersion (versioningEnabled : Bool) (candidate : String) : String :=
  if versioningEnabled then candidate else "null"

namespace Gateway

variable (g : Gateway) (e : Env) (ctx : Ctx)

/-- `submit`: a command without a time gets one. -/
def stamped (c : Command) : Command :=
  if (c.metaMap.lookup Command.metaMTime).isSome then c
  else { c with metaMap := (Command.metaMTime, g.nowStamp) :: c.metaMap }

/-- `bucketVersioning`. -/
def bucketVersioning (s : Disk) (bucket : String) : Except Err Bool := do
  let bm ← e.readBucketMeta s bucket
  .ok bm.versioningEnabled

/-! ### Buckets -/

/-- `CreateBucket`. -/
def createBucket (inp : CreateBucketInput) : Command :=
  g.stamped
    { op := .createBucket
      bucket := inp.bucket
      issuedBy := ctx.account
      metaMap := (if inp.ownership = "" then [] else [("ownership", inp.ownership)]) ++
        if inp.objectLock then [("object-lock", "true")] else []
      config := (inp.acl.map g.marshalACL).getD "" }

/-- `DeleteBucket`. -/
def deleteBucket (bucket : String) : Command :=
  g.stamped { op := .deleteBucket, bucket, issuedBy := ctx.account }

/-- `submitConfig`. -/
def submitConfig (op : Op) (bucket key version config : String) : Command :=
  g.stamped { op, bucket, key, versionID := version, config, issuedBy := ctx.account }

/-! ### Configuration of a bucket and metadata of an object -/

def putBucketACL (bucket : String) (acl : ACL) : Command :=
  g.submitConfig ctx .putBucketAcl bucket "" "" (g.marshalACL acl)

def putBucketPolicy (bucket policy : String) : Command :=
  g.submitConfig ctx .putBucketPolicy bucket "" "" policy

def deleteBucketPolicy (bucket : String) : Command :=
  g.submitConfig ctx .deleteBucketPolicy bucket "" "" ""

def putBucketCors (bucket : String) (rules : List CORSRule) : Command :=
  g.submitConfig ctx .putBucketCors bucket "" "" (g.marshalCORS rules)

def deleteBucketCors (bucket : String) : Command :=
  g.submitConfig ctx .deleteBucketCors bucket "" "" ""

def putBucketTagging (bucket : String) (tags : StrMap) : Command :=
  g.submitConfig ctx .putBucketTagging bucket "" "" (g.marshalTags tags)

def deleteBucketTagging (bucket : String) : Command :=
  g.submitConfig ctx .deleteBucketTag bucket "" "" ""

def putBucketVersioning (bucket status : String) : Command :=
  g.submitConfig ctx .putBucketVersioning bucket "" "" status

def putBucketOwnership (bucket ownership : String) : Command :=
  g.submitConfig ctx .putBucketOwnership bucket "" "" ownership

def deleteBucketOwnership (bucket : String) : Command :=
  g.submitConfig ctx .deleteBucketOwner bucket "" "" ""

def putObjectLockConfig (bucket : String) (cfg : ObjectLockConfig) : Command :=
  g.submitConfig ctx .putObjectLockConfig bucket "" "" (g.marshalLock cfg)

def putObjectACL (bucket key version : String) (acl : ACL) : Command :=
  g.submitConfig ctx .putObjectAcl bucket key version (g.marshalACL acl)

def putObjectTagging (bucket key version : String) (tags : StrMap) : Command :=
  g.submitConfig ctx .putObjectTagging bucket key version (g.marshalTags tags)

def deleteObjectTagging (bucket key version : String) : Command :=
  g.submitConfig ctx .deleteObjectTag bucket key version ""

def putObjectRetention (bucket key version : String) (r : Retention) : Command :=
  g.submitConfig ctx .putObjectRetention bucket key version (g.marshalRetention r)

def putObjectLegalHold (bucket key version status : String) : Command :=
  g.submitConfig ctx .putObjectLegalHold bucket key version (g.marshalLegalHold ⟨status⟩)

/-! ### Objects -/

/-- A map entry, unless the value is empty. -/
def entry (k v : String) : StrMap := if v = "" then [] else [(k, v)]

/-- `contentMeta`. -/
def contentMeta (inp : PutObjectInput) : StrMap :=
  [(Command.metaMTime, g.nowStamp)] ++
  entry Command.metaContentType inp.contentType ++
  entry Command.metaContentEncoding inp.contentEncoding ++
  entry Command.metaContentLang inp.contentLanguage ++
  entry Command.metaContentDisp inp.contentDisposition ++
  entry Command.metaCacheControl inp.cacheControl ++
  entry Command.metaExpires inp.expires ++
  (inp.userMeta.map fun (k, v) => ("x-amz-meta-" ++ k, v)) ++
  (if inp.tags = [] then [] else [(Command.metaTags, g.marshalTags inp.tags)]) ++
  (if inp.retentionMode ≠ "" ∧ inp.retainUntil ≠ 0 then
    [(Command.metaRetentionMode, inp.retentionMode),
     (Command.metaRetainUntil, g.formatTime inp.retainUntil)]
  else []) ++
  entry Command.metaLegalHold inp.legalHold

/-- `PutObject`, with the payload fanned out under `token`. -/
def putObject (s : Disk) (token versionID : String) (inp : PutObjectInput) (body : Bytes) :
    Except Err (Command × CallResult) := do
  let verEnabled ← bucketVersioning e s inp.bucket
  if inp.contentMD5 ≠ "" then g.checkContentMD5 inp.contentMD5 body
  let etag := "\"" ++ e.md5Hex body ++ "\""
  let c := g.stamped
    { op := .putObject
      bucket := inp.bucket
      key := inp.key
      versionID
      blobToken := token
      size := body.length
      etag
      storageCls := inp.storageClass
      issuedBy := ctx.account
      metaMap := g.contentMeta inp
      config := (inp.acl.map g.marshalACL).getD "" }
  .ok (c, { etag, versionID := visibleVersion verEnabled versionID })

/-- `DeleteObject`. -/
def deleteObject (s : Disk) (newID : String) (bucket key versionID : String) :
    Except Err (Command × CallResult) := do
  let verEnabled ← bucketVersioning e s bucket
  let c : Command := { op := .deleteObject, bucket, key, issuedBy := ctx.account }
  if versionID ≠ "" then
    .ok (g.stamped { c with versionID, metaMap := [("explicit-version", "true")] }, { versionID })
  else if verEnabled then
    .ok (g.stamped { c with versionID := newID }, { versionID := newID, deleteMarker := true })
  else .ok (g.stamped c, {})

/-- `CopyObject`. -/
def copyObject (s : Disk) (token versionID : String) (inp : CopyObjectInput) :
    Except Err (Command × CallResult) := do
  let verEnabled ← bucketVersioning e s inp.dstBucket
  let src ← e.headObject s inp.srcBucket inp.srcKey inp.srcVersionID
  let replaced :=
    if inp.metadataDirective = "REPLACE" then
      [("metadata-directive", "REPLACE")] ++ entry Command.metaContentType inp.contentType ++
        inp.userMeta.map fun (k, v) => ("x-amz-meta-" ++ k, v)
    else []
  let c := g.stamped
    { op := .copyObject
      bucket := inp.dstBucket
      key := inp.dstKey
      versionID
      blobToken := token
      etag := src.etag
      size := src.size
      issuedBy := ctx.account
      source := some ⟨inp.srcBucket, inp.srcKey, inp.srcVersionID⟩
      metaMap := [(Command.metaMTime, g.nowStamp)] ++ replaced ++
        if inp.taggingDirective = "REPLACE" then [("tagging-directive", "REPLACE")] else []
      config := (inp.acl.map g.marshalACL).getD "" }
  .ok (c, { etag := src.etag, versionID := visibleVersion verEnabled versionID })

/-! ### Multipart uploads -/

/-- `CreateMultipartUpload`. -/
def createMultipartUpload (uploadID : String) (inp : PutObjectInput) : Command :=
  g.stamped
    { op := .createMultipart
      bucket := inp.bucket
      key := inp.key
      uploadID
      storageCls := inp.storageClass
      issuedBy := ctx.account
      metaMap := g.contentMeta inp
      config := (inp.acl.map g.marshalACL).getD "" }

/-- `UploadPart`, with the payload fanned out. -/
def uploadPart (bucket key uploadID : String) (partNumber : Int) (body : Bytes) : Command :=
  g.stamped
    { op := .uploadPart
      bucket
      key
      uploadID
      partNumber
      etag := "\"" ++ e.md5Hex body ++ "\""
      size := body.length
      issuedBy := ctx.account }

/-- `multipartETag` of the gateway. -/
def multipartETag (parts : List CompletedPart) : String :=
  let raw := parts.flatMap fun p => (decodeHex (trimQuotes p.etag).toList).getD []
  "\"" ++ e.md5Hex raw ++ "-" ++ toString parts.length ++ "\""

/-- `CompleteMultipartUpload`. -/
def completeMultipartUpload (s : Disk) (token versionID : String) (bucket key uploadID : String)
    (parts : List CompletedPart) : Except Err (Command × CallResult) := do
  let verEnabled ← bucketVersioning e s bucket
  let c := g.stamped
    { op := .completeMultipart
      bucket
      key
      uploadID
      versionID
      blobToken := token
      parts
      issuedBy := ctx.account }
  .ok (c, { etag := multipartETag e parts, versionID := visibleVersion verEnabled versionID })

/-- `AbortMultipartUpload`. -/
def abortMultipartUpload (bucket key uploadID : String) : Command :=
  g.stamped { op := .abortMultipart, bucket, key, uploadID, issuedBy := ctx.account }

/-! ### Accounts -/

/-- `PutAccount`. -/
def putAccount (a : Account) : Command :=
  g.stamped { op := .putAccount, config := g.marshalAccount a, issuedBy := ctx.account }

/-- `DeleteAccount`. -/
def deleteAccount (accessKeyID : String) : Command :=
  g.stamped { op := .deleteAccount, key := accessKeyID, issuedBy := ctx.account }

end Gateway

/-- A gateway of the small deployment. -/
def smallGateway : Gateway where
  nowStamp := "2024"
  marshalACL _ := ""
  marshalTags _ := ""
  marshalCORS _ := ""
  marshalLock _ := ""
  marshalRetention _ := ""
  marshalLegalHold hold := hold.status
  marshalAccount _ := ""
  formatTime _ := ""
  checkContentMD5 _ _ := .ok ()

end D9Store
