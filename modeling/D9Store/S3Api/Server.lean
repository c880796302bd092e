import D9Store.Backend.Apply
import D9Store.S3Api.Authz

/-!
The S3 front end (`internal/s3api`): the dispatch of a request by method and sub-resource, its
handlers, and the JSON interface of the web console (`internal/webui`).

A handler works on the storage tier as one backend. Beside the answer it leaves a trace: every
command it submits and payload it fans out, and every object version whose bytes it hands out.
-/

namespace D9Store

open Posix

/-! ### The state a handler works on -/

/-- What a handler does that others can see. -/
inductive Effect where
  | submit (c : Command)
  /-- A payload is fanned out to the nodes. -/
  | stageBlob (token : String) (payload : Bytes)
  | stagePart (uploadID : String) (part : Int) (payload : Bytes)
  /-- Bytes of the version go into the response or into a new object. -/
  | expose (bucket key : String) (version : ObjectMeta)
  deriving DecidableEq

structure Session where
  backend : Backend
  /-- How many identifiers were minted. -/
  minted : Nat := 0
  effects : List Effect := []

abbrev Api := EStateM Err Session

/-- The data of an answer, before it is rendered. -/
inductive Reply where
  | done
  | status (code : Nat)
  | buckets (bs : List BucketMeta)
  | objects (res : ListResult)
  | versions (res : ListVersionsResult)
  | uploads (ups : List MultipartUpload)
  | acl (acl : ACL)
  | policy (text : String)
  | cors (rules : List CORSRule)
  | tagging (tags : StrMap)
  | text (value : String)
  | lock (cfg : ObjectLockConfig)
  | object (res : GetResult)
  | head (info : ObjectMeta)
  | selected (out : Bytes)
  | written (res : CallResult)
  | parts (mp : MultipartUpload)
  | retention (r : Retention)
  | deleted (results : List (String × Except Err CallResult))
  | accounts (as : List Account)
  | preflight (rule : CORSRule)

structure Deletions where
  quiet : Bool := false
  objects : List (String × String) := []

structure LockBody where
  enabled : String := ""
  rule : Option (String × Int × Int) := none

structure RetentionBody where
  mode : String := ""
  retainUntilDate : String := ""

/-- A front end: its gateway, and the library functions it uses. -/
structure Server extends Authz where
  e : Env
  g : Gateway
  region : String := ""
  ready : Bool := true
  newID : Nat → String
  /-- `Verifier.Verify`: nobody for an anonymous request. -/
  verify : (String → Option Account) → HTTPRequest → Except Err (Option Identity)
  basicAuth : HTTPRequest → Option (String × String)
  clientIP : HTTPRequest → String
  /-- A status that ends a conditional read. -/
  evalConditional : Values → String → Stamp → Option Nat
  parseRangeHeader : String → Option ByteRange
  queryUnescape : String → Option String
  /-- The `versionId` of a query string. -/
  versionOfQuery : String → String
  atoi : String → Option Int
  lower : String → String
  text : Bytes → String
  parseAmzTime : String → Time
  parseTagQuery : String → StrMap
  parseACL : Bytes → Option ACL
  parseCORS : Bytes → Option (List CORSRule)
  parseTagging : Bytes → Option StrMap
  parseVersioning : Bytes → Option String
  parseLock : Bytes → Option LockBody
  parseOwnership : Bytes → Option (List String)
  parseDeletions : Bytes → Option Deletions
  parseRetention : Bytes → Option RetentionBody
  parseLegalHold : Bytes → Option String
  parseComplete : Bytes → Option (List CompletedPart)
  parseAccount : Bytes → Option Account
  /-- The expression and formats of an S3 Select request, run over an object's bytes. -/
  parseSelect : Bytes → Option (Bytes → Except Err Bytes)
  /-- The bucket name in a console request. -/
  parseName : Bytes → String

/-- `reqCtx`. -/
structure ReqCtx where
  r : HTTPRequest
  bucket : String
  key : String
  who : Caller
  gctx : Ctx
  /-- The answers of `GetBucketMeta` to the checks of the request, in order, where they are not
  the storage tier's: calls get lost, leaders are missing. -/
  lookups : List (Except Err BucketMeta) := []

def ReqCtx.q (rc : ReqCtx) (k : String) : String := rc.r.query.get k

def ReqCtx.header (rc : ReqCtx) (k : String) : String := rc.r.headers.get k

def ReqCtx.owner (rc : ReqCtx) : Owner := { id := rc.who.account, displayName := rc.who.account }

def accessDenied : Err := .api errAccessDenied

/-- The handlers of the S3 front end. -/
inductive Handler where
  | admin | listBuckets
  | getBucketACL | getBucketPolicy | getBucketCORS | getBucketTagging | getBucketVersioning
  | getBucketLocation | getObjectLockConfig | getOwnership | listMultipartUploads
  | listObjectVersions | listObjects | headBucket
  | putBucketACL | putBucketPolicy | putBucketCORS | putBucketTagging | putBucketVersioning
  | putObjectLockConfig | putOwnership | createBucket
  | deleteObjects
  | deleteBucketPolicy | deleteBucketCORS | deleteBucketTagging | deleteOwnership | deleteBucket
  | getObjectACL | getObjectTagging | getObjectRetention | getObjectLegalHold
  | getObjectAttributes | listParts | getObject | headObject
  | putObjectACL | putObjectTagging | putObjectRetention | putObjectLegalHold
  | uploadPart | copyObject | putObject
  | selectObject | createMultipartUpload | completeMultipartUpload
  | deleteObjectTagging | abortMultipartUpload | deleteObject
  | methodNotAllowed
  deriving DecidableEq

namespace Api

/-- A read of the storage tier. -/
def ask {α : Type} (f : Disk → Except Err α) : Api α := reading fun s => f s.backend.disk

def onBackend {α : Type} (x : EStateM Err Backend α) : Api α := fun s =>
  match x s.backend with
  | .ok a b => .ok a { s with backend := b }
  | .error err b => .error err { s with backend := b }

def emit (f : Effect) : Api Unit := modify fun s => { s with effects := s.effects ++ [f] }

end Api

namespace Server

open Api

variable (sv : Server)

/-! ### The gateway -/

/-- `newID`. -/
def mint : Api String := fun s => .ok (sv.newID s.minted) { s with minted := s.minted + 1 }

/-- `submit`. -/
def submit (c : Command) : Api Unit := do
  emit (.submit c)
  onBackend (Backend.apply sv.e c)

/-- The whole body, as a write reads it. -/
def content (body : RequestBody) : Api Bytes :=
  match body.failure with
  | none => pure body.bytes
  | some err => throw err

/-- The error of a fan-out that reaches no quorum. -/
def fanOutFailed : Err := .api ⟨"InternalError", "fan-out did not reach a quorum", 500⟩

/-- `FanOut` and `FanOutPart`: the nodes refuse a name that is not a token. -/
def fanOut (name : String) (f : Effect) (stream : M Unit) : Api Unit :=
  if Env.safeToken name then do
    emit f
    onBackend (Backend.onDisk stream)
  else throw fanOutFailed

/-- `Gateway.PutObject`. -/
def gwPutObject (ctx : Ctx) (inp : PutObjectInput) (body : RequestBody) : Api CallResult := do
  let _ ← ask fun s => Gateway.bucketVersioning sv.e s inp.bucket
  let token ← sv.mint
  let bytes ← content body
  let versionID ← sv.mint
  let (c, res) ← ask fun s => sv.g.putObject sv.e ctx s token versionID inp bytes
  fanOut token (.stageBlob token bytes) (sv.e.handleBlobPut token bytes)
  sv.submit c
  pure res

/-- `Gateway.DeleteObject`. -/
def gwDeleteObject (ctx : Ctx) (bucket key versionID : String) : Api CallResult := do
  let newID ← sv.mint
  let (c, res) ← ask fun s => sv.g.deleteObject sv.e ctx s newID bucket key versionID
  sv.submit c
  pure res

/-- `Gateway.CopyObject`. -/
def gwCopyObject (ctx : Ctx) (inp : CopyObjectInput) : Api CallResult := do
  let versionID ← sv.mint
  let token ← sv.mint
  let (c, res) ← ask fun s => sv.g.copyObject sv.e ctx s token versionID inp
  -- The version the command will find, since nothing happens in between. Its bytes are in the
  -- object as soon as they are copied, whatever becomes of the command then.
  let src ← ask fun s => sv.e.headObject s inp.srcBucket inp.srcKey inp.srcVersionID
  let lands ← ask fun s => .ok (sv.e.copyLands s
    ⟨inp.srcBucket, inp.srcKey, inp.srcVersionID⟩ inp.dstBucket inp.dstKey)
  if lands then emit (.expose inp.srcBucket inp.srcKey src)
  sv.submit c
  pure res

/-- `Gateway.CreateMultipartUpload`. -/
def gwCreateMultipartUpload (ctx : Ctx) (inp : PutObjectInput) : Api String := do
  let uploadID ← sv.mint
  sv.submit (sv.g.createMultipartUpload ctx uploadID inp)
  pure uploadID

/-- `Gateway.UploadPart`. -/
def gwUploadPart (ctx : Ctx) (bucket key uploadID : String) (partNumber : Int)
    (body : RequestBody) : Api String := do
  let bytes ← content body
  fanOut uploadID (.stagePart uploadID partNumber bytes)
    (sv.e.handlePartPut uploadID partNumber bytes)
  let c := sv.g.uploadPart sv.e ctx bucket key uploadID partNumber bytes
  sv.submit c
  pure c.etag

/-- `Gateway.UploadPartCopy`. -/
def gwUploadPartCopy (ctx : Ctx) (bucket key uploadID : String) (partNumber : Int)
    (src : CopyObjectInput) (range : Option ByteRange) : Api String := do
  let res ← ask fun s =>
    sv.e.getObject s src.srcBucket src.srcKey { versionID := src.srcVersionID, range }
  -- The part has the bytes once they are staged.
  let lands ← ask fun s => .ok (sv.e.partLands s uploadID partNumber res.body)
  if lands then emit (.expose src.srcBucket src.srcKey res.info)
  sv.gwUploadPart ctx bucket key uploadID partNumber { bytes := res.body }

/-- `Gateway.CompleteMultipartUpload`. -/
def gwCompleteMultipartUpload (ctx : Ctx) (bucket key uploadID : String)
    (parts : List CompletedPart) : Api CallResult := do
  let versionID ← sv.mint
  let token ← sv.mint
  let (c, res) ← ask fun s =>
    sv.g.completeMultipartUpload sv.e ctx s token versionID bucket key uploadID parts
  sv.submit c
  pure res

/-! ### Authentication and authorisation -/

/-- `authenticate`, with the path split. -/
def authenticate (b : Backend) (r : HTTPRequest) (lookups : List (Except Err BucketMeta) := []) :
    Except Err ReqCtx := do
  let id ← sv.verify b.lookup r
  let (bucket, key) := splitPath r.path
  let who : Caller :=
    match id with
    | none => {}
    | some id =>
      { isAuth := true, account := id.account, role := ((b.lookup id.accessKeyID).map (·.role)).getD "" }
  .ok { r, bucket, key, who, lookups,
        gctx := { account := who.account, sourceIP := sv.clientIP r } }

/-- The answer of `GetBucketMeta` in check number `n` of the request. -/
def answer (rc : ReqCtx) (n : Nat) (s : Disk) : Except Err BucketMeta :=
  rc.lookups[n]?.getD (sv.e.getBucketMeta s rc.bucket)

/-- What `Server.authorize` decides then. -/
def allows (rc : ReqCtx) (action : Action) (n : Nat) (s : Disk) : Bool :=
  sv.toAuthz.authorize rc.who rc.gctx.sourceIP rc.bucket rc.key action (sv.answer rc n s)
    (sv.e.headObject s rc.bucket rc.key "")

/-- `Server.authorize`. -/
def authorize (rc : ReqCtx) (action : Action) (n : Nat := 0) : Api Unit := do
  let allowed ← ask fun s => .ok (sv.allows rc action n s)
  if allowed then pure () else throw accessDenied

/-! ### Bodies and headers -/

/-- `maxConfigBody`. -/
def maxConfigBody : Nat := 20 * 2 ^ 20

/-- `readBody`. -/
def readBody (rc : ReqCtx) : Api Bytes :=
  if maxConfigBody ≤ rc.r.body.bytes.length then pure (rc.r.body.bytes.take maxConfigBody)
  else content rc.r.body

/-- The body, decoded. -/
def decoded {α : Type} (rc : ReqCtx) (parse : Bytes → Option α) : Api α := do
  let body ← readBody rc
  match parse body with
  | some a => pure a
  | none => throw (.api errMalformedXML)

/-- `resolveACLFromRequest`, for a value of the header. -/
def resolveACL (rc : ReqCtx) (canned : String) : Api ACL := do
  if canned ≠ "" then pure (sv.cannedACL canned rc.owner rc.owner)
  else do
    let body ← readBody rc
    if body = [] then pure (sv.cannedACL "private" rc.owner rc.owner)
    else
      match sv.parseACL body with
      | some acl => pure acl
      | none => throw (.api errMalformedXML)

/-- `resolveACLFromRequest`. -/
def resolveACLFromRequest (rc : ReqCtx) : Api ACL := sv.resolveACL rc (rc.header "X-Amz-Acl")

/-- `userMetaFromHeaders`. -/
def userMetaFromHeaders (h : Values) : StrMap :=
  h.filterMap fun (k, v) =>
    if k.length > 11 ∧ Text.equalFold (k.take 11).toString "X-Amz-Meta-" then
      v.head?.map fun value => (sv.lower (k.drop 11).toString, value)
    else none

/-- `putInputFromHeaders`. -/
def putInputFromHeaders (rc : ReqCtx) : PutObjectInput :=
  let h := rc.header
  { bucket := rc.bucket
    key := rc.key
    contentType := h "Content-Type"
    contentEncoding := h "Content-Encoding"
    contentLanguage := h "Content-Language"
    contentDisposition := h "Content-Disposition"
    cacheControl := h "Cache-Control"
    expires := h "Expires"
    storageClass := h "X-Amz-Storage-Class"
    contentMD5 := h "Content-Md5"
    userMeta := sv.userMetaFromHeaders rc.r.headers
    legalHold := h "X-Amz-Object-Lock-Legal-Hold"
    tags := if h "X-Amz-Tagging" = "" then [] else sv.parseTagQuery (h "X-Amz-Tagging")
    acl := if h "X-Amz-Acl" = "" then none
      else some (sv.cannedACL (h "X-Amz-Acl") rc.owner rc.owner)
    retentionMode := h "X-Amz-Object-Lock-Mode"
    retainUntil := if h "X-Amz-Object-Lock-Mode" = "" then 0
      else sv.parseAmzTime (h "X-Amz-Object-Lock-Retain-Until-Date") }

/-- `parseCopySource`: bucket, key and version. -/
def parseCopySource (src : String) : Option (String × String × String) :=
  let (path, rest) := src.toList.span (· != '?')
  let version := if rest = [] then "" else sv.versionOfQuery (String.ofList (rest.drop 1))
  let path := String.ofList (if path.head? = some '/' then path.drop 1 else path)
  let path := (sv.queryUnescape path).getD path
  let (bucket, key) := path.toList.span (· != '/')
  if key = [] then none else some (String.ofList bucket, String.ofList (key.drop 1), version)

/-! ### Service and bucket handlers -/

def handleListBuckets (rc : ReqCtx) : Api Reply := do
  if rc.who.isAuth = false then throw accessDenied
  let bs ← ask fun s => .ok (sv.e.listBuckets s)
  pure (.buckets (if rc.who.role = "admin" then bs else bs.filter (·.owner == rc.who.account)))

def handleCreateBucket (rc : ReqCtx) : Api Reply := do
  sv.authorize rc .createBucket
  let canned := rc.header "X-Amz-Acl"
  sv.submit (sv.g.createBucket rc.gctx
    { bucket := rc.bucket
      ownership := rc.header "X-Amz-Object-Ownership"
      objectLock := rc.header "X-Amz-Bucket-Object-Lock-Enabled" == "true"
      acl := if canned = "" then none
        else some (sv.cannedACL canned rc.owner { id := rc.who.account }) })
  pure .done

def handleDeleteBucket (rc : ReqCtx) : Api Reply := do
  sv.authorize rc .deleteBucket
  sv.submit (sv.g.deleteBucket rc.gctx rc.bucket)
  pure .done

def bucketMeta (rc : ReqCtx) : Api BucketMeta := ask fun s => sv.e.getBucketMeta s rc.bucket

def handleHeadBucket (rc : ReqCtx) : Api Reply := do
  sv.authorize rc .listBucket
  let _ ← sv.bucketMeta rc
  pure .done

def maxKeys (rc : ReqCtx) : Int := (sv.atoi (rc.q "max-keys")).getD 1000

def handleListObjects (rc : ReqCtx) : Api Reply := do
  sv.authorize rc .listBucket
  let res ← ask fun s => sv.e.listObjectsV2 s
    { bucket := rc.bucket, pre := rc.q "prefix", delimiter := rc.q "delimiter",
      maxKeys := sv.maxKeys rc, marker := rc.q "marker", startAfter := rc.q "start-after",
      continuationToken := rc.q "continuation-token" }
  pure (.objects res)

def handleListObjectVersions (rc : ReqCtx) : Api Reply := do
  sv.authorize rc .listBucket
  let res ← ask fun s => sv.e.listObjectVersions s
    { bucket := rc.bucket, pre := rc.q "prefix", delimiter := rc.q "delimiter",
      maxKeys := sv.maxKeys rc, keyMarker := rc.q "key-marker",
      versionIDMarker := rc.q "version-id-marker" }
  pure (.versions res)

def handleListMultipartUploads (rc : ReqCtx) : Api Reply := do
  sv.authorize rc .listBucket
  let ups ← ask fun s => sv.e.listMultipartUploads s rc.bucket (rc.q "prefix")
  pure (.uploads ups)

def handleGetBucketACL (rc : ReqCtx) : Api Reply := do
  sv.authorize rc .getBucketAcl
  let bm ← sv.bucketMeta rc
  let owner : Owner := { id := bm.owner, displayName := bm.owner }
  pure (.acl (bm.acl.getD (sv.cannedACL "private" owner { id := bm.owner })))

def handlePutBucketACL (rc : ReqCtx) : Api Reply := do
  sv.authorize rc .putBucketAcl
  let acl ← sv.resolveACLFromRequest rc
  sv.submit (sv.g.putBucketACL rc.gctx rc.bucket acl)
  pure .done

def handleGetBucketPolicy (rc : ReqCtx) : Api Reply := do
  sv.authorize rc .getBucketPol
  let bm ← sv.bucketMeta rc
  if bm.policy = "" then throw (.api errNoSuchBucketPolicy)
  pure (.policy bm.policy)

def handlePutBucketPolicy (rc : ReqCtx) : Api Reply := do
  sv.authorize rc .bucketPolicy
  let body ← readBody rc
  sv.submit (sv.g.putBucketPolicy rc.gctx rc.bucket (sv.text body))
  pure .done

def handleDeleteBucketPolicy (rc : ReqCtx) : Api Reply := do
  sv.authorize rc .bucketPolicy
  sv.submit (sv.g.deleteBucketPolicy rc.gctx rc.bucket)
  pure .done

def handleGetBucketCORS (rc : ReqCtx) : Api Reply := do
  let bm ← sv.bucketMeta rc
  if bm.cors = [] then throw (.api errNoSuchCORS)
  pure (.cors bm.cors)

def handlePutBucketCORS (rc : ReqCtx) : Api Reply := do
  sv.authorize rc .putBucketAcl
  let rules ← decoded rc sv.parseCORS
  sv.submit (sv.g.putBucketCors rc.gctx rc.bucket rules)
  pure .done

/-! The handlers of the following settings ask for no authorisation. -/

def handleDeleteBucketCORS (rc : ReqCtx) : Api Reply := do
  sv.submit (sv.g.deleteBucketCors rc.gctx rc.bucket)
  pure .done

def handleGetBucketTagging (rc : ReqCtx) : Api Reply := do
  let bm ← sv.bucketMeta rc
  if bm.tags = [] then throw (.api errNoSuchTagSet)
  pure (.tagging bm.tags)

def handlePutBucketTagging (rc : ReqCtx) : Api Reply := do
  let tags ← decoded rc sv.parseTagging
  sv.submit (sv.g.putBucketTagging rc.gctx rc.bucket tags)
  pure .done

def handleDeleteBucketTagging (rc : ReqCtx) : Api Reply := do
  sv.submit (sv.g.deleteBucketTagging rc.gctx rc.bucket)
  pure .done

def handleGetBucketVersioning (rc : ReqCtx) : Api Reply := do
  let bm ← sv.bucketMeta rc
  pure (.text bm.versioning)

def handlePutBucketVersioning (rc : ReqCtx) : Api Reply := do
  let status ← decoded rc sv.parseVersioning
  sv.submit (sv.g.putBucketVersioning rc.gctx rc.bucket status)
  pure .done

def handleGetBucketLocation (rc : ReqCtx) : Api Reply := do
  let _ ← sv.bucketMeta rc
  pure (.text (if sv.region = "us-east-1" then "" else sv.region))

def handleGetObjectLockConfig (rc : ReqCtx) : Api Reply := do
  let bm ← sv.bucketMeta rc
  match bm.objectLock with
  | some cfg => if cfg.enabled then pure (.lock cfg) else throw (.api errNoSuchObjectLock)
  | none => throw (.api errNoSuchObjectLock)

def handlePutObjectLockConfig (rc : ReqCtx) : Api Reply := do
  let x ← decoded rc sv.parseLock
  let cfg : ObjectLockConfig :=
    match x.rule with
    | none => { enabled := x.enabled == "Enabled" }
    | some (mode, days, years) =>
      { enabled := x.enabled == "Enabled", defaultMode := mode, defaultDays := days,
        defaultYrs := years }
  sv.submit (sv.g.putObjectLockConfig rc.gctx rc.bucket cfg)
  pure .done

def handleGetOwnership (rc : ReqCtx) : Api Reply := do
  let bm ← sv.bucketMeta rc
  pure (.text (if bm.ownership = "" then "BucketOwnerEnforced" else bm.ownership))

def handlePutOwnership (rc : ReqCtx) : Api Reply := do
  let ownership ← decoded rc fun body => (sv.parseOwnership body).bind List.head?
  sv.submit (sv.g.putBucketOwnership rc.gctx rc.bucket ownership)
  pure .done

def handleDeleteOwnership (rc : ReqCtx) : Api Reply := do
  sv.submit (sv.g.deleteBucketOwnership rc.gctx rc.bucket)
  pure .done

/-! ### Object handlers -/

def handleGetObject (rc : ReqCtx) : Api Reply := do
  sv.authorize rc .getObject
  let opt : GetOptions :=
    { versionID := rc.q "versionId", range := sv.parseRangeHeader (rc.header "Range") }
  let res ← ask fun s => sv.e.getObject s rc.bucket rc.key opt
  match sv.evalConditional rc.r.headers res.info.etag res.info.lastModified with
  | some code => pure (.status code)
  | none => do
    emit (.expose rc.bucket rc.key res.info)
    pure (.object res)

/-- The version a metadata read is about. -/
def version (rc : ReqCtx) : Api ObjectMeta :=
  ask fun s => sv.e.headObject s rc.bucket rc.key (rc.q "versionId")

def handleHeadObject (rc : ReqCtx) : Api Reply := do
  sv.authorize rc .getObject
  let oi ← sv.version rc
  match sv.evalConditional rc.r.headers oi.etag oi.lastModified with
  | some code => pure (.status code)
  | none => pure (.head oi)

def handlePutObject (rc : ReqCtx) : Api Reply := do
  sv.authorize rc .putObject
  let res ← sv.gwPutObject rc.gctx (sv.putInputFromHeaders rc) rc.r.body
  pure (.written res)

/-- What a copy request asks for; its source is not authorised. -/
def handleCopyObject (rc : ReqCtx) : Api Reply := do
  sv.authorize rc .putObject
  match sv.parseCopySource (rc.header "X-Amz-Copy-Source") with
  | none => throw (.api errInvalidArgument)
  | some (srcBucket, srcKey, srcVersionID) => do
    let res ← sv.gwCopyObject rc.gctx
      { srcBucket, srcKey, srcVersionID
        dstBucket := rc.bucket
        dstKey := rc.key
        metadataDirective := rc.header "X-Amz-Metadata-Directive"
        taggingDirective := rc.header "X-Amz-Tagging-Directive"
        contentType := rc.header "Content-Type"
        userMeta := sv.userMetaFromHeaders rc.r.headers }
    pure (.written res)

def handleDeleteObject (rc : ReqCtx) : Api Reply := do
  sv.authorize rc .deleteObject
  let res ← sv.gwDeleteObject rc.gctx rc.bucket rc.key (rc.q "versionId")
  pure (.written res)

/-- One object of a batch: an outcome of its own. -/
def deleteOne (rc : ReqCtx) (n : Nat) (key versionID : String) :
    Api (String × Except Err CallResult) := do
  match ← attempt (sv.authorize { rc with key } .deleteObject n) with
  | .error (_ : Err) => pure (key, .error accessDenied)
  | .ok _ => do
    let res ← attempt (sv.gwDeleteObject rc.gctx rc.bucket key versionID)
    pure (key, res)

/-- The objects of a batch, from number `n` on. -/
def deleteEach (rc : ReqCtx) :
    Nat → List (String × String) → Api (List (String × Except Err CallResult))
  | _, [] => pure []
  | n, (key, versionID) :: rest => do
    let first ← sv.deleteOne rc n key versionID
    let others ← deleteEach rc (n + 1) rest
    pure (first :: others)

def handleDeleteObjects (rc : ReqCtx) : Api Reply := do
  let req ← decoded rc sv.parseDeletions
  let results ← sv.deleteEach rc 0 req.objects
  pure (.deleted (if req.quiet then results.filter (·.2.toOption.isNone) else results))

def handleGetObjectACL (rc : ReqCtx) : Api Reply := do
  sv.authorize rc .getAcl
  let oi ← sv.version rc
  let bm ← attempt (sv.bucketMeta rc)
  let owner : Owner :=
    match bm with
    | .ok bm => { id := bm.owner, displayName := bm.owner }
    | .error (_ : Err) => { id := rc.who.account }
  pure (.acl (oi.acl.getD (sv.cannedACL "private" owner owner)))

def handlePutObjectACL (rc : ReqCtx) : Api Reply := do
  sv.authorize rc .putAcl
  let acl ← sv.resolveACLFromRequest rc
  sv.submit (sv.g.putObjectACL rc.gctx rc.bucket rc.key (rc.q "versionId") acl)
  pure .done

def handleGetObjectTagging (rc : ReqCtx) : Api Reply := do
  sv.authorize rc .getTagging
  let oi ← sv.version rc
  pure (.tagging oi.tags)

def handlePutObjectTagging (rc : ReqCtx) : Api Reply := do
  sv.authorize rc .putTagging
  let tags ← decoded rc sv.parseTagging
  sv.submit (sv.g.putObjectTagging rc.gctx rc.bucket rc.key (rc.q "versionId") tags)
  pure .done

def handleDeleteObjectTagging (rc : ReqCtx) : Api Reply := do
  sv.authorize rc .putTagging
  sv.submit (sv.g.deleteObjectTagging rc.gctx rc.bucket rc.key (rc.q "versionId"))
  pure .done

def handleGetObjectRetention (rc : ReqCtx) : Api Reply := do
  let oi ← sv.version rc
  match oi.retention with
  | some r => pure (.retention r)
  | none => throw (.api errNoSuchObjectLock)

def handlePutObjectRetention (rc : ReqCtx) : Api Reply := do
  sv.authorize rc .putObject
  let x ← decoded rc sv.parseRetention
  let r : Retention := { mode := x.mode, retainUntil := .time (sv.parseAmzTime x.retainUntilDate) }
  sv.submit (sv.g.putObjectRetention rc.gctx rc.bucket rc.key (rc.q "versionId") r)
  pure .done

def handleGetObjectLegalHold (rc : ReqCtx) : Api Reply := do
  let oi ← sv.version rc
  pure (.text ((oi.legalHold.map (·.status)).getD "OFF"))

def handlePutObjectLegalHold (rc : ReqCtx) : Api Reply := do
  sv.authorize rc .putObject
  let status ← decoded rc sv.parseLegalHold
  sv.submit (sv.g.putObjectLegalHold rc.gctx rc.bucket rc.key (rc.q "versionId") status)
  pure .done

def handleGetObjectAttributes (rc : ReqCtx) : Api Reply := do
  sv.authorize rc .getObject
  let oi ← sv.version rc
  pure (.head oi)

/-- `handleSelectObject`: the result of the query is made from the object's bytes. -/
def handleSelectObject (rc : ReqCtx) : Api Reply := do
  sv.authorize rc .getObject
  let query ← decoded rc sv.parseSelect
  let res ← ask fun s => sv.e.getObject s rc.bucket rc.key { versionID := rc.q "versionId" }
  let out ← ask fun _ => query res.body
  emit (.expose rc.bucket rc.key res.info)
  pure (.selected out)

/-! ### Multipart handlers -/

def handleCreateMultipartUpload (rc : ReqCtx) : Api Reply := do
  sv.authorize rc .putObject
  let uploadID ← sv.gwCreateMultipartUpload rc.gctx (sv.putInputFromHeaders rc)
  pure (.text uploadID)

def handleUploadPart (rc : ReqCtx) : Api Reply := do
  sv.authorize rc .putObject
  match sv.atoi (rc.q "partNumber") with
  | none => throw (.api errInvalidArgument)
  | some partNum =>
    if partNum < 1 then throw (.api errInvalidArgument)
    else if rc.header "X-Amz-Copy-Source" = "" then do
      let etag ← sv.gwUploadPart rc.gctx rc.bucket rc.key (rc.q "uploadId") partNum rc.r.body
      pure (.text etag)
    else
      match sv.parseCopySource (rc.header "X-Amz-Copy-Source") with
      | none => throw (.api errInvalidArgument)
      | some (srcBucket, srcKey, srcVersionID) => do
        let etag ← sv.gwUploadPartCopy rc.gctx rc.bucket rc.key (rc.q "uploadId") partNum
          { srcBucket, srcKey, srcVersionID }
          (sv.parseRangeHeader (rc.header "X-Amz-Copy-Source-Range"))
        pure (.text etag)

def handleCompleteMultipartUpload (rc : ReqCtx) : Api Reply := do
  sv.authorize rc .putObject
  let parts ← decoded rc sv.parseComplete
  let res ← sv.gwCompleteMultipartUpload rc.gctx rc.bucket rc.key (rc.q "uploadId") parts
  pure (.written res)

def handleAbortMultipartUpload (rc : ReqCtx) : Api Reply := do
  sv.authorize rc .putObject
  sv.submit (sv.g.abortMultipartUpload rc.gctx rc.bucket rc.key (rc.q "uploadId"))
  pure .done

def handleListParts (rc : ReqCtx) : Api Reply := do
  sv.authorize rc .listBucket
  let mp ← ask fun s => sv.e.getMultipartUpload s rc.bucket (rc.q "uploadId")
  pure (.parts mp)

/-! ### Accounts -/

/-- `handleAdmin`. -/
def handleAdmin (rc : ReqCtx) : Api Reply :=
  if rc.who.role ≠ "admin" then throw accessDenied
  else if rc.q "action" = "create-account" then
    -- An unreadable body is decoded as it is.
    match sv.parseAccount (rc.r.body.bytes.take maxConfigBody) with
    | none => throw (.api errInvalidArgument)
    | some a =>
      if a.accessKeyID = "" ∨ a.secretKey = "" then throw (.api errInvalidArgument)
      else do
        sv.submit (sv.g.putAccount rc.gctx (if a.role = "" then { a with role := "user" } else a))
        pure .done
  else if rc.q "action" = "delete-account" then
    if rc.q "access-key" = "" then throw (.api errInvalidArgument)
    else do
      sv.submit (sv.g.deleteAccount rc.gctx (rc.q "access-key"))
      pure .done
  else if rc.q "action" = "list-accounts" then do
    let as ← reading fun s => .ok s.backend.listAccounts
    pure (.accounts as)
  else throw (.api errNotImplemented)

/-! ### Dispatch -/

/-- The handler of a request on the service (`dispatchService`). -/
def dispatchService (rc : ReqCtx) : Handler :=
  match rc.r.method with
  | .get => if rc.r.query.has "admin" then .admin else .listBuckets
  | .post | .put | .delete => if rc.r.query.has "admin" then .admin else .methodNotAllowed
  | _ => .methodNotAllowed

/-- The reads of `dispatchBucket`. -/
def readBucket (q : Values) (fallback : Handler) : Handler :=
  if q.has "acl" then .getBucketACL
  else if q.has "policy" then .getBucketPolicy
  else if q.has "cors" then .getBucketCORS
  else if q.has "tagging" then .getBucketTagging
  else if q.has "versioning" then .getBucketVersioning
  else if q.has "location" then .getBucketLocation
  else if q.has "object-lock" then .getObjectLockConfig
  else if q.has "ownershipControls" then .getOwnership
  else if q.has "uploads" then .listMultipartUploads
  else if q.has "versions" then .listObjectVersions
  else fallback

/-- The handler of a request on a bucket (`dispatchBucket`). -/
def dispatchBucket (rc : ReqCtx) : Handler :=
  let q := rc.r.query
  match rc.r.method with
  | .get => readBucket q .listObjects
  | .head => readBucket q .headBucket
  | .put =>
    if q.has "acl" then .putBucketACL
    else if q.has "policy" then .putBucketPolicy
    else if q.has "cors" then .putBucketCORS
    else if q.has "tagging" then .putBucketTagging
    else if q.has "versioning" then .putBucketVersioning
    else if q.has "object-lock" then .putObjectLockConfig
    else if q.has "ownershipControls" then .putOwnership
    else .createBucket
  | .post => if q.has "delete" then .deleteObjects else .methodNotAllowed
  | .delete =>
    if q.has "policy" then .deleteBucketPolicy
    else if q.has "cors" then .deleteBucketCORS
    else if q.has "tagging" then .deleteBucketTagging
    else if q.has "ownershipControls" then .deleteOwnership
    else .deleteBucket
  | _ => .methodNotAllowed

/-- The handler of a request on an object (`dispatchObject`). -/
def dispatchObject (rc : ReqCtx) : Handler :=
  let q := rc.r.query
  match rc.r.method with
  | .get =>
    if q.has "acl" then .getObjectACL
    else if q.has "tagging" then .getObjectTagging
    else if q.has "retention" then .getObjectRetention
    else if q.has "legal-hold" then .getObjectLegalHold
    else if q.has "attributes" then .getObjectAttributes
    else if q.has "uploadId" then .listParts
    else .getObject
  | .head => .headObject
  | .put =>
    if q.has "acl" then .putObjectACL
    else if q.has "tagging" then .putObjectTagging
    else if q.has "retention" then .putObjectRetention
    else if q.has "legal-hold" then .putObjectLegalHold
    else if q.has "uploadId" && rc.q "partNumber" != "" then .uploadPart
    else if rc.header "X-Amz-Copy-Source" ≠ "" then .copyObject
    else .putObject
  | .post =>
    if q.has "select" then .selectObject
    else if q.has "uploads" then .createMultipartUpload
    else if q.has "uploadId" then .completeMultipartUpload
    else .methodNotAllowed
  | .delete =>
    if q.has "tagging" then .deleteObjectTagging
    else if q.has "uploadId" then .abortMultipartUpload
    else .deleteObject
  | _ => .methodNotAllowed

/-- The handler of an authenticated request. -/
def dispatch (rc : ReqCtx) : Handler :=
  if rc.bucket = "" then dispatchService rc
  else if rc.key = "" then dispatchBucket rc
  else dispatchObject rc

def handle (rc : ReqCtx) : Handler → Api Reply
  | .admin => sv.handleAdmin rc
  | .listBuckets => sv.handleListBuckets rc
  | .getBucketACL => sv.handleGetBucketACL rc
  | .getBucketPolicy => sv.handleGetBucketPolicy rc
  | .getBucketCORS => sv.handleGetBucketCORS rc
  | .getBucketTagging => sv.handleGetBucketTagging rc
  | .getBucketVersioning => sv.handleGetBucketVersioning rc
  | .getBucketLocation => sv.handleGetBucketLocation rc
  | .getObjectLockConfig => sv.handleGetObjectLockConfig rc
  | .getOwnership => sv.handleGetOwnership rc
  | .listMultipartUploads => sv.handleListMultipartUploads rc
  | .listObjectVersions => sv.handleListObjectVersions rc
  | .listObjects => sv.handleListObjects rc
  | .headBucket => sv.handleHeadBucket rc
  | .putBucketACL => sv.handlePutBucketACL rc
  | .putBucketPolicy => sv.handlePutBucketPolicy rc
  | .putBucketCORS => sv.handlePutBucketCORS rc
  | .putBucketTagging => sv.handlePutBucketTagging rc
  | .putBucketVersioning => sv.handlePutBucketVersioning rc
  | .putObjectLockConfig => sv.handlePutObjectLockConfig rc
  | .putOwnership => sv.handlePutOwnership rc
  | .createBucket => sv.handleCreateBucket rc
  | .deleteObjects => sv.handleDeleteObjects rc
  | .deleteBucketPolicy => sv.handleDeleteBucketPolicy rc
  | .deleteBucketCORS => sv.handleDeleteBucketCORS rc
  | .deleteBucketTagging => sv.handleDeleteBucketTagging rc
  | .deleteOwnership => sv.handleDeleteOwnership rc
  | .deleteBucket => sv.handleDeleteBucket rc
  | .getObjectACL => sv.handleGetObjectACL rc
  | .getObjectTagging => sv.handleGetObjectTagging rc
  | .getObjectRetention => sv.handleGetObjectRetention rc
  | .getObjectLegalHold => sv.handleGetObjectLegalHold rc
  | .getObjectAttributes => sv.handleGetObjectAttributes rc
  | .listParts => sv.handleListParts rc
  | .getObject => sv.handleGetObject rc
  | .headObject => sv.handleHeadObject rc
  | .putObjectACL => sv.handlePutObjectACL rc
  | .putObjectTagging => sv.handlePutObjectTagging rc
  | .putObjectRetention => sv.handlePutObjectRetention rc
  | .putObjectLegalHold => sv.handlePutObjectLegalHold rc
  | .uploadPart => sv.handleUploadPart rc
  | .copyObject => sv.handleCopyObject rc
  | .putObject => sv.handlePutObject rc
  | .selectObject => sv.handleSelectObject rc
  | .createMultipartUpload => sv.handleCreateMultipartUpload rc
  | .completeMultipartUpload => sv.handleCompleteMultipartUpload rc
  | .deleteObjectTagging => sv.handleDeleteObjectTagging rc
  | .abortMultipartUpload => sv.handleAbortMultipartUpload rc
  | .deleteObject => sv.handleDeleteObject rc
  | .methodNotAllowed => throw (.api errMethodNotAllowed)

/-! ### Preflight requests -/

/-- `originMatches`. -/
def originMatches (allowed : List String) (origin : String) : Bool :=
  allowed.any fun a =>
    a == "*" || a == origin ||
      let (pre, rest) := a.toList.span (· != '*')
      rest != [] && pre.isPrefixOf origin.toList && (rest.drop 1).isSuffixOf origin.toList

/-- `matchCORS`. -/
def matchCORS (rules : List CORSRule) (origin method : String) : Option CORSRule :=
  rules.find? fun r => originMatches r.allowedOrigins origin &&
    (method == "" || r.allowedMethods.any fun m => Text.equalFold m method)

/-- `handleCORSPreflight`. -/
def handleCORSPreflight (r : HTTPRequest) : Api Reply :=
  let bucket := (splitPath r.path).1
  let origin := r.headers.get "Origin"
  if bucket = "" ∨ origin = "" then pure .done
  else do
    match ← attempt (ask fun s => sv.e.getBucketMeta s bucket) with
    | .error (_ : Err) => pure (.status 403)
    | .ok bm =>
      match matchCORS bm.cors origin (r.headers.get "Access-Control-Request-Method") with
      | none => pure (.status 403)
      | some rule => pure (.preflight rule)

/-! ### The web console -/

/-- `uiServer.auth`. -/
def consoleAuth (b : Backend) (r : HTTPRequest) : Option Caller := do
  let (ak, sk) ← sv.basicAuth r
  let a ← b.lookup ak
  if a.secretKey = sk then some { isAuth := true, account := a.accessKeyID, role := a.role }
  else none

/-- `owns`. -/
def owns (who : Caller) (bm : Except Err BucketMeta) : Bool :=
  who.role == "admin" ||
    match bm with
    | .error _ => true
    | .ok bm => bm.owner == who.account

/-- The check of the console's bucket and object calls. -/
def ifOwns (who : Caller) (bucket : String) (lookup : Option (Except Err BucketMeta)) :
    Api Unit := do
  let mine ← ask fun s => .ok (owns who (lookup.getD (sv.e.getBucketMeta s bucket)))
  if mine then pure () else throw accessDenied

/-- `uiServer.accounts`. -/
def consoleAccounts (r : HTTPRequest) (ctx : Ctx) : Api Reply :=
  match r.method with
  | .get => do
    let as ← reading fun s => .ok s.backend.listAccounts
    pure (.accounts as)
  | .post =>
    let a := (sv.parseAccount r.body.bytes).getD { accessKeyID := "", secretKey := "", role := "" }
    if a.accessKeyID = "" ∨ a.secretKey = "" then pure (.status 400)
    else do
      sv.submit (sv.g.putAccount ctx (if a.role = "" then { a with role := "user" } else a))
      pure .done
  | .delete => do
    sv.submit (sv.g.deleteAccount ctx (r.query.get "access_key"))
    pure .done
  | _ => pure (.status 405)

/-- `uiServer.api`, for an authenticated caller. -/
def consoleApi (r : HTTPRequest) (who : Caller)
    (lookup : Option (Except Err BucketMeta) := none) : Api Reply :=
  let ctx : Ctx := { account := who.account, sourceIP := sv.clientIP r }
  let path := (r.path.drop "/console/api/".length).toString
  let bucket := r.query.get "bucket"
  let key := r.query.get "key"
  if path = "whoami" then pure (.text who.account)
  else if path = "buckets" ∧ r.method = .get then do
    let bs ← ask fun s => .ok (sv.e.listBuckets s)
    pure (.buckets (bs.filter fun b => who.role == "admin" || b.owner == who.account))
  else if path = "buckets" ∧ r.method = .post then do
    sv.submit (sv.g.createBucket ctx { bucket := sv.parseName r.body.bytes })
    pure .done
  else if path = "buckets" ∧ r.method = .delete then do
    sv.ifOwns who bucket lookup
    sv.submit (sv.g.deleteBucket ctx bucket)
    pure .done
  else if path = "objects" ∧ r.method = .get then do
    sv.ifOwns who bucket lookup
    let res ← ask fun s => sv.e.listObjectsV2 s
      { bucket, pre := r.query.get "prefix", delimiter := r.query.get "delimiter", maxKeys := 1000 }
    pure (.objects res)
  else if path = "object" ∧ r.method = .get then do
    sv.ifOwns who bucket lookup
    let res ← ask fun s => sv.e.getObject s bucket key {}
    emit (.expose bucket key res.info)
    pure (.object res)
  else if path = "object" ∧ r.method = .put then do
    sv.ifOwns who bucket lookup
    let _ ← sv.gwPutObject ctx { bucket, key, contentType := r.headers.get "Content-Type" } r.body
    pure .done
  else if path = "object" ∧ r.method = .delete then do
    sv.ifOwns who bucket lookup
    let _ ← sv.gwDeleteObject ctx bucket key ""
    pure .done
  else if path = "accounts" then
    if who.role = "admin" then sv.consoleAccounts r ctx else throw accessDenied
  else pure (.status 404)

/-- `uiServer.ServeHTTP`; the files of the console are static. -/
def console (r : HTTPRequest) (lookups : List (Except Err BucketMeta) := []) : Api Reply :=
  if Text.hasPrefix r.path "/console/api/" then do
    let id ← reading fun s => .ok (sv.consoleAuth s.backend r)
    match id with
    | none => pure (.status 401)
    | some who => sv.consoleApi r who lookups.head?
  else pure .done

/-- The request is for the console. -/
def isConsole (r : HTTPRequest) : Bool := r.path == "/console" || Text.hasPrefix r.path "/console/"

/-- Who sends a request, when it is accepted. -/
def sender (sv : Server) (b : Backend) (r : HTTPRequest) : Option Caller :=
  if isConsole r then sv.consoleAuth b r else (sv.authenticate b r).toOption.map (·.who)

/-- `Server.serve`. The checks of the request are answered by the storage tier, or as `lookups`
says. -/
def serve (r : HTTPRequest) (lookups : List (Except Err BucketMeta) := []) : Api Reply :=
  if r.path = "/healthz" then pure (.status 200)
  else if r.path = "/readyz" then pure (.status (if sv.ready then 200 else 503))
  else if isConsole r then sv.console r lookups
  else if r.method = .options then sv.handleCORSPreflight r
  else do
    let rc ← reading fun s => sv.authenticate s.backend r lookups
    sv.handle rc (dispatch rc)

end Server

/-- A front end of the small deployment: the `Authorization` header names the access key, and
bodies decode to fixed values. -/
def smallServer (e : Env) : Server where
  e := e
  g := smallGateway
  newID n := toString n
  evaluatePolicy _ _ := .none
  upperTrimmed := id
  lowerTrimmed := id
  verify lookup r :=
    let ak := r.headers.get "Authorization"
    if ak = "" then .ok none
    else if (lookup ak).isSome then .ok (some { accessKeyID := ak, account := ak })
    else .error accessDenied
  basicAuth _ := none
  clientIP _ := ""
  evalConditional _ _ _ := none
  parseRangeHeader _ := none
  queryUnescape := some
  versionOfQuery := id
  atoi _ := none
  lower := id
  text _ := ""
  parseAmzTime _ := 0
  parseTagQuery _ := []
  parseACL _ := none
  parseCORS _ := none
  parseTagging _ := some []
  parseVersioning _ := some "Suspended"
  parseLock _ := none
  parseOwnership _ := none
  parseDeletions _ := none
  parseRetention _ := none
  parseLegalHold _ := none
  parseComplete _ := none
  parseAccount _ := none
  parseSelect _ := none
  parseName _ := ""

end D9Store
