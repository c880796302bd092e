import D9Store.Auth.SigV4
import D9Store.S3Api.Server

/-!
What the headers of a request make of it.

Dispatch looks at one `x-amz-` header, and a few handlers take arguments from others. `operation`
is the handler with these arguments, as far as the gateway looks at them. It decides the program of
a request whose other headers are given.
-/

namespace D9Store

/-! ### Header lookups -/

variable {keep : String → Bool} {name : String}

/-- Entries that a filter on names leaves out are never found under a name it keeps. -/
theorem Values.get_filter (kept : keep name = true) (h : Values) :
    Values.get (h.filter fun entry => keep entry.1) name = h.get name := by
  suffices found : (h.filter fun entry => keep entry.1).lookup name = h.lookup name by
    unfold Values.get
    rw [found]
  induction h with
  | nil => rfl
  | cons entry rest ih =>
    obtain ⟨k, values⟩ := entry
    by_cases same : name = k
    · subst same
      simp [kept]
    · have other : (name == k) = false := by simpa using same
      cases shown : keep k <;> simp [shown, List.lookup_cons, other, ih]

theorem Values.get_eq_of_filter {h₁ h₂ : Values} (kept : keep name = true)
    (same : (h₁.filter fun entry => keep entry.1) = h₂.filter fun entry => keep entry.1) :
    h₁.get name = h₂.get name := by
  rw [← Values.get_filter kept h₁, same, Values.get_filter kept h₂]

/-- The header belongs to the `x-amz-` family. -/
def isAmz (name : String) : Bool := Text.hasPrefix (Text.toLower name) "x-amz-"

/-- The request with other headers. -/
def HTTPRequest.withHeaders (r : HTTPRequest) (h : Values) : HTTPRequest := { r with headers := h }

def ReqCtx.withHeaders (rc : ReqCtx) (h : Values) : ReqCtx := { rc with r := rc.r.withHeaders h }

/-! ### Arguments -/

/-- The input without what the gateway passes over: a retention mode without a date. -/
def PutObjectInput.settled (inp : PutObjectInput) : PutObjectInput :=
  if inp.retentionMode ≠ "" ∧ inp.retainUntil ≠ 0 then inp
  else { inp with retentionMode := "", retainUntil := 0 }

/-- The input without what the gateway passes over: metadata that does not replace the source's. -/
def CopyObjectInput.settled (inp : CopyObjectInput) : CopyObjectInput :=
  { inp with
    metadataDirective := if inp.metadataDirective = "REPLACE" then "REPLACE" else ""
    contentType := if inp.metadataDirective = "REPLACE" then inp.contentType else ""
    userMeta := if inp.metadataDirective = "REPLACE" then inp.userMeta else []
    taggingDirective := if inp.taggingDirective = "REPLACE" then "REPLACE" else "" }

/-- A handler with the arguments that it takes from `x-amz-` headers. -/
inductive Operation where
  | plain (h : Handler)
  | createBucket (inp : CreateBucketInput)
  | setACL (h : Handler) (acl : Api ACL)
  | write (h : Handler) (inp : PutObjectInput)
  | copy (inp : CopyObjectInput)
  | copyPart (source : CopyObjectInput) (range : Option ByteRange)
  /-- A copy whose source is no name. -/
  | refuse (h : Handler)

def Operation.handler : Operation → Handler
  | .createBucket _ => .createBucket
  | .copy _ => .copyObject
  | .copyPart .. => .uploadPart
  | .plain h | .setACL h _ | .write h _ | .refuse h => h

/-- A setting of an object that a `PUT` changes from its body alone. -/
def setsObjectFromBody (q : Values) : Bool := ["tagging", "retention", "legal-hold"].any q.has

/-- The `PUT` is for a part of an upload. -/
def isPart (q : Values) : Bool := q.has "uploadId" && q.get "partNumber" != ""

namespace Server

section Operations

variable (sv : Server) (rc : ReqCtx)

/-- The canned ACL of a header, if there is one. -/
def cannedOf (grantee : Owner) (canned : String) : Option ACL :=
  if canned = "" then none else some (sv.cannedACL canned rc.owner grantee)

def createInput : CreateBucketInput where
  bucket := rc.bucket
  ownership := rc.header "X-Amz-Object-Ownership"
  objectLock := rc.header "X-Amz-Bucket-Object-Lock-Enabled" == "true"
  acl := sv.cannedOf rc { id := rc.who.account } (rc.header "X-Amz-Acl")

def copyInput (source : String × String × String) : CopyObjectInput where
  srcBucket := source.1
  srcKey := source.2.1
  srcVersionID := source.2.2
  dstBucket := rc.bucket
  dstKey := rc.key
  metadataDirective := rc.header "X-Amz-Metadata-Directive"
  taggingDirective := rc.header "X-Amz-Tagging-Directive"
  contentType := rc.header "Content-Type"
  userMeta := sv.userMetaFromHeaders rc.r.headers

/-- The part has a number that can be used. -/
def numbered : Bool := (sv.atoi (rc.q "partNumber")).any (1 ≤ ·)

/-- The part that a request stores, copied from a source if a header names one. -/
def partOperation : Operation :=
  if sv.numbered rc = false ∨ rc.header "X-Amz-Copy-Source" = "" then .plain .uploadPart
  else
    match sv.parseCopySource (rc.header "X-Amz-Copy-Source") with
    | none => .refuse .uploadPart
    | some (srcBucket, srcKey, srcVersionID) =>
      .copyPart { srcBucket, srcKey, srcVersionID }
        (sv.parseRangeHeader (rc.header "X-Amz-Copy-Source-Range"))

/-- The operation of a request. -/
def operation : Operation :=
  match dispatch rc with
  | .createBucket => .createBucket (sv.createInput rc)
  | .putBucketACL => .setACL .putBucketACL (sv.resolveACLFromRequest rc)
  | .putObjectACL => .setACL .putObjectACL (sv.resolveACLFromRequest rc)
  | .putObject => .write .putObject (sv.putInputFromHeaders rc).settled
  | .createMultipartUpload => .write .createMultipartUpload (sv.putInputFromHeaders rc).settled
  | .copyObject =>
    match sv.parseCopySource (rc.header "X-Amz-Copy-Source") with
    | none => .refuse .copyObject
    | some source => .copy (sv.copyInput rc source).settled
  | .uploadPart => sv.partOperation rc
  | h => .plain h

end Operations

/-! ### Conditions on the headers -/

section Conditions

variable (sv : Server) (rc : ReqCtx) (h : Values)

/-- The retention that the headers of a write ask for: a mode with a date. -/
def retentionOf (h : Values) : Option (String × Time) :=
  let mode := h.get "X-Amz-Object-Lock-Mode"
  let date := sv.parseAmzTime (h.get "X-Amz-Object-Lock-Retain-Until-Date")
  if mode ≠ "" ∧ date ≠ 0 then some (mode, date) else none

def tagsOf (h : Values) : StrMap :=
  if h.get "X-Amz-Tagging" = "" then [] else sv.parseTagQuery (h.get "X-Amz-Tagging")

/-- Other headers ask for the same write. -/
structure SameWrite : Prop where
  storage : h.get "X-Amz-Storage-Class" = rc.header "X-Amz-Storage-Class"
  hold : h.get "X-Amz-Object-Lock-Legal-Hold" = rc.header "X-Amz-Object-Lock-Legal-Hold"
  tags : sv.tagsOf h = sv.tagsOf rc.r.headers
  acl : sv.cannedOf rc rc.owner (h.get "X-Amz-Acl") =
    sv.cannedOf rc rc.owner (rc.header "X-Amz-Acl")
  retention : sv.retentionOf h = sv.retentionOf rc.r.headers
  userMeta : sv.userMetaFromHeaders h = sv.userMetaFromHeaders rc.r.headers

/-- Other headers name the same source of a copy; one that is no name is as good as another. -/
def SameSource : Prop :=
  (h.get "X-Amz-Copy-Source" = "" ↔ rc.header "X-Amz-Copy-Source" = "") ∧
    (rc.header "X-Amz-Copy-Source" ≠ "" →
      sv.parseCopySource (h.get "X-Amz-Copy-Source") =
        sv.parseCopySource (rc.header "X-Amz-Copy-Source"))

/-- The source of the copy is a name. -/
def hasSource : Bool :=
  rc.header "X-Amz-Copy-Source" != "" &&
    (sv.parseCopySource (rc.header "X-Amz-Copy-Source")).isSome

/-- Other headers replace the same data of a copy. -/
structure SameReplacement : Prop where
  metadata : h.get "X-Amz-Metadata-Directive" = "REPLACE" ↔
    rc.header "X-Amz-Metadata-Directive" = "REPLACE"
  userMeta : rc.header "X-Amz-Metadata-Directive" = "REPLACE" →
    sv.userMetaFromHeaders h = sv.userMetaFromHeaders rc.r.headers
  tagging : h.get "X-Amz-Tagging-Directive" = "REPLACE" ↔
    rc.header "X-Amz-Tagging-Directive" = "REPLACE"

/-- Other headers say the same where the handler of the request looks. -/
def Unchanged : Prop :=
  match dispatch rc with
  | .createBucket =>
    h.get "X-Amz-Object-Ownership" = rc.header "X-Amz-Object-Ownership" ∧
      (h.get "X-Amz-Bucket-Object-Lock-Enabled" = "true" ↔
        rc.header "X-Amz-Bucket-Object-Lock-Enabled" = "true") ∧
      sv.cannedOf rc { id := rc.who.account } (h.get "X-Amz-Acl") =
        sv.cannedOf rc { id := rc.who.account } (rc.header "X-Amz-Acl")
  | .putBucketACL | .putObjectACL =>
    sv.resolveACL rc (h.get "X-Amz-Acl") = sv.resolveACL rc (rc.header "X-Amz-Acl")
  | .createMultipartUpload => sv.SameWrite rc h
  | .putObject => h.get "X-Amz-Copy-Source" = "" ∧ sv.SameWrite rc h
  | .copyObject =>
    sv.SameSource rc h ∧ (sv.hasSource rc = true → sv.SameReplacement rc h)
  | .uploadPart =>
    sv.numbered rc = true → sv.SameSource rc h ∧
      (sv.hasSource rc = true →
        sv.parseRangeHeader (h.get "X-Amz-Copy-Source-Range") =
          sv.parseRangeHeader (rc.header "X-Amz-Copy-Source-Range"))
  | _ => True

end Conditions

variable {sv : Server} {rc : ReqCtx} {h : Values}

/-- The names of the plain headers that handlers read. -/
theorem plain_names :
    ∀ name ∈ ["Content-Type", "Content-Encoding", "Content-Language", "Content-Disposition",
      "Cache-Control", "Expires", "Content-Md5", "Range", "Authorization", "X-Forwarded-For",
      "If-None-Match", "If-Modified-Since", "If-Match", "If-Unmodified-Since"],
      isAmz name = false := by
  decide +kernel

theorem operation_handler (sv : Server) (rc : ReqCtx) : (sv.operation rc).handler = dispatch rc := by
  unfold operation
  cases dispatch rc
  case copyObject =>
    dsimp only
    split <;> rfl
  case uploadPart =>
    dsimp only [partOperation]
    split
    · rfl
    · split <;> rfl
  all_goals rfl

/-! ### Dispatch -/

/-- The handler that the header makes of a write. -/
def writer (source : String) : Handler := if source ≠ "" then .copyObject else .putObject

/-- The handler `a`, which is `b` now that a write has another handler. -/
def Becomes (w a b : Handler) : Prop :=
  b = if a = .putObject ∨ a = .copyObject then w else a

theorem becomes_self {w a : Handler} (other : a ≠ .putObject ∧ a ≠ .copyObject) : Becomes w a a := by
  simp [Becomes, other]

theorem becomes_ite {w x y a b : Handler} {c : Prop} [Decidable c] (yes : Becomes w x y)
    (no : Becomes w a b) : Becomes w (if c then x else a) (if c then y else b) := by
  split
  · exact yes
  · exact no

/-- Headers decide between an upload and a copy, and nothing else. -/
theorem dispatch_withHeaders (rc : ReqCtx) (h : Values) :
    Becomes (writer (h.get "X-Amz-Copy-Source")) (dispatch rc) (dispatch (rc.withHeaders h)) := by
  have upload (source : String) :
      Becomes (writer (h.get "X-Amz-Copy-Source")) (writer source)
        (writer (h.get "X-Amz-Copy-Source")) := by
    unfold Becomes writer
    split <;> simp
  have method : (rc.withHeaders h).r.method = rc.r.method := rfl
  unfold dispatch
  refine becomes_ite ?_ (becomes_ite ?_ ?_)
  · unfold dispatchService
    rw [method]
    cases rc.r.method <;> dsimp only <;>
      repeat first | exact becomes_self (by decide) | refine becomes_ite (becomes_self (by decide)) ?_
  · unfold dispatchBucket readBucket
    rw [method]
    cases rc.r.method <;> dsimp only <;>
      repeat first | exact becomes_self (by decide) | refine becomes_ite (becomes_self (by decide)) ?_
  · unfold dispatchObject
    rw [method]
    cases rc.r.method <;> dsimp only <;>
      repeat first
        | exact becomes_self (by decide) | exact upload _
        | refine becomes_ite (becomes_self (by decide)) ?_

/-- The handler of an upload. -/
theorem dispatchObject_put (method : rc.r.method = .put) (noAcl : rc.r.query.has "acl" = false)
    (noSetting : setsObjectFromBody rc.r.query = false) (noCopy : rc.header "X-Amz-Copy-Source" = "") :
    dispatchObject rc = if isPart rc.r.query then .uploadPart else .putObject := by
  simp only [setsObjectFromBody, List.any_cons, List.any_nil, Bool.or_false,
    Bool.or_eq_false_iff] at noSetting
  obtain ⟨noTagging, noRetention, noHold⟩ := noSetting
  unfold dispatchObject isPart
  simp [method, noAcl, noTagging, noRetention, noHold, noCopy, ReqCtx.q]

theorem source_of_dispatch (h : dispatch rc = .putObject ∨ dispatch rc = .copyObject) :
    dispatch rc = writer (rc.header "X-Amz-Copy-Source") := by
  have same := dispatch_withHeaders rc rc.r.headers
  rwa [Becomes, if_pos h] at same

/-! ### The gateway looks at no more -/

theorem contentMeta_settled (g : Gateway) (inp : PutObjectInput) :
    g.contentMeta inp.settled = g.contentMeta inp := by
  unfold PutObjectInput.settled
  split
  · rfl
  · rename_i none_
    simp [Gateway.contentMeta, none_]

theorem settled_same (inp : PutObjectInput) :
    inp.settled.bucket = inp.bucket ∧ inp.settled.key = inp.key ∧
      inp.settled.storageClass = inp.storageClass ∧ inp.settled.acl = inp.acl ∧
      inp.settled.contentMD5 = inp.contentMD5 := by
  unfold PutObjectInput.settled
  split <;> simp

theorem gwPutObject_settled (ctx : Ctx) (inp : PutObjectInput) (body : RequestBody) :
    sv.gwPutObject ctx inp.settled body = sv.gwPutObject ctx inp body := by
  obtain ⟨bucket, key, storage, acl, md5⟩ := settled_same inp
  unfold gwPutObject Gateway.putObject
  simp only [bucket, key, storage, acl, md5, contentMeta_settled]

theorem gwCreateMultipartUpload_settled (ctx : Ctx) (inp : PutObjectInput) :
    sv.gwCreateMultipartUpload ctx inp.settled = sv.gwCreateMultipartUpload ctx inp := by
  obtain ⟨bucket, key, storage, acl, -⟩ := settled_same inp
  unfold gwCreateMultipartUpload Gateway.createMultipartUpload
  simp only [bucket, key, storage, acl, contentMeta_settled]

theorem gwCopyObject_settled (ctx : Ctx) (inp : CopyObjectInput) :
    sv.gwCopyObject ctx inp.settled = sv.gwCopyObject ctx inp := by
  unfold gwCopyObject Gateway.copyObject CopyObjectInput.settled
  by_cases metadata : inp.metadataDirective = "REPLACE" <;>
    by_cases tagging : inp.taggingDirective = "REPLACE" <;> simp [metadata, tagging]

/-! ### The program of a request -/

theorem handleCreateBucket_eq (rc : ReqCtx) : sv.handleCreateBucket rc = (do
    sv.authorize rc .createBucket
    sv.submit (sv.g.createBucket rc.gctx (sv.createInput rc))
    pure .done) := rfl

theorem handlePutObject_eq (rc : ReqCtx) : sv.handlePutObject rc = (do
    sv.authorize rc .putObject
    let res ← sv.gwPutObject rc.gctx (sv.putInputFromHeaders rc).settled rc.r.body
    pure (.written res)) := by
  rw [gwPutObject_settled]
  rfl

theorem handleCreateMultipartUpload_eq (rc : ReqCtx) : sv.handleCreateMultipartUpload rc = (do
    sv.authorize rc .putObject
    let id ← sv.gwCreateMultipartUpload rc.gctx (sv.putInputFromHeaders rc).settled
    pure (.text id)) := by
  rw [gwCreateMultipartUpload_settled]
  rfl

theorem handleCopyObject_eq (rc : ReqCtx) : sv.handleCopyObject rc = (do
    sv.authorize rc .putObject
    match sv.parseCopySource (rc.header "X-Amz-Copy-Source") with
    | none => throw (.api errInvalidArgument)
    | some source => do
      let res ← sv.gwCopyObject rc.gctx (sv.copyInput rc source).settled
      pure (.written res)) := by
  simp only [gwCopyObject_settled]
  unfold handleCopyObject
  cases sv.parseCopySource (rc.header "X-Amz-Copy-Source") <;> rfl

theorem deleteEach_withHeaders (n : Nat) (objects : List (String × String)) :
    sv.deleteEach (rc.withHeaders h) n objects = sv.deleteEach rc n objects := by
  induction objects generalizing n with
  | nil => rfl
  | cons object rest ih =>
    unfold deleteEach
    rw [ih]
    rfl

/-- The program of a part, by its operation. -/
theorem handleUploadPart_withHeaders
    (same : sv.partOperation (rc.withHeaders h) = sv.partOperation rc) :
    sv.handleUploadPart (rc.withHeaders h) = sv.handleUploadPart rc := by
  have number : (rc.withHeaders h).q "partNumber" = rc.q "partNumber" := rfl
  unfold partOperation numbered at same
  unfold handleUploadPart
  rw [number] at same ⊢
  cases parsed : sv.atoi (rc.q "partNumber") with
  | none => rfl
  | some n =>
    dsimp only
    by_cases low : n < 1
    · simp only [if_pos low]
      rfl
    have usable : (some n).any (1 ≤ ·) = true := by simpa using low
    simp only [parsed, usable, Bool.true_eq_false, false_or] at same
    simp only [if_neg low]
    by_cases old : rc.header "X-Amz-Copy-Source" = "" <;>
      by_cases new : (rc.withHeaders h).header "X-Amz-Copy-Source" = ""
    · simp only [if_pos old, if_pos new]
      rfl
    · rw [if_pos old, if_neg new] at same
      split at same <;> cases same
    · rw [if_neg old, if_pos new] at same
      split at same <;> cases same
    · rw [if_neg old, if_neg new] at same
      simp only [if_neg old, if_neg new]
      cases was : sv.parseCopySource (rc.header "X-Amz-Copy-Source") <;>
        cases now : sv.parseCopySource ((rc.withHeaders h).header "X-Amz-Copy-Source") <;>
        simp only [was, now, reduceCtorEq] at same
      · rfl
      · obtain ⟨source, range⟩ := Operation.copyPart.inj same
        simp only [source, range]
        rfl

/-- The operation decides the program, the plain headers being the same. -/
theorem handle_withHeaders
    (plain : ∀ name, isAmz name = false → h.get name = rc.r.headers.get name)
    (conditions : ∀ etag t, sv.evalConditional h etag t = sv.evalConditional rc.r.headers etag t)
    (same : sv.operation (rc.withHeaders h) = sv.operation rc) :
    sv.handle (rc.withHeaders h) (dispatch (rc.withHeaders h)) = sv.handle rc (dispatch rc) := by
  have handler : dispatch (rc.withHeaders h) = dispatch rc := by
    rw [← operation_handler sv, same, operation_handler]
  have range : (rc.withHeaders h).header "Range" = rc.header "Range" :=
    plain _ (plain_names _ (by simp))
  have cond : ∀ etag t, sv.evalConditional (rc.withHeaders h).r.headers etag t =
    sv.evalConditional rc.r.headers etag t := conditions
  unfold operation at same
  rw [handler] at same ⊢
  cases asked : dispatch rc <;> rw [asked] at same
  case createBucket =>
    have inp := Operation.createBucket.inj same
    simp only [handle, handleCreateBucket_eq, inp]
    rfl
  case putBucketACL =>
    have acl := (Operation.setACL.inj same).2
    simp only [handle, handlePutBucketACL, acl]
    rfl
  case putObjectACL =>
    have acl := (Operation.setACL.inj same).2
    simp only [handle, handlePutObjectACL, acl]
    rfl
  case putObject =>
    have inp := (Operation.write.inj same).2
    simp only [handle, handlePutObject_eq, inp]
    rfl
  case createMultipartUpload =>
    have inp := (Operation.write.inj same).2
    simp only [handle, handleCreateMultipartUpload_eq, inp]
    rfl
  case copyObject =>
    dsimp only at same
    simp only [handle, handleCopyObject_eq]
    cases old : sv.parseCopySource (rc.header "X-Amz-Copy-Source") <;>
      cases new : sv.parseCopySource ((rc.withHeaders h).header "X-Amz-Copy-Source") <;>
      simp only [old, new, reduceCtorEq] at same
    · rfl
    · have inp := Operation.copy.inj same
      simp only [inp]
      rfl
  case uploadPart => exact handleUploadPart_withHeaders same
  case getObject =>
    simp only [handle, handleGetObject, range, cond]
    rfl
  case headObject =>
    simp only [handle, handleHeadObject, cond]
    rfl
  case deleteObjects =>
    simp only [handle, handleDeleteObjects, deleteEach_withHeaders]
    rfl
  all_goals rfl

/-! ### The operation -/

/-- The input of a write, with the retention that counts. -/
theorem putInput_settled (rc : ReqCtx) :
    (sv.putInputFromHeaders rc).settled =
      { sv.putInputFromHeaders rc with
        retentionMode := ((sv.retentionOf rc.r.headers).map (·.1)).getD ""
        retainUntil := ((sv.retentionOf rc.r.headers).map (·.2)).getD 0 } := by
  have mode : (sv.putInputFromHeaders rc).retentionMode =
    rc.r.headers.get "X-Amz-Object-Lock-Mode" := rfl
  unfold PutObjectInput.settled retentionOf
  rw [mode]
  by_cases given : rc.r.headers.get "X-Amz-Object-Lock-Mode" = ""
  · simp [given]
  have date : (sv.putInputFromHeaders rc).retainUntil =
      sv.parseAmzTime (rc.r.headers.get "X-Amz-Object-Lock-Retain-Until-Date") := by
    simp [putInputFromHeaders, ReqCtx.header, given]
  rw [date]
  split
  · rename_i counts
    simp only [if_pos counts]
    simp only [← mode, ← date]
    rfl
  · rename_i lapses
    simp only [if_neg lapses]
    rfl

/-- A retention is its mode and its date. -/
theorem retentionOf_eq_iff (h h' : Values) :
    (((sv.retentionOf h).map (·.1)).getD "" = ((sv.retentionOf h').map (·.1)).getD "" ∧
      ((sv.retentionOf h).map (·.2)).getD 0 = ((sv.retentionOf h').map (·.2)).getD 0) ↔
      sv.retentionOf h = sv.retentionOf h' := by
  unfold retentionOf
  dsimp only
  split <;> split <;> simp_all

theorem copyInput_settled (rc : ReqCtx) (source : String × String × String) :
    (sv.copyInput rc source).settled =
      { srcBucket := source.1
        srcKey := source.2.1
        srcVersionID := source.2.2
        dstBucket := rc.bucket
        dstKey := rc.key
        metadataDirective :=
          if rc.header "X-Amz-Metadata-Directive" = "REPLACE" then "REPLACE" else ""
        contentType :=
          if rc.header "X-Amz-Metadata-Directive" = "REPLACE" then rc.header "Content-Type" else ""
        userMeta :=
          if rc.header "X-Amz-Metadata-Directive" = "REPLACE" then
            sv.userMetaFromHeaders rc.r.headers
          else []
        taggingDirective :=
          if rc.header "X-Amz-Tagging-Directive" = "REPLACE" then "REPLACE" else "" } := rfl

theorem replace_iff {p q : Prop} [Decidable p] [Decidable q] :
    (if p then "REPLACE" else "") = (if q then "REPLACE" else "") ↔ (p ↔ q) := by
  by_cases p <;> by_cases q <;> simp_all

section Plain

variable (plain : ∀ name, isAmz name = false → h.get name = rc.r.headers.get name)
include plain

theorem write_iff :
    (sv.putInputFromHeaders (rc.withHeaders h)).settled = (sv.putInputFromHeaders rc).settled ↔
      sv.SameWrite rc h := by
  have same : ∀ name ∈ ["Content-Type", "Content-Encoding", "Content-Language",
      "Content-Disposition", "Cache-Control", "Expires", "Content-Md5"],
      (rc.withHeaders h).header name = rc.header name := fun name mem =>
    plain name (plain_names name (by
      simp only [List.mem_cons, List.not_mem_nil, or_false] at mem ⊢
      tauto))
  simp only [List.forall_mem_cons, List.not_mem_nil, false_implies, implies_true, and_true] at same
  obtain ⟨ct, ce, cl, cd, cc, ex, md⟩ := same
  rw [putInput_settled, putInput_settled]
  simp only [putInputFromHeaders, PutObjectInput.mk.injEq, ct, ce, cl, cd, cc, ex, md]
  constructor
  · rintro ⟨-, -, -, -, -, -, -, -, storage, userMeta, tags, acl, mode, date, hold, -⟩
    exact ⟨storage, hold, tags, acl, (retentionOf_eq_iff _ _).mp ⟨mode, date⟩, userMeta⟩
  · rintro ⟨storage, hold, tags, acl, retention, userMeta⟩
    obtain ⟨mode, date⟩ := (retentionOf_eq_iff _ _).mpr retention
    exact ⟨rfl, rfl, trivial, trivial, trivial, trivial, trivial, trivial, storage, userMeta, tags,
      acl, mode, date, hold, trivial⟩

theorem copy_iff {source source' : String × String × String} :
    (sv.copyInput (rc.withHeaders h) source').settled = (sv.copyInput rc source).settled ↔
      source' = source ∧ sv.SameReplacement rc h := by
  have contentType : (rc.withHeaders h).header "Content-Type" = rc.header "Content-Type" :=
    plain _ (plain_names _ (by simp))
  have metadata : (rc.withHeaders h).header "X-Amz-Metadata-Directive" =
    h.get "X-Amz-Metadata-Directive" := rfl
  have tagging : (rc.withHeaders h).header "X-Amz-Tagging-Directive" =
    h.get "X-Amz-Tagging-Directive" := rfl
  have users : (rc.withHeaders h).r.headers = h := rfl
  obtain ⟨bucket, key, version⟩ := source
  obtain ⟨bucket', key', version'⟩ := source'
  rw [copyInput_settled, copyInput_settled, contentType, metadata, tagging, users,
    CopyObjectInput.mk.injEq, Prod.mk.injEq, Prod.mk.injEq]
  constructor
  · rintro ⟨rfl, rfl, rfl, -, -, directive, tags, -, userMeta, -⟩
    have replaces := replace_iff.mp directive
    refine ⟨⟨rfl, rfl, rfl⟩, replaces, fun given => ?_, replace_iff.mp tags⟩
    rwa [if_pos given, if_pos (replaces.mpr given)] at userMeta
  · rintro ⟨⟨rfl, rfl, rfl⟩, directive, userMeta, tags⟩
    refine ⟨rfl, rfl, rfl, rfl, rfl, replace_iff.mpr directive, replace_iff.mpr tags, ?_, ?_, rfl⟩
    · exact if_congr directive rfl rfl
    · rw [if_congr directive rfl rfl]
      exact ite_congr rfl userMeta fun _ => rfl

end Plain

theorem create_iff :
    sv.createInput (rc.withHeaders h) = sv.createInput rc ↔
      h.get "X-Amz-Object-Ownership" = rc.header "X-Amz-Object-Ownership" ∧
      (h.get "X-Amz-Bucket-Object-Lock-Enabled" = "true" ↔
        rc.header "X-Amz-Bucket-Object-Lock-Enabled" = "true") ∧
      sv.cannedOf rc { id := rc.who.account } (h.get "X-Amz-Acl") =
        sv.cannedOf rc { id := rc.who.account } (rc.header "X-Amz-Acl") := by
  have lock : ((rc.withHeaders h).header "X-Amz-Bucket-Object-Lock-Enabled" == "true") =
      (rc.header "X-Amz-Bucket-Object-Lock-Enabled" == "true") ↔
      (h.get "X-Amz-Bucket-Object-Lock-Enabled" = "true" ↔
        rc.header "X-Amz-Bucket-Object-Lock-Enabled" = "true") := by
    rw [Bool.eq_iff_iff, beq_iff_eq, beq_iff_eq]
    rfl
  rw [createInput, createInput, CreateBucketInput.mk.injEq, lock]
  exact ⟨fun same => same.2, fun same => ⟨rfl, same⟩⟩

theorem part_iff :
    sv.partOperation (rc.withHeaders h) = sv.partOperation rc ↔
      (sv.numbered rc = true → sv.SameSource rc h ∧
        (sv.hasSource rc = true →
          sv.parseRangeHeader (h.get "X-Amz-Copy-Source-Range") =
            sv.parseRangeHeader (rc.header "X-Amz-Copy-Source-Range"))) := by
  have number : sv.numbered (rc.withHeaders h) = sv.numbered rc := rfl
  have source : (rc.withHeaders h).header "X-Amz-Copy-Source" = h.get "X-Amz-Copy-Source" := rfl
  have range : (rc.withHeaders h).header "X-Amz-Copy-Source-Range" =
    h.get "X-Amz-Copy-Source-Range" := rfl
  unfold partOperation SameSource hasSource
  rw [number, source, range]
  cases usable : sv.numbered rc with
  | false => simp
  | true =>
    by_cases old : rc.header "X-Amz-Copy-Source" = "" <;>
      by_cases new : h.get "X-Amz-Copy-Source" = ""
    · simp [old, new]
    · simp only [old, new, Bool.true_eq_false, false_or, if_true, if_false]
      split <;> simp
    · simp only [old, new, Bool.true_eq_false, false_or, if_true, if_false]
      split <;> simp
    · cases was : sv.parseCopySource (rc.header "X-Amz-Copy-Source") <;>
        cases now : sv.parseCopySource (h.get "X-Amz-Copy-Source") <;>
        simp [old, new, Prod.ext_iff, and_assoc]

/-- Other headers make the same operation exactly when they say the same where its handler looks. -/
theorem operation_iff (plain : ∀ name, isAmz name = false → h.get name = rc.r.headers.get name) :
    sv.operation (rc.withHeaders h) = sv.operation rc ↔ sv.Unchanged rc h := by
  have becomes := dispatch_withHeaders rc h
  have source : (rc.withHeaders h).header "X-Amz-Copy-Source" = h.get "X-Amz-Copy-Source" := rfl
  unfold Becomes at becomes
  unfold operation Unchanged
  cases asked : dispatch rc <;>
    simp only [asked, reduceCtorEq, or_self, or_true, true_or, if_true, if_false] at becomes <;>
    rw [becomes]
  case createBucket => rw [Operation.createBucket.injEq, create_iff]
  case putBucketACL | putObjectACL =>
    rw [Operation.setACL.injEq]
    exact ⟨fun same => same.2, fun same => ⟨rfl, same⟩⟩
  case createMultipartUpload =>
    rw [Operation.write.injEq, write_iff plain]
    exact ⟨fun same => same.2, fun same => ⟨rfl, same⟩⟩
  case uploadPart => exact part_iff
  case putObject =>
    by_cases copies : h.get "X-Amz-Copy-Source" = ""
    · simp [writer, copies, write_iff plain]
    · simp only [writer, copies, ne_eq, not_false_eq_true, if_true, false_and, iff_false]
      split <;> simp
  case copyObject =>
    have given : rc.header "X-Amz-Copy-Source" ≠ "" := fun none_ => by
      have other := source_of_dispatch (.inr asked)
      rw [asked, none_] at other
      cases other
    by_cases copies : h.get "X-Amz-Copy-Source" = ""
    · simp only [writer, copies, SameSource, given, ne_eq, not_true_eq_false, if_false,
        false_and, iff_false]
      split <;> simp
    · simp only [writer, copies, SameSource, hasSource, given, source, ne_eq, not_false_eq_true,
        if_true, true_and, forall_const, bne_iff_ne.mpr given, Bool.true_and]
      cases was : sv.parseCopySource (rc.header "X-Amz-Copy-Source") <;>
        cases now : sv.parseCopySource (h.get "X-Amz-Copy-Source") <;>
        simp [copy_iff plain]
  all_goals simp

end Server

end D9Store
