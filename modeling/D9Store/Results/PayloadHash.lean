import D9Store.Keyspace.Served
import D9Store.Results.UnsignedHeaders
import D9Store.Uploads.Ledger

/-!
The payload hash of a signed upload.

A signature in the header covers the hash that the client declares for its body. Nobody hashes
the body that arrives: the verifier hands it on as it is, and the gateway stages and commits it. The
bytes stored have the declared hash only when the body that was sent has it.
-/

namespace D9Store

open Auth Posix FilePath

namespace Frontend

variable {f : Frontend} {r : HTTPRequest} {s t : Session} {bucket key : String} {reply : Reply}

/-- The signature is in the `Authorization` header. -/
def HeaderSigned (r : HTTPRequest) : Prop :=
  r.query.get "X-Amz-Algorithm" = "" ∧ Text.hasPrefix (r.headers.get "Authorization") algorithm = true

/-- The request declares the hash of its whole body. -/
def DeclaresHash (r : HTTPRequest) : Prop :=
  payloadOf r ≠ unsignedPayload ∧ Text.hasPrefix (payloadOf r) "STREAMING-" = false

/-- The request sends the bytes of an object or of a part. -/
structure IsUpload (r : HTTPRequest) (bucket key : String) : Prop where
  path : splitPath r.path = (bucket, key)
  checked : unchecked r = false
  method : r.method = .put
  named : bucket ≠ "" ∧ key ≠ ""
  bytes : r.query.has "acl" = false ∧ setsObjectFromBody r.query = false
  noCopy : r.headers.get "X-Amz-Copy-Source" = ""

/-- The file that an upload is stored in. -/
inductive StoredAt (f : Frontend) (r : HTTPRequest) (bucket key : String) : FilePath → Prop where
  | object {p : FilePath} (whole : isPart r.query = false)
      (place : f.base.e.objectPath bucket key = .ok p) : StoredAt f r bucket key p
  | part {number : Int} (part : isPart r.query = true)
      (numbered : f.base.atoi (r.query.get "partNumber") = some number) :
      StoredAt f r bucket key (f.base.e.mpPartPath (r.query.get "uploadId") number)

theorem slash_not_mem_bucket (path : String) : '/' ∉ (splitPath path).1.toList := by
  have stops (text : List Char) : '/' ∉ (text.span (· != '/')).1 := by
    rw [List.span_eq_takeWhile_dropWhile]
    intro mem
    have other := List.mem_takeWhile_imp mem
    simp at other
  simpa [splitPath] using stops _

/-! ### The body that is handed on -/

/-- A body whose hash is declared is not read through another reader. -/
theorem handed_of_declared {b : Backend} {res : VerifyResult} (signed : HeaderSigned r)
    (declared : DeclaresHash r) (accepted : f.verify b.lookup r = .ok res) : f.handed b r = r := by
  have header : f.verifier.verifyHeader b.lookup f.now f.wire r = .ok res := by
    rw [← accepted, verify, Verifier.verify, if_neg (not_not.mpr signed.1), if_pos signed.2]
  obtain ⟨found, account, -, -, rfl⟩ := Verifier.verifyHeader_result header
  have plain : (payloadOf r == streamingPayload || payloadOf r == streamingPayloadTrailer) = false := by
    rw [Bool.or_eq_false_iff, beq_eq_false_iff_ne, beq_eq_false_iff_ne]
    constructor <;> intro streaming <;> have other := declared.2 <;> rw [streaming] at other <;>
      revert other <;> decide +kernel
  rw [handed, handedBody, accepted]
  simp [Verifier.headerResult, plain]

/-- An upload is authenticated and dispatched. -/
theorem serve_upload (asks : IsUpload r bucket key) (same : f.handed s.backend r = r) :
    f.serve r s =
      match f.server.authenticate s.backend r with
      | .ok rc => f.server.handle rc (Server.dispatch rc) s
      | .error err => .error err s := by
  have checked := asks.checked
  simp only [unchecked, Bool.or_eq_false_iff, beq_eq_false_iff_ne] at checked
  obtain ⟨⟨health, ready⟩, console⟩ := checked
  rw [serve, same, Server.serve, if_neg health, if_neg ready, if_neg (by simp [console]),
    if_neg (by simp [asks.method]), bind_apply, reading]
  cases f.server.authenticate s.backend r <;> rfl

theorem dispatchObject_of_serve (asks : IsUpload r bucket key) (same : f.handed s.backend r = r)
    (run : f.serve r s = .ok reply t) :
    ∃ rc : ReqCtx, rc.r = r ∧ rc.bucket = bucket ∧ rc.key = key ∧
      f.server.handle rc (Server.dispatchObject rc) s = .ok reply t := by
  rw [serve_upload asks same] at run
  cases known : f.server.authenticate s.backend r with
  | error err =>
    rw [known] at run
    cases run
  | ok rc =>
    rw [known] at run
    dsimp only at run
    obtain ⟨id, -, built⟩ := except_bind_ok known
    rw [asks.path] at built
    cases built
    rw [Server.dispatch, if_neg asks.named.1, if_neg asks.named.2] at run
    exact ⟨_, rfl, rfl, rfl, run⟩

end Frontend

/-! ### The handlers -/

namespace Server

open Api

variable {sv : Server} {rc : ReqCtx} {s t : Session} {reply : Reply} {ctx : Ctx}
    {body : RequestBody}

theorem authenticate_known {b : Backend} {r : HTTPRequest} {id : Identity} {bucket key : String}
    (verified : sv.verify b.lookup r = .ok (some id)) (path : splitPath r.path = (bucket, key)) :
    sv.authenticate b r = .ok
      { r, bucket, key
        who :=
          { isAuth := true
            account := id.account
            role := ((b.lookup id.accessKeyID).map (·.role)).getD "" }
        gctx := { account := id.account, sourceIP := sv.clientIP r } } := by
  rw [authenticate, verified, path]
  rfl

theorem authorize_same {action : Action} {n : Nat} {a : Unit}
    (run : sv.authorize rc action n s = .ok a t) : t = s := by
  rw [← final_of_ok run]
  exact reads_authorize s

theorem onBackend_ok {α : Type} {x : M α} {a : α} (run : onBackend (Backend.onDisk x) s = .ok a t) :
    x s.backend.disk = .ok a t.backend.disk := by
  unfold onBackend Backend.onDisk at run
  cases step : x s.backend.disk with
  | ok b disk =>
    rw [step] at run
    cases run
    rfl
  | error err disk =>
    rw [step] at run
    cases run

theorem fanOut_ok {name : String} {f : Effect} {stream : M Unit}
    (run : fanOut name f stream s = .ok () t) :
    Env.safeToken name = true ∧ stream s.backend.disk = .ok () t.backend.disk := by
  unfold fanOut at run
  split at run
  · rename_i safe
    obtain ⟨_, s₁, noted, streamed⟩ := bind_ok.mp run
    cases noted
    exact ⟨safe, onBackend_ok (s := { s with effects := s.effects ++ [f] }) streamed⟩
  · cases run

theorem submit_ok {c : Command} (disk : c.onDisk = true) (run : sv.submit c s = .ok () t) :
    sv.e.applyDisk c s.backend.disk = .ok () t.backend.disk := by
  obtain ⟨_, s₁, noted, applied⟩ := bind_ok.mp run
  cases noted
  have same : Backend.apply sv.e c = Backend.onDisk (sv.e.applyDisk c) := by
    unfold Backend.apply
    unfold Command.onDisk at disk
    split <;> simp_all
  rw [same] at applied
  exact onBackend_ok (s := { s with effects := s.effects ++ [.submit c] }) applied

theorem content_ok {bytes : Bytes} (run : content body s = .ok bytes t) :
    bytes = body.bytes ∧ t = s := by
  unfold content at run
  cases failure : body.failure with
  | none =>
    rw [failure] at run
    cases run
    exact ⟨rfl, rfl⟩
  | some err =>
    rw [failure] at run
    cases run

/-- The command of a put, once its payload is staged. -/
theorem gwPutObject_ok {inp : PutObjectInput} {res : CallResult}
    (run : sv.gwPutObject ctx inp body s = .ok res t) :
    ∃ token s₁ c, Env.safeToken token = true ∧
      sv.e.handleBlobPut token body.bytes s.backend.disk = .ok () s₁ ∧
      c.op = .putObject ∧ c.bucket = inp.bucket ∧ c.key = inp.key ∧ c.blobToken = token ∧
      sv.e.applyPutObject c s₁ = .ok () t.backend.disk := by
  obtain ⟨_, s₁, asked, run₁⟩ := bind_ok.mp run
  obtain ⟨-, rfl⟩ := ask_ok.mp asked
  obtain ⟨token, s₂, minted, run₂⟩ := bind_ok.mp run₁
  cases minted
  obtain ⟨bytes, s₃, read, run₃⟩ := bind_ok.mp run₂
  obtain ⟨rfl, rfl⟩ := content_ok read
  obtain ⟨versionID, s₄, minted', run₄⟩ := bind_ok.mp run₃
  cases minted'
  obtain ⟨⟨c, answer⟩, s₅, asked', run₅⟩ := bind_ok.mp run₄
  obtain ⟨built, rfl⟩ := ask_ok.mp asked'
  obtain ⟨_, s₆, fanned, run₆⟩ := bind_ok.mp run₅
  obtain ⟨_, s₇, committed, done⟩ := bind_ok.mp run₆
  cases done
  obtain ⟨safe, staged⟩ := fanOut_ok fanned
  obtain ⟨-, -, -, op, bucket, key, -, token⟩ := Gateway.putObject_ok built
  have applied := submit_ok (by rw [Command.onDisk, op]) committed
  rw [Env.applyDisk, op] at applied
  exact ⟨sv.newID s.minted, s₆.backend.disk, c, safe, staged, op, bucket, key, token, applied⟩

/-- The command of a part, once its payload is staged. -/
theorem gwUploadPart_ok {bucket key uploadID etag : String} {number : Int}
    (run : sv.gwUploadPart ctx bucket key uploadID number body s = .ok etag t) :
    ∃ s₁ c, Env.safeToken uploadID = true ∧
      sv.e.handlePartPut uploadID number body.bytes s.backend.disk = .ok () s₁ ∧
      c.bucket = bucket ∧ c.uploadID = uploadID ∧
      sv.e.applyUploadPart c s₁ = .ok () t.backend.disk := by
  obtain ⟨bytes, s₁, read, run₁⟩ := bind_ok.mp run
  obtain ⟨rfl, rfl⟩ := content_ok read
  obtain ⟨_, s₂, fanned, run₂⟩ := bind_ok.mp run₁
  obtain ⟨safe, staged⟩ := fanOut_ok fanned
  obtain ⟨_, s₃, committed, done⟩ := bind_ok.mp run₂
  cases done
  obtain ⟨op, own, upload⟩ := Gateway.uploadPart_names (g := sv.g) (e := sv.e) bucket key uploadID
    number body.bytes
  have applied := submit_ok (by rw [Command.onDisk, op]) committed
  rw [Env.applyDisk, op] at applied
  exact ⟨_, _, safe, staged, own, upload, applied⟩

end Server

/-! ### The bytes stored -/

namespace Env

variable {e : Env} {s s₁ t : Disk} {c : Command} {bytes : Bytes}

/-- A committed put stores the staged bytes. -/
theorem stored_of_put (tidy : e.Tidy s) (tame : Tame c.bucket) {token : String} {op : FilePath}
    (safe : safeToken token = true) (own : c.blobToken = token)
    (place : e.objectPath c.bucket c.key = .ok op)
    (staged : e.handleBlobPut token bytes s = .ok () s₁) (run : e.applyPutObject c s₁ = .ok () t) :
    content t op = some (.raw bytes) := by
  have tidy₁ : e.Tidy s₁ := by
    have kept := take_tidy tidy (i := .blob token bytes) trivial
    rwa [take, final_of_ok staged] at kept
  have payload := (wp_ok (handleBlobPut_wp token bytes) staged).2.1 safe
  obtain ⟨s₂, s₃, displace, install, record⟩ := applyPutObject_ok run
  obtain ⟨x, xBucket, xKey⟩ := site_of_write tame place record
  have names := tidy₁.load tame c.key
  have own' : x.op = op := by
    have object := x.op_eq
    rw [xBucket, xKey, place] at object
    exact (Except.ok.inj object).symm
  rw [← xBucket, ← xKey] at install
  rw [own] at install
  have area : e.area "staging" <:+ e.stagingPath token := area_staging (plain_of_safeToken safe)
  have current := installed_content x names.bucket names.head area payload displace install
  have hp := x.hp_eq
  rw [xBucket, xKey] at hp
  rw [← own', ← current]
  refine writeKeyMeta_content x ?_ record
  exact tidy₁.filed.load tame hp

/-- A committed part is stored as it was staged. -/
theorem stored_of_part (tame : Tame c.bucket) {id : String} {number : Int}
    (safe : safeToken id = true) (own : c.uploadID = id)
    (staged : e.handlePartPut id number bytes s = .ok () s₁)
    (run : e.applyUploadPart c s₁ = .ok () t) :
    content t (e.mpPartPath id number) = some (.raw bytes) := by
  have plain := plain_of_safeToken safe
  rw [handlePartPut, if_pos safe, streamTo_eq] at staged
  have payload := (wp_ok (writeThrough_wp (.raw bytes)) staged).2.1
  subst own
  have frame := wp_ok (uploadPart_framed tame plain s₁) run
  have area : e.area "mpstaging" <:+ e.mpPartPath c.uploadID number := by
    rw [mpPartPath_eq plain.2]
    exact List.suffix_cons _ _
  rw [← payload, content, content, frame.file _ fun mem => ?_]
  exact absurd (area_unique (recordCells_area tame plain.2 mem) area) (by decide)

end Env

namespace Frontend

variable {f : Frontend} {r : HTTPRequest} {s t : Session} {bucket key : String} {reply : Reply}

/-- A committed upload stores the body as it was sent. -/
theorem stored_of_serve {p : FilePath} (asks : IsUpload r bucket key) (place : StoredAt f r bucket key p)
    (same : f.handed s.backend r = r) (tidy : f.base.e.Tidy s.backend.disk) (tame : Tame bucket)
    (run : f.serve r s = .ok reply t) : content t.backend.disk p = some (.raw r.body.bytes) := by
  obtain ⟨rc, rfl, rfl, rfl, dispatched⟩ := dispatchObject_of_serve asks same run
  rw [Server.dispatchObject_put asks.method asks.bytes.1 asks.bytes.2 asks.noCopy] at dispatched
  cases place with
  | object whole place =>
    rw [if_neg (by simp [whole])] at dispatched
    obtain ⟨_, s₁, allowed, run₁⟩ := bind_ok.mp dispatched
    obtain rfl := Server.authorize_same allowed
    obtain ⟨res, s₂, put, done⟩ := bind_ok.mp run₁
    cases done
    obtain ⟨token, s₃, c, safe, staged, -, ownBucket, ownKey, own, applied⟩ :=
      Server.gwPutObject_ok put
    have home : c.bucket = rc.bucket := ownBucket
    have name : c.key = rc.key := ownKey
    rw [← home] at tame
    rw [← home, ← name] at place
    exact Env.stored_of_put tidy tame safe own place staged applied
  | @part number part numbered =>
    rw [if_pos part, Server.handle, Server.handleUploadPart] at dispatched
    obtain ⟨_, s₁, allowed, run₁⟩ := bind_ok.mp dispatched
    obtain rfl := Server.authorize_same allowed
    have parsed : f.server.atoi (rc.q "partNumber") = some number := numbered
    rw [parsed] at run₁
    dsimp only at run₁
    split at run₁
    · cases run₁
    rw [ReqCtx.header, if_pos asks.noCopy] at run₁
    obtain ⟨etag, s₂, put, done⟩ := bind_ok.mp run₁
    cases done
    obtain ⟨s₃, c, safe, staged, ownBucket, own, applied⟩ := Server.gwUploadPart_ok put
    rw [← ownBucket] at tame
    exact Env.stored_of_part tame safe own staged applied

theorem except_map_ok {ε α β : Type} {x : Except ε α} {g : α → β} {b : β} (h : x.map g = .ok b) :
    ∃ a, x = .ok a ∧ g a = b := by
  cases x with
  | error err => cases h
  | ok a => exact ⟨a, rfl, Except.ok.inj h⟩

/-- The small deployment with a hash that loses nothing. -/
def plainFrontend : Frontend := { toyFrontend with verifier := { toyVerifier with sha256 := id } }

/-- An empty bucket of `al`. -/
def bucketOfAl : Backend where
  disk := (smallEnv false).feed [.command { Small.create with bucket := "m", issuedBy := "al" }]
    (smallDisk false)
  accounts := [("al", { accessKeyID := "al", secretKey := "s", role := "user" })]

/-- What `al` signs: an upload of the one byte 7. -/
def signedHead : HTTPRequest where
  method := .put
  path := "/m/x"
  headers :=
    [("Authorization", ["AWS4-HMAC-SHA256 Credential=al/20240101/us-east-1/s3/aws4_request," ++
        "SignedHeaders=host;x-amz-content-sha256,Signature=4157533473"]),
     ("X-Amz-Date", ["20240101T000000Z"]), ("X-Amz-Content-Sha256", ["07"])]

/-- The upload as it is sent. -/
def signedUpload (body : Bytes) : HTTPRequest := { signedHead with body := { bytes := body } }

theorem signedUpload_asks (body : Bytes) : IsUpload (signedUpload body) "m" "x" where
  path := show splitPath signedHead.path = _ by decide +kernel
  checked := show unchecked signedHead = false by decide +kernel
  method := rfl
  named := by decide
  bytes := ⟨rfl, rfl⟩
  noCopy := show signedHead.headers.get _ = "" by decide +kernel

theorem signedUpload_declares (body : Bytes) :
    HeaderSigned (signedUpload body) ∧ DeclaresHash (signedUpload body) := by
  have head : HeaderSigned signedHead ∧ DeclaresHash signedHead := by
    unfold HeaderSigned DeclaresHash
    decide +kernel
  exact head

/-- Whatever the body is, `al` is its sender. -/
theorem signedUpload_accepted (body : Bytes) :
    ∃ res, plainFrontend.verify bucketOfAl.lookup (signedUpload body) = .ok res ∧
      res.identity = some ⟨"al", "al"⟩ := by
  have head : (plainFrontend.verify bucketOfAl.lookup signedHead).map (·.identity) =
      .ok (some ⟨"al", "al"⟩) := by
    decide +kernel
  have sender := (Verifier.identity_withBody signedHead { bytes := body }).trans head
  exact except_map_ok sender

/-- The request as its handler sees it. -/
def uploadOfAl (body : Bytes) : ReqCtx where
  r := signedUpload body
  bucket := "m"
  key := "x"
  who := { isAuth := true, account := "al", role := ((bucketOfAl.lookup "al").map (·.role)).getD "" }
  gctx := { account := "al", sourceIP := plainFrontend.server.clientIP (signedUpload body) }

theorem serve_signedUpload (body : Bytes) :
    plainFrontend.serve (signedUpload body) { backend := bucketOfAl } =
      plainFrontend.server.handlePutObject (uploadOfAl body) { backend := bucketOfAl } := by
  obtain ⟨res, accepted, sender⟩ := signedUpload_accepted body
  obtain ⟨signed, declared⟩ := signedUpload_declares body
  have asks := signedUpload_asks body
  have verified := server_verify accepted
  rw [sender] at verified
  have known : plainFrontend.server.authenticate bucketOfAl (signedUpload body) = .ok (uploadOfAl body) :=
    Server.authenticate_known verified asks.path
  have named : (uploadOfAl body).bucket ≠ "" ∧ (uploadOfAl body).key ≠ "" := asks.named
  have noCopy : (uploadOfAl body).header "X-Amz-Copy-Source" = "" := asks.noCopy
  rw [serve_upload (s := { backend := bucketOfAl }) asks
    (handed_of_declared signed declared accepted), known]
  dsimp only
  rw [Server.dispatch, if_neg named.1, if_neg named.2,
    Server.dispatchObject_put rfl asks.bytes.1 asks.bytes.2 noCopy]
  rfl

/-- The run of the upload commits, and stores this. -/
def Stores (body : Bytes) (c : Content) : Prop :=
  ∃ reply t, plainFrontend.serve (signedUpload body) { backend := bucketOfAl } = .ok reply t ∧
    content t.backend.disk ["x", "m", "data"] = some c

theorem stores_of_run {body : Bytes} {c : Content}
    (ran : (match plainFrontend.server.handlePutObject (uploadOfAl body) { backend := bucketOfAl } with
      | .ok _ t => content t.backend.disk ["x", "m", "data"]
      | .error _ _ => none) = some c) : Stores body c := by
  unfold Stores
  rw [serve_signedUpload]
  revert ran
  cases plainFrontend.server.handlePutObject (uploadOfAl body) { backend := bucketOfAl } with
  | ok reply t => exact fun stored => ⟨reply, t, rfl, stored⟩
  | error err t => exact fun none_ => nomatch none_

end Frontend

end D9Store
