import D9Store.Results.SignatureScope
import D9Store.Runs
import D9Store.S3Api.Effects
import D9Store.S3Api.Headers

/-!
Headers that a signature does not cover.

The verifier checks the signature over the headers the request names and asks for none in
particular, and the handlers read their arguments from every header. Whoever holds a presigned
request can add the `x-amz-` headers that its signer left out. Two accepted requests that differ in
such headers are one operation exactly when the headers say the same where its handler looks.
-/

namespace D9Store

open Auth Posix

/-! ### A front end with its verifier -/

/-- A front end that checks signatures with the given verifier, at one moment and for one client. -/
structure Frontend where
  base : Server
  verifier : Verifier
  now : Int
  wire : Wire
  /-- The host of the client's address. -/
  remoteHost : String := ""
  /-- `evalConditional`, from `If-None-Match`, `If-Modified-Since`, `If-Match` and
  `If-Unmodified-Since`. -/
  conditional : String → String → String → String → String → Stamp → Option Nat
  /-- `BasicAuth`, from the `Authorization` header. -/
  credentials : String → Option (String × String)
  /-- A streamed body, read to its end. -/
  drain : Signer × ChunkedReader → RequestBody

namespace Frontend

variable (f : Frontend)

def verify (lookup : String → Option Account) (r : HTTPRequest) : Except Err VerifyResult :=
  f.verifier.verify lookup f.now f.wire r

/-- `clientIP`. -/
def clientIP (r : HTTPRequest) : String :=
  let xff := r.headers.get "X-Forwarded-For"
  if xff = "" then f.remoteHost else Text.trimSpace ((Text.split xff ',').headD "")

def server : Server :=
  { f.base with
    verify := fun lookup r => (f.verify lookup r).map (·.identity)
    basicAuth := fun r => f.credentials (r.headers.get "Authorization")
    clientIP := f.clientIP
    evalConditional := fun h => f.conditional (h.get "If-None-Match") (h.get "If-Modified-Since")
      (h.get "If-Match") (h.get "If-Unmodified-Since") }

/-- The path is answered without a signature check. -/
def unchecked (r : HTTPRequest) : Bool :=
  r.path == "/healthz" || r.path == "/readyz" || Server.isConsole r

/-- The body that the signature check hands on. -/
def handedBody (b : Backend) (r : HTTPRequest) : RequestBody :=
  if unchecked r then r.body
  else
    match f.verify b.lookup r with
    | .ok { body := some reader, .. } => f.drain reader
    | _ => r.body

/-- The request as the handlers get it. -/
def handed (b : Backend) (r : HTTPRequest) : HTTPRequest := { r with body := f.handedBody b r }

def serve (r : HTTPRequest) : Api Reply := fun s => (f.server.serve (f.handed s.backend r)) s

/-- The signature covers the header. -/
def signs (r : HTTPRequest) (name : String) : Bool :=
  ((f.verifier.presented r).map (·.signedHeaders.contains (Text.toLower name))).getD false

/-- The header is no unsigned `x-amz-` header. -/
def fixed (r : HTTPRequest) (name : String) : Bool := !isAmz name || f.signs r name

end Frontend

/-! ### The signature check -/

namespace Auth.Verifier

variable {v : Verifier} {lookup : String → Option Account} {now : Int} {w : Wire}
  {r : HTTPRequest} {res : VerifyResult}

/-- What the check of a signature in the header results in when it passes. -/
def headerResult (v : Verifier) (found : CredentialScope × List String × String)
    (account : Account) (payload amzDate : String) (body : Bytes) : VerifyResult where
  identity := some ⟨found.1.accessKeyID, account.accessKeyID⟩
  body :=
    if payload == streamingPayload || payload == streamingPayloadTrailer then
      some (⟨v.deriveSigningKey account.secretKey found.1, utf8 found.1.scope, utf8 amzDate,
        v.hmacSHA256, v.sha256⟩, newChunkedReader body (utf8 found.2.2))
    else none

theorem verifyHeader_result (accepted : v.verifyHeader lookup now w r = .ok res) :
    ∃ found account, v.parseAuthorizationHeader (r.headers.get "Authorization") = .ok found ∧
      lookup found.1.accessKeyID = some account ∧
      res = v.headerResult found account (payloadOf r) (amzDateOf r) r.body.bytes := by
  unfold verifyHeader at accepted
  cases parsed : v.parseAuthorizationHeader (r.headers.get "Authorization") with
  | error msg => simp [parsed] at accepted
  | ok found =>
    simp only [parsed] at accepted
    cases known : lookup found.1.accessKeyID with
    | none => simp [known] at accepted
    | some account =>
      simp only [known] at accepted
      cases dated : v.parseAmzDate (amzDateOf r) with
      | none => simp [dated] at accepted
      | some signingTime =>
        simp only [dated] at accepted
        split at accepted
        · cases accepted
        split at accepted
        · cases accepted
        exact ⟨found, account, rfl, known, (Except.ok.inj accepted).symm⟩

theorem verifyPresigned_result (accepted : v.verifyPresigned lookup now w r = .ok res) :
    ∃ cred account, v.parseCredential (r.query.get "X-Amz-Credential") = .ok cred ∧
      lookup cred.accessKeyID = some account ∧
      res = { identity := some ⟨cred.accessKeyID, account.accessKeyID⟩ } := by
  obtain ⟨cred, signingTime, scope, -, checked⟩ := v.verifyPresigned_ok accepted
  obtain ⟨parsed, -⟩ := presignedScope_ok scope
  obtain ⟨account, known, -, rfl⟩ := checkPresigned_ok checked
  exact ⟨cred, account, parsed, known, rfl⟩

/-- Two accepted requests that differ in `x-amz-` headers belong to the same sender. -/
theorem identity_withHeaders {h : Values} {res' : VerifyResult}
    (plain : ∀ name, isAmz name = false → h.get name = r.headers.get name)
    (accepted : v.verify lookup now w r = .ok res)
    (accepted' : v.verify lookup now w (r.withHeaders h) = .ok res') :
    res'.identity = res.identity := by
  have authorization : (r.withHeaders h).headers.get "Authorization" =
    r.headers.get "Authorization" := plain _ (Server.plain_names _ (by simp))
  have query : (r.withHeaders h).query = r.query := rfl
  unfold verify at accepted accepted'
  rw [query, authorization] at accepted'
  by_cases header : r.query.get "X-Amz-Algorithm" = ""
  · rw [if_neg (not_not.mpr header)] at accepted accepted'
    split at accepted
    · rename_i starts
      rw [if_pos starts] at accepted'
      obtain ⟨found, account, parsed, known, rfl⟩ := verifyHeader_result accepted
      obtain ⟨found', account', parsed', known', rfl⟩ := verifyHeader_result accepted'
      rw [authorization, parsed, Except.ok.injEq] at parsed'
      subst parsed'
      rw [known, Option.some.injEq] at known'
      subst known'
      rfl
    · rename_i unsigned
      rw [if_neg unsigned] at accepted'
      rw [← Except.ok.inj accepted, ← Except.ok.inj accepted']
  · rw [if_pos header] at accepted accepted'
    obtain ⟨cred, account, parsed, known, rfl⟩ := verifyPresigned_result accepted
    obtain ⟨cred', account', parsed', known', rfl⟩ := verifyPresigned_result accepted'
    rw [query, parsed, Except.ok.injEq] at parsed'
    subst parsed'
    rw [known, Option.some.injEq] at known'
    subst known'
    rfl

/-- Who sends a request does not depend on its body. -/
theorem identity_withBody (r : HTTPRequest) (body : RequestBody) :
    (v.verify lookup now w { r with body }).map (·.identity) =
      (v.verify lookup now w r).map (·.identity) := by
  unfold verify
  by_cases header : r.query.get "X-Amz-Algorithm" = ""
  · rw [if_neg (not_not.mpr header), if_neg (not_not.mpr header)]
    split
    · have date : amzDateOf { r with body } = amzDateOf r := rfl
      have signature : ∀ signedHeaders payload amzDate scope key,
          v.computeSignature w { r with body } signedHeaders payload amzDate scope key =
            v.computeSignature w r signedHeaders payload amzDate scope key :=
        fun _ _ _ _ _ => rfl
      have payload : payloadOf { r with body } = payloadOf r := rfl
      unfold verifyHeader
      simp only [date, payload, signature]
      cases v.parseAuthorizationHeader (r.headers.get "Authorization") with
      | error msg => rfl
      | ok found =>
        dsimp only
        cases lookup found.1.accessKeyID with
        | none => rfl
        | some account =>
          dsimp only
          cases v.parseAmzDate (amzDateOf r) with
          | none => rfl
          | some signingTime =>
            dsimp only
            split
            · rfl
            split
            · rfl
            · rfl
    · rfl
  · rw [if_pos header, if_pos header]
    rfl

end Auth.Verifier

namespace Frontend

variable {f : Frontend} {r : HTTPRequest} {h : Values} {b : Backend} {res : VerifyResult}

/-! ### The request as its handler sees it -/

theorem server_verify {lookup : String → Option Account} (accepted : f.verify lookup r = .ok res) :
    f.server.verify lookup r = .ok res.identity := by
  simp [server, accepted, Except.map]

theorem conditions_withHeaders
    (plain : ∀ name, isAmz name = false → h.get name = r.headers.get name) (etag : String)
    (t : Stamp) : f.server.evalConditional h etag t = f.server.evalConditional r.headers etag t := by
  change f.conditional (h.get "If-None-Match") (h.get "If-Modified-Since") (h.get "If-Match")
    (h.get "If-Unmodified-Since") etag t = _
  rw [plain "If-None-Match" (Server.plain_names _ (by simp)),
    plain "If-Modified-Since" (Server.plain_names _ (by simp)),
    plain "If-Match" (Server.plain_names _ (by simp)),
    plain "If-Unmodified-Since" (Server.plain_names _ (by simp))]
  rfl

theorem authenticate_withHeaders {res' : VerifyResult}
    (plain : ∀ name, isAmz name = false → h.get name = r.headers.get name)
    (accepted : f.verify b.lookup r = .ok res)
    (accepted' : f.verify b.lookup (r.withHeaders h) = .ok res') :
    ∃ rc, f.server.authenticate b r = .ok rc ∧ rc.r = r ∧
      f.server.authenticate b (r.withHeaders h) = .ok (rc.withHeaders h) := by
  have sender := Verifier.identity_withHeaders plain accepted accepted'
  have forwarded : (r.withHeaders h).headers.get "X-Forwarded-For" =
    r.headers.get "X-Forwarded-For" := plain _ (Server.plain_names _ (by simp))
  have client : f.server.clientIP (r.withHeaders h) = f.server.clientIP r := by
    change f.clientIP (r.withHeaders h) = f.clientIP r
    unfold clientIP
    rw [forwarded]
  unfold Server.authenticate
  rw [server_verify accepted, server_verify accepted', sender, client]
  exact ⟨_, rfl, rfl, rfl⟩

theorem exists_of_isOk {ε α : Type} {x : Except ε α} (ok : x.isOk = true) : ∃ a, x = .ok a := by
  cases x with
  | error err => cases ok
  | ok a => exact ⟨a, rfl⟩

/-! ### A presigned upload -/

/-- The small deployment with the toy verifier. -/
def toyFrontend : Frontend where
  base := smallServer (smallEnv false)
  verifier := toyVerifier
  now := 5 * Auth.second
  wire := toyWire
  conditional _ _ _ _ _ _ := none
  credentials _ := none
  drain _ := {}

/-- A private object of `alice`, and a bucket of `al`. -/
def aliceAndAl : Backend where
  disk := (smallEnv false).feed
    [.command { Small.create with issuedBy := "alice" }, Small.payload 1,
      .command (Small.put "k" 1),
      .command { Small.create with bucket := "m", issuedBy := "al" }] (smallDisk false)
  accounts := [("al", { accessKeyID := "al", secretKey := "s", role := "user" })]

/-- An upload that `al` presigns over the host, sent with the given headers. -/
def presignedUpload (headers : Values) : HTTPRequest :=
  { presignedRead "al/20240101/us-east-1/s3/aws4_request" "host" with
    method := .put, path := "/m/x", headers }

/-- The operations that a run submits. -/
def submitted (headers : Values) : List Op :=
  (final (toyFrontend.serve (presignedUpload headers)) { backend := aliceAndAl }).effects.filterMap
    fun
      | .submit c => some c.op
      | _ => none

end Frontend

end D9Store
