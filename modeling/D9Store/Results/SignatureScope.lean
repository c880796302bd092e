import D9Store.Auth.Presigned

/-!
What an accepted signature stands for.

The verifier checks that the key is known, that the signature is the one computed with it, and the
time window. It compares neither the scope with its own region and service, nor the scope's date
with that of the request, and does not ask for the host among the signed headers. The clock skew of
a header-signed request is computed with 64 bits, where the distance to a date that lies far enough
ahead is negative.
-/

namespace D9Store.Auth

open Text

namespace Verifier

variable (v : Verifier)

/-- The signature that the request must have under a secret. -/
def expected (w : Wire) (r : HTTPRequest) (p : Presented) (secret : String) : String :=
  if p.presigned then v.presignedSignature w r secret p.cred
  else v.computeSignature w r p.signedHeaders (payloadOf r) p.amzDate p.cred.scope
    (v.deriveSigningKey secret p.cred)

/-- The time window of the scheme: within the clock skew of the signing time, or from there on for
as many seconds as the request says. -/
def InWindow (now : Int) (r : HTTPRequest) (p : Presented) : Prop :=
  ∃ signingTime, v.parseAmzDate p.amzDate = some signingTime ∧
    if p.presigned then
      signingTime - maxClockSkew ≤ now ∧
        ∃ seconds, atoi (r.query.get "X-Amz-Expires") = some seconds ∧ 0 < seconds ∧
          now ≤ signingTime + seconds * second
    else |now - signingTime| ≤ maxClockSkew

/-- Everything a signature should stand for. -/
structure Enforced (lookup : String → Option Account) (now : Int) (w : Wire) (r : HTTPRequest)
    (p : Presented) : Prop where
  region : p.cred.region = v.region
  service : p.cred.service = v.service
  date : p.cred.date = (p.amzDate.take 8).toString
  host : "host" ∈ p.signedHeaders
  signed : ∃ account, lookup p.cred.accessKeyID = some account ∧
    p.signature = v.expected w r p account.secretKey
  window : v.InWindow now r p

/-- What of it the verifier does not look at. A header-signed request may also be dated 2⁶³
nanoseconds ahead. -/
structure Fits (now : Int) (p : Presented) : Prop where
  region : p.cred.region = v.region
  service : p.cred.service = v.service
  date : p.cred.date = (p.amzDate.take 8).toString
  host : "host" ∈ p.signedHeaders
  near : p.presigned = false → ∀ t, v.parseAmzDate p.amzDate = some t → t - now < 2 ^ 63

/-! ### The clock -/

theorem skew_le_iff {d : Int} :
    absDuration (max (-2 ^ 63) (min (2 ^ 63 - 1) d)) ≤ maxClockSkew ↔
      |d| ≤ maxClockSkew ∨ d ≤ -2 ^ 63 := by
  have skew : maxClockSkew = 900000000000 := rfl
  unfold absDuration wrap64
  rw [skew, abs_le]
  split <;> omega

/-! ### What acceptance tells -/

variable {v} {lookup : String → Option Account} {now : Int} {w : Wire} {r : HTTPRequest}
    {res : VerifyResult}
  {id : Identity}

/-- What the verifier has checked of an accepted request. -/
structure Checked (v : Verifier) (lookup : String → Option Account) (now : Int) (w : Wire)
    (r : HTTPRequest) (p : Presented) : Prop where
  signed : ∃ account, lookup p.cred.accessKeyID = some account ∧
    p.signature = v.expected w r p account.secretKey
  clock : v.InWindow now r p ∨
    p.presigned = false ∧ ∃ t, v.parseAmzDate p.amzDate = some t ∧ 2 ^ 63 ≤ t - now

theorem checked_of_header (signed : r.query.get "X-Amz-Algorithm" = "")
    (starts : hasPrefix (r.headers.get "Authorization") algorithm = true)
    (accepted : v.verifyHeader lookup now w r = .ok res) :
    ∃ p, v.presented r = some p ∧ Checked v lookup now w r p := by
  unfold verifyHeader at accepted
  cases parsed : v.parseAuthorizationHeader (r.headers.get "Authorization") with
  | error msg => simp [parsed] at accepted
  | ok found =>
    obtain ⟨cred, signedHeaders, providedSig⟩ := found
    simp only [parsed] at accepted
    cases known : lookup cred.accessKeyID with
    | none => simp [known] at accepted
    | some account =>
      simp only [known] at accepted
      cases dated : v.parseAmzDate (amzDateOf r) with
      | none => simp [dated] at accepted
      | some signingTime =>
        simp only [dated] at accepted
        split at accepted
        · cases accepted
        · rename_i near
          split at accepted
          · cases accepted
          · rename_i same
            refine ⟨⟨false, cred, signedHeaders, providedSig, amzDateOf r⟩, ?_, ?_, ?_⟩
            · simp [presented, signed, starts, parsed, Except.toOption]
            · exact ⟨account, known, (not_not.mp same).symm⟩
            · rcases skew_le_iff.mp (not_lt.mp near) with inside | ahead
              · exact .inl ⟨signingTime, dated, inside⟩
              · exact .inr ⟨rfl, signingTime, dated, by omega⟩

theorem checked_of_presigned (signed : r.query.get "X-Amz-Algorithm" ≠ "")
    (accepted : v.verifyPresigned lookup now w r = .ok res) :
    ∃ p, v.presented r = some p ∧ Checked v lookup now w r p := by
  obtain ⟨cred, signingTime, scope, inTime, checked⟩ := v.verifyPresigned_ok accepted
  obtain ⟨parsed, dated⟩ := presignedScope_ok scope
  obtain ⟨seconds, expires, positive, started, lasting⟩ := checkWindow_ok_iff.mp inTime
  obtain ⟨account, known, same, -⟩ := checkPresigned_ok checked
  refine ⟨⟨true, cred, splitSignedHeaders (r.query.get "X-Amz-SignedHeaders"),
    r.query.get "X-Amz-Signature", r.query.get "X-Amz-Date"⟩, ?_, ?_, ?_⟩
  · simp [presented, signed, parsed, Except.toOption]
  · exact ⟨account, known, same⟩
  · have longer : wrap64 (seconds * second) ≤ seconds * second :=
      wrap64_le (by unfold second; omega)
    exact .inl ⟨signingTime, dated, by simpa using started, seconds, expires, positive, by omega⟩

/-- A request that is accepted as somebody's has passed the verifier's checks. -/
theorem checked_of_verify (accepted : v.verify lookup now w r = .ok res)
    (somebody : res.identity = some id) :
    ∃ p, v.presented r = some p ∧ Checked v lookup now w r p := by
  unfold verify at accepted
  split at accepted
  · rename_i signed
    exact checked_of_presigned signed accepted
  · rename_i unsigned
    split at accepted
    · rename_i starts
      exact checked_of_header (not_not.mp unsigned) starts accepted
    · cases accepted
      cases somebody

/-- A request that is accepted as somebody's is signed for the verifier's region and service, on
the day of its date, over its host, with a known key and inside the scheme's time window, exactly
if its scope and signed headers say so and, signed in the header, it is not dated 2⁶³ nanoseconds
ahead. -/
theorem accepted_enforced_iff {res : VerifyResult} (accepted : v.verify lookup now w r = .ok res)
    (somebody : res.identity = some id) :
    (∃ p, v.presented r = some p ∧ v.Enforced lookup now w r p) ↔
      ∃ p, v.presented r = some p ∧ v.Fits now p := by
  obtain ⟨p, found, checked⟩ := checked_of_verify accepted somebody
  constructor
  · rintro ⟨p', found', h⟩
    refine ⟨p', found', h.region, h.service, h.date, h.host, fun scheme t dated => ?_⟩
    obtain ⟨t', dated', inside⟩ := h.window
    rw [dated, Option.some.injEq] at dated'
    subst dated'
    rw [scheme] at inside
    have skew : maxClockSkew = 900000000000 := rfl
    have bounds := abs_le.mp (by simpa using inside)
    omega
  · rintro ⟨p', found', h⟩
    rw [found, Option.some.injEq] at found'
    subst found'
    refine ⟨p, found, h.region, h.service, h.date, h.host, checked.signed, ?_⟩
    rcases checked.clock with inside | ⟨scheme, t, dated, ahead⟩
    · exact inside
    · have near := h.near scheme t dated
      omega

end Verifier

/-! ### Two signed requests -/

/-- A digest that shows its key. -/
def toyHash (key _data : Bytes) : Bytes := key

/-- A verifier that knows two dates, some 380 years apart. -/
def toyVerifier : Verifier where
  region := "us-east-1"
  service := "s3"
  hmacSHA256 := toyHash
  sha256 _ := []
  parseAmzDate text :=
    if text = "20240101T000000Z" then some 0
    else if text = "24000101T000000Z" then some 12000000000000000000
    else none
  encode q := join (q.map (·.1)) "&"
  quote text := text

def toyWire : Wire := { host := "s3.local", escapedPath := "/b/k" }

def toyLookup (accessKeyID : String) : Option Account :=
  if accessKeyID = "al" then some { accessKeyID, secretKey := "s", role := "user" } else none

/-- A read that `al` presigns under the given scope, for a minute. -/
def presignedRead (credential signedHeaders : String) : HTTPRequest where
  method := .get
  path := "/b/k"
  query :=
    [("X-Amz-Algorithm", [algorithm]), ("X-Amz-Credential", [credential]),
     ("X-Amz-Date", ["20240101T000000Z"]), ("X-Amz-Expires", ["60"]),
     ("X-Amz-SignedHeaders", [signedHeaders]), ("X-Amz-Signature", [hexText (utf8 "AWS4s")])]

/-- Whom the verifier takes for the sender, five seconds into 2024. -/
def senderOf (r : HTTPRequest) : Option Identity :=
  (toyVerifier.verify toyLookup (5 * second) toyWire r).toOption.bind (·.identity)

theorem accepted_of_senderOf {r : HTTPRequest} {id : Identity} (h : senderOf r = some id) :
    ∃ res, toyVerifier.verify toyLookup (5 * second) toyWire r = .ok res ∧
      res.identity = some id := by
  unfold senderOf at h
  cases verified : toyVerifier.verify toyLookup (5 * second) toyWire r with
  | error err =>
    rw [verified] at h
    cases h
  | ok res =>
    rw [verified] at h
    exact ⟨res, rfl, h⟩

/-- Signed as the verifier expects it. -/
def localRead : HTTPRequest := presignedRead "al/20240101/us-east-1/s3/aws4_request" "host"

/-- Signed for another region and service, on another day and without the host. -/
def foreignRead : HTTPRequest := presignedRead "al/20230101/eu-north-1/iam/aws4_request" "range"

/-- Signed in the header as expected, but some 380 years ahead. -/
def futureRead : HTTPRequest where
  method := .get
  path := "/b/k"
  headers :=
    [("Authorization", ["AWS4-HMAC-SHA256 Credential=al/24000101/us-east-1/s3/aws4_request," ++
        "SignedHeaders=host,Signature=4157533473"]),
     ("X-Amz-Date", ["24000101T000000Z"])]

theorem localRead_enforced :
    ∃ p, toyVerifier.presented localRead = some p ∧
      toyVerifier.Enforced toyLookup (5 * second) toyWire localRead p := by
  have sender : senderOf localRead = some ⟨"al", "al"⟩ := by decide +kernel
  obtain ⟨res, accepted, somebody⟩ := accepted_of_senderOf sender
  have shown : (toyVerifier.presented localRead).any (fun p =>
      decide (p.presigned = true ∧ p.cred.region = toyVerifier.region ∧
        p.cred.service = toyVerifier.service ∧ p.cred.date = (p.amzDate.take 8).toString ∧
        "host" ∈ p.signedHeaders)) = true := by
    decide +kernel
  obtain ⟨p, found⟩ : ∃ p, toyVerifier.presented localRead = some p := by
    refine Option.ne_none_iff_exists'.mp fun none_ => ?_
    simp [none_] at shown
  rw [found, Option.any_some, decide_eq_true_eq] at shown
  obtain ⟨scheme, region, service, date, host⟩ := shown
  refine (Verifier.accepted_enforced_iff accepted somebody).mpr
    ⟨p, found, region, service, date, host, fun other => ?_⟩
  rw [scheme] at other
  cases other

theorem futureRead_run :
    senderOf futureRead = some ⟨"al", "al"⟩ ∧
      (toyVerifier.presented futureRead).all (fun p => decide (p.presigned = false ∧
        toyVerifier.parseAmzDate p.amzDate = some 12000000000000000000)) = true := by
  decide +kernel

/-- Both requests are accepted as `al`'s, and neither signature stands for what it should. -/
theorem foreign_and_future_accepted :
    senderOf foreignRead = some ⟨"al", "al"⟩ ∧
      (∀ p, toyVerifier.presented foreignRead = some p →
        p.cred.region ≠ toyVerifier.region ∧ p.cred.service ≠ toyVerifier.service ∧
          p.cred.date ≠ (p.amzDate.take 8).toString ∧ "host" ∉ p.signedHeaders) ∧
    senderOf futureRead = some ⟨"al", "al"⟩ ∧
      ∀ p, toyVerifier.presented futureRead = some p →
        ¬toyVerifier.InWindow (5 * second) futureRead p := by
  refine ⟨by decide +kernel, fun p found => ?_, futureRead_run.1, ?_⟩
  · have shown : (toyVerifier.presented foreignRead).all (fun p =>
        decide (p.cred.region ≠ toyVerifier.region ∧ p.cred.service ≠ toyVerifier.service ∧
          p.cred.date ≠ (p.amzDate.take 8).toString ∧ "host" ∉ p.signedHeaders)) = true := by
      decide +kernel
    rwa [found, Option.all_some, decide_eq_true_eq] at shown
  · rintro p found ⟨t, dated, inside⟩
    have shown := futureRead_run.2
    rw [found, Option.all_some, decide_eq_true_eq] at shown
    rw [shown.2, Option.some.injEq] at dated
    have units : second = 1000000000 ∧ maxClockSkew = 900000000000 := ⟨rfl, rfl⟩
    rw [shown.1, if_neg Bool.false_ne_true, units.1, units.2, abs_le] at inside
    omega

end D9Store.Auth
