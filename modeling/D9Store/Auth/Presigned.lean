import D9Store.Auth.SigV4

/-!
The stages of the check of a presigned URL.

`verifyPresigned` reads the signing parameters, then checks the time, then the key and the
signature. Each stage is a function of its own here, and the checked function is their sequence.
-/

namespace D9Store.Auth

open Text Posix

theorem wrap64_le {n : Int} (pos : 0 ≤ n) : wrap64 n ≤ n := by
  unfold wrap64
  omega

/-- The time checks of a presigned URL: the window begins a clock skew before the signing time and
ends after `X-Amz-Expires` seconds, as a duration of 64 bits. -/
def checkWindow (expires : String) (signingTime now : Int) : Except Err Unit :=
  if expires = "" then .error (errMalformedQuery "missing X-Amz-Expires")
  else
    match atoi expires with
    | none => .error (errMalformedQuery ("invalid X-Amz-Expires: " ++ expires))
    | some expiresSec =>
      if expiresSec ≤ 0 then .error (errMalformedQuery ("invalid X-Amz-Expires: " ++ expires))
      else if now < signingTime - maxClockSkew then .error (errDenied "Request is not yet valid")
      else if signingTime + wrap64 (expiresSec * second) < now then
        .error (errDenied "Request has expired")
      else .ok ()

variable {expires : String}

theorem checkWindow_ok_iff {signingTime now : Int} :
    checkWindow expires signingTime now = .ok () ↔
      ∃ seconds, atoi expires = some seconds ∧ 0 < seconds ∧ signingTime - maxClockSkew ≤ now ∧
        now ≤ signingTime + wrap64 (seconds * second) := by
  unfold checkWindow
  by_cases missing : expires = ""
  · have none : atoi "" = none := by decide
    simp [missing, none]
  rw [if_neg missing]
  cases atoi expires with
  | none => simp
  | some seconds =>
    dsimp only
    constructor
    · intro passed
      split at passed
      · cases passed
      split at passed
      · cases passed
      split at passed
      · cases passed
      exact ⟨seconds, rfl, by omega, by omega, by omega⟩
    · rintro ⟨_, ⟨⟩, positive, started, lasting⟩
      rw [if_neg (by omega), if_neg (by omega), if_neg (by omega)]

theorem checkWindow_error {signingTime now : Int} {err : Err}
    (h : checkWindow expires signingTime now = .error err) :
    ∃ msg, err = errMalformedQuery msg ∨ err = errDenied msg := by
  unfold checkWindow at h
  split at h
  · cases h
    exact ⟨_, .inl rfl⟩
  split at h
  · cases h
    exact ⟨_, .inl rfl⟩
  split at h
  · cases h
    exact ⟨_, .inl rfl⟩
  split at h
  · cases h
    exact ⟨_, .inr rfl⟩
  split at h
  · cases h
    exact ⟨_, .inr rfl⟩
  · cases h

namespace Verifier

variable (v : Verifier) (lookup : String → Option Account) (now : Int) (w : Wire) (r : HTTPRequest)

/-- The credential and the signing time a presigned URL presents. -/
def presignedScope : Except Err (CredentialScope × Int) :=
  let q := r.query.get
  if q "X-Amz-Algorithm" ≠ algorithm then
    .error (errMalformedQuery ("unsupported X-Amz-Algorithm: " ++ q "X-Amz-Algorithm"))
  else if q "X-Amz-Signature" = "" ∨ q "X-Amz-Credential" = "" ∨ q "X-Amz-SignedHeaders" = "" ∨
      q "X-Amz-Date" = "" then
    .error (errMalformedQuery "missing required query signing parameters")
  else
    match v.parseCredential (q "X-Amz-Credential") with
    | .error msg => .error (errMalformedQuery msg)
    | .ok cred =>
      match v.parseAmzDate (q "X-Amz-Date") with
      | none => .error (errMalformedQuery ("invalid X-Amz-Date: " ++ q "X-Amz-Date"))
      | some signingTime => .ok (cred, signingTime)

/-- The key and the signature of a presigned URL. -/
def checkPresigned (cred : CredentialScope) : Except Err VerifyResult :=
  match lookup cred.accessKeyID with
  | none => .error (errInvalidAccessKey cred.accessKeyID)
  | some account =>
    if v.presignedSignature w r account.secretKey cred ≠ r.query.get "X-Amz-Signature" then
      .error errSignatureMismatch
    else .ok { identity := some ⟨cred.accessKeyID, account.accessKeyID⟩ }

theorem verifyPresigned_eq : v.verifyPresigned lookup now w r =
    (v.presignedScope r >>= fun scope =>
      checkWindow (r.query.get "X-Amz-Expires") scope.2 now >>= fun _ =>
        v.checkPresigned lookup w r scope.1) := by
  unfold verifyPresigned presignedScope
  dsimp only
  split
  · rfl
  split
  · rfl
  cases v.parseCredential (r.query.get "X-Amz-Credential") with
  | error msg => rfl
  | ok cred =>
    cases v.parseAmzDate (r.query.get "X-Amz-Date") with
    | none => rfl
    | some signingTime =>
      simp only [except_ok_bind, checkWindow]
      by_cases missing : r.query.get "X-Amz-Expires" = ""
      · simp [missing]
      cases seconds : atoi (r.query.get "X-Amz-Expires") with
      | none => simp [missing]
      | some expiresSec =>
        by_cases positive : expiresSec ≤ 0
        · simp [missing, positive]
        by_cases early : now < signingTime - maxClockSkew
        · simp [missing, positive, early]
        by_cases late : signingTime + wrap64 (expiresSec * second) < now
        · simp [missing, positive, early, late]
        · simp only [missing, positive, early, late, if_false, except_ok_bind]
          rfl

section Stages

variable {v} {lookup} {w} {r} {res : VerifyResult} {cred : CredentialScope} {signingTime : Int}

theorem presignedScope_ok (h : v.presignedScope r = .ok (cred, signingTime)) :
    v.parseCredential (r.query.get "X-Amz-Credential") = .ok cred ∧
      v.parseAmzDate (r.query.get "X-Amz-Date") = some signingTime := by
  unfold presignedScope at h
  dsimp only at h
  split at h
  · cases h
  split at h
  · cases h
  split at h
  · cases h
  rename_i found parsed
  split at h
  · cases h
  rename_i time dated
  cases h
  exact ⟨parsed, dated⟩

theorem checkPresigned_ok (h : v.checkPresigned lookup w r cred = .ok res) :
    ∃ account, lookup cred.accessKeyID = some account ∧
      r.query.get "X-Amz-Signature" = v.presignedSignature w r account.secretKey cred ∧
      res = { identity := some ⟨cred.accessKeyID, account.accessKeyID⟩ } := by
  unfold checkPresigned at h
  split at h
  · cases h
  rename_i account known
  split at h
  · cases h
  rename_i same
  cases h
  exact ⟨account, known, (not_not.mp same).symm, rfl⟩

end Stages

theorem verifyPresigned_ok {res : VerifyResult} {lookup : String → Option Account} {now : Int}
    {w : Wire} {r : HTTPRequest} (accepted : v.verifyPresigned lookup now w r = .ok res) :
    ∃ cred signingTime, v.presignedScope r = .ok (cred, signingTime) ∧
      checkWindow (r.query.get "X-Amz-Expires") signingTime now = .ok () ∧
      v.checkPresigned lookup w r cred = .ok res := by
  rw [verifyPresigned_eq] at accepted
  obtain ⟨⟨cred, signingTime⟩, scope, rest⟩ := except_bind_ok accepted
  obtain ⟨_, inTime, signed⟩ := except_bind_ok rest
  exact ⟨cred, signingTime, scope, inTime, signed⟩

end Verifier

end D9Store.Auth
