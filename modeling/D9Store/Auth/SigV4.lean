import D9Store.Auth.Chunked
import D9Store.S3Api.Authz
import D9Store.Text

/-!
Verification of signed requests (`internal/auth/sigv4.go`): the `Authorization` header and the
presigned query string.

The two hash functions, the parser of timestamps and the encoding of query strings are those of the
Go library. Times are nanoseconds; durations are signed 64-bit numbers of them, as in Go.
-/

namespace D9Store.Auth

open Text

def algorithm : String := "AWS4-HMAC-SHA256"

def unsignedPayload : String := "UNSIGNED-PAYLOAD"

def streamingPayload : String := "STREAMING-AWS4-HMAC-SHA256-PAYLOAD"

def streamingPayloadTrailer : String := "STREAMING-AWS4-HMAC-SHA256-PAYLOAD-TRAILER"

def emptyStringSHA256 : String :=
  "e3b0c44298fc1c149afbf4c8996fb92427ae41e4649b934ca495991b7852b855"

/-! ### Durations -/

/-- A number as a signed 64-bit one. -/
def wrap64 (d : Int) : Int := (d + 2 ^ 63) % 2 ^ 64 - 2 ^ 63

/-- `Time.Sub`: a difference out of range is the longest duration. -/
def timeSub (t u : Int) : Int := max (-2 ^ 63) (min (2 ^ 63 - 1) (t - u))

/-- `absDuration`. -/
def absDuration (d : Int) : Int := if d < 0 then wrap64 (-d) else d

def second : Int := 1000000000

def maxClockSkew : Int := 15 * 60 * second

/-! ### Requests and errors -/

/-- What of a request only its signature depends on. -/
structure Wire where
  host : String
  urlHost : String := ""
  scheme : String := ""
  escapedPath : String
  contentLength : Int := 0

def methodText : Method → String
  | .get => "GET"
  | .head => "HEAD"
  | .put => "PUT"
  | .post => "POST"
  | .delete => "DELETE"
  | .options => "OPTIONS"
  | .other name => name

def errSignatureMismatch : Err :=
  .api ⟨"SignatureDoesNotMatch",
    "The request signature we calculated does not match the signature you provided. Check your key and signing method.",
    403⟩

def errInvalidAccessKey (id : String) : Err :=
  .api ⟨"InvalidAccessKeyId",
    "The AWS Access Key Id you provided does not exist in our records: " ++ id, 403⟩

def errDenied (msg : String) : Err := .api ⟨"AccessDenied", msg, 403⟩

def errMalformedAuthHeader (msg : String) : Err :=
  .api ⟨"AuthorizationHeaderMalformed", msg, 400⟩

def errMalformedQuery (msg : String) : Err :=
  .api ⟨"AuthorizationQueryParametersError", msg, 400⟩

/-! ### What a request presents -/

structure CredentialScope where
  accessKeyID : String
  date : String
  region : String
  service : String
  scope : String
  deriving DecidableEq

/-- The configuration of a verifier and the library functions it uses. -/
structure Verifier where
  region : String
  service : String
  hmacSHA256 : Bytes → Bytes → Bytes
  sha256 : Bytes → Bytes
  /-- `time.Parse("20060102T150405Z", ·)`. -/
  parseAmzDate : String → Option Int
  /-- `url.Values.Encode`. -/
  encode : Values → String
  /-- The verb `%q`. -/
  quote : String → String

/-- The parts of an `Authorization` header. -/
structure AuthParts where
  credential : String := ""
  signedHeaders : String := ""
  signature : String := ""

/-- `splitSignedHeaders`. -/
def splitSignedHeaders (s : String) : List String :=
  ((split s ';').map fun p => toLower (Text.trimSpace p)).filter (· != "")

/-- One part of an `Authorization` header; a repeated one replaces the earlier. -/
def AuthParts.add (a : AuthParts) (part : String) : AuthParts :=
  let part := Text.trimSpace part
  if hasPrefix part "Credential=" then { a with credential := trimPrefix part "Credential=" }
  else if hasPrefix part "SignedHeaders=" then
    { a with signedHeaders := trimPrefix part "SignedHeaders=" }
  else if hasPrefix part "Signature=" then { a with signature := trimPrefix part "Signature=" }
  else a

namespace Verifier

variable (v : Verifier)

/-- `parseCredential`. -/
def parseCredential (cred : String) : Except String CredentialScope :=
  let malformed := "malformed credential " ++ v.quote cred
  match split cred '/' with
  | [accessKeyID, date, region, service, terminator] =>
    if terminator ≠ "aws4_request" then .error malformed
    else if [accessKeyID, date, region, service, terminator].contains "" then .error malformed
    else
      .ok { accessKeyID, date, region, service,
            scope := join [date, region, service, terminator] "/" }
  | _ => .error malformed

/-- `parseAuthorizationHeader`. -/
def parseAuthorizationHeader (h : String) : Except String (CredentialScope × List String × String) :=
  let parts := (split (Text.trimSpace (trimPrefix h algorithm)) ',').foldl AuthParts.add {}
  if parts.credential = "" ∨ parts.signedHeaders = "" ∨ parts.signature = "" then
    .error "missing Credential/SignedHeaders/Signature"
  else do
    let cred ← v.parseCredential parts.credential
    .ok (cred, splitSignedHeaders parts.signedHeaders, parts.signature)

end Verifier

/-! ### The canonical request -/

/-- Characters of a header name (`validHeaderFieldByte`). -/
def isTokenChar (c : Char) : Bool :=
  c.isAlphanum || "!#$%&'*+-.^_|~".toList.contains c || c.toNat == 96

/-- Upper case at the start and after a dash, lower case elsewhere. -/
def capitalise : Bool → List Char → List Char
  | _, [] => []
  | upper, c :: cs => (if upper then c.toUpper else c.toLower) :: capitalise (c == '-') cs

/-- `textproto.CanonicalMIMEHeaderKey`. -/
def canonicalMIMEHeaderKey (name : String) : String :=
  if name.toList.all isTokenChar then String.ofList (capitalise true name.toList) else name

/-- Runs of spaces become one. -/
def collapse : List Char → List Char
  | ' ' :: ' ' :: cs => collapse (' ' :: cs)
  | c :: cs => c :: collapse cs
  | [] => []

/-- `stripExcessSpaces`. -/
def stripExcessSpaces (s : String) : String :=
  String.ofList (collapse (trimBoth (· == ' ') s).toList)

/-- `portOnly`. -/
def portOnly (hostport : String) : String :=
  let cs := hostport.toList
  if !cs.contains ':' then ""
  else if cs.contains ']' then
    -- What follows the first `]:`, if there is one.
    match bracketPort cs with
    | some port => String.ofList port
    | none => ""
  else String.ofList ((cs.dropWhile (· != ':')).drop 1)
where
  bracketPort : List Char → Option (List Char)
    | ']' :: ':' :: rest => some rest
    | _ :: rest => bracketPort rest
    | [] => none

/-- `stripPort`. -/
def stripPort (hostport : String) : String :=
  let cs := hostport.toList
  if !cs.contains ':' then hostport
  else if cs.contains ']' then trimPrefix (String.ofList (cs.takeWhile (· != ']'))) "["
  else String.ofList (cs.takeWhile (· != ':'))

/-- `isDefaultPort`. -/
def isDefaultPort (scheme port : String) : Bool :=
  port == "" || (toLower scheme == "http" && port == "80") ||
    (toLower scheme == "https" && port == "443")

/-- `sanitizedHost`. -/
def sanitizedHost (w : Wire) : String :=
  let host := if w.host = "" then w.urlHost else w.host
  if portOnly host ≠ "" ∧ isDefaultPort w.scheme (portOnly host) then stripPort host else host

/-- The value a signed header is canonicalised to. -/
def canonicalValue (w : Wire) (r : HTTPRequest) (name : String) : String :=
  if name = "host" then stripExcessSpaces (sanitizedHost w)
  else if name = "content-length" then
    let value := r.headers.get "Content-Length"
    Text.trimSpace (stripExcessSpaces
      (if value = "" ∧ 0 ≤ w.contentLength then toString w.contentLength else value))
  else
    join (((r.headers.lookup (canonicalMIMEHeaderKey name)).getD []).map fun value =>
      Text.trimSpace (stripExcessSpaces value)) ","

/-- `canonicalHeaders`. -/
def canonicalHeaders (w : Wire) (r : HTTPRequest) (signedHeaders : List String) : String :=
  join (signedHeaders.map fun name => name ++ ":" ++ canonicalValue w r name ++ "\n") ""

/-- `canonicalURI`. -/
def canonicalURI (w : Wire) : String := if w.escapedPath = "" then "/" else w.escapedPath

def canonicalRequest (w : Wire) (r : HTTPRequest) (signedHeaders : List String)
    (hashedPayload canonQuery : String) : String :=
  join [methodText r.method, canonicalURI w, canonQuery, canonicalHeaders w r signedHeaders,
    join signedHeaders ";", hashedPayload] "\n"

def utf8 (s : String) : Bytes := s.toUTF8.toList

def hexText (bytes : Bytes) : String :=
  String.ofList ((hexEncode bytes).map fun b => Char.ofNat b.toNat)

namespace Verifier

variable (v : Verifier)

/-- `canonicalQuery`. -/
def canonicalQuery (q : Values) : String := replaceAll (v.encode q) '+' "%20"

/-- `deriveSigningKey`. -/
def deriveSigningKey (secret : String) (cred : CredentialScope) : Bytes :=
  let kDate := v.hmacSHA256 (utf8 ("AWS4" ++ secret)) (utf8 cred.date)
  let kRegion := v.hmacSHA256 kDate (utf8 cred.region)
  let kService := v.hmacSHA256 kRegion (utf8 cred.service)
  v.hmacSHA256 kService (utf8 "aws4_request")

/-- `computeSignatureWithQuery`. -/
def computeSignatureWithQuery (w : Wire) (r : HTTPRequest) (signedHeaders : List String)
    (hashedPayload amzDate scope : String) (signingKey : Bytes) (canonQuery : String) : String :=
  let request := canonicalRequest w r signedHeaders hashedPayload canonQuery
  let stringToSign := join [algorithm, amzDate, scope, hexText (v.sha256 (utf8 request))] "\n"
  hexText (v.hmacSHA256 signingKey (utf8 stringToSign))

/-- `computeSignature`. -/
def computeSignature (w : Wire) (r : HTTPRequest) (signedHeaders : List String)
    (hashedPayload amzDate scope : String) (signingKey : Bytes) : String :=
  v.computeSignatureWithQuery w r signedHeaders hashedPayload amzDate scope signingKey
    (v.canonicalQuery r.query)

end Verifier

/-! ### Verification -/

/-- `VerifyResult`: nobody for an anonymous request, and the reader of a streamed body. -/
structure VerifyResult where
  identity : Option Identity := none
  body : Option (Signer × ChunkedReader) := none

/-- The date a header-signed request gives. -/
def amzDateOf (r : HTTPRequest) : String :=
  if r.headers.get "X-Amz-Date" = "" then r.headers.get "Date" else r.headers.get "X-Amz-Date"

/-- The payload hash a header-signed request gives. -/
def payloadOf (r : HTTPRequest) : String :=
  if r.headers.get "X-Amz-Content-Sha256" = "" then emptyStringSHA256
  else r.headers.get "X-Amz-Content-Sha256"

namespace Verifier

variable (v : Verifier) (lookup : String → Option Account) (now : Int) (w : Wire)

/-- `verifyHeader`. -/
def verifyHeader (r : HTTPRequest) : Except Err VerifyResult :=
  match v.parseAuthorizationHeader (r.headers.get "Authorization") with
  | .error msg => .error (errMalformedAuthHeader msg)
  | .ok (cred, signedHeaders, providedSig) =>
    match lookup cred.accessKeyID with
    | none => .error (errInvalidAccessKey cred.accessKeyID)
    | some account =>
      match v.parseAmzDate (amzDateOf r) with
      | none => .error (errMalformedAuthHeader ("invalid X-Amz-Date: " ++ amzDateOf r))
      | some signingTime =>
        if absDuration (timeSub now signingTime) > maxClockSkew then
          .error (errDenied "Request date is too skewed from server time")
        else
          let signingKey := v.deriveSigningKey account.secretKey cred
          let expectedSig := v.computeSignature w r signedHeaders (payloadOf r) (amzDateOf r)
            cred.scope signingKey
          if expectedSig ≠ providedSig then .error errSignatureMismatch
          else
            let streaming := payloadOf r == streamingPayload ||
              payloadOf r == streamingPayloadTrailer
            .ok
              { identity := some ⟨cred.accessKeyID, account.accessKeyID⟩
                body :=
                  if streaming then
                    some (⟨signingKey, utf8 cred.scope, utf8 (amzDateOf r), v.hmacSHA256, v.sha256⟩,
                      newChunkedReader r.body.bytes (utf8 providedSig))
                  else none }

/-- The query without its signature. -/
def unsignedQuery (q : Values) : Values := q.filter (·.1 != "X-Amz-Signature")

/-- The signature a presigned request must have. -/
def presignedSignature (w : Wire) (r : HTTPRequest) (secret : String) (cred : CredentialScope) :
    String :=
  v.computeSignatureWithQuery w r (splitSignedHeaders (r.query.get "X-Amz-SignedHeaders"))
    unsignedPayload (r.query.get "X-Amz-Date") cred.scope (v.deriveSigningKey secret cred)
    (v.canonicalQuery (unsignedQuery r.query))

/-- `verifyPresigned`. -/
def verifyPresigned (r : HTTPRequest) : Except Err VerifyResult :=
  let q := r.query.get
  if q "X-Amz-Algorithm" ≠ algorithm then
    .error (errMalformedQuery ("unsupported X-Amz-Algorithm: " ++ q "X-Amz-Algorithm"))
  else if q "X-Amz-Signature" = "" ∨ q "X-Amz-Credential" = "" ∨ q "X-Amz-SignedHeaders" = "" ∨
      q "X-Amz-Date" = "" then
    .error (errMalformedQuery "missing required query signing parameters")
  else
    match v.parseCredential (q "X-Amz-Credential") with
    | .error msg => .error (errMalformedQuery msg)
    | .ok cred =>
      match v.parseAmzDate (q "X-Amz-Date") with
      | none => .error (errMalformedQuery ("invalid X-Amz-Date: " ++ q "X-Amz-Date"))
      | some signingTime =>
        if q "X-Amz-Expires" = "" then .error (errMalformedQuery "missing X-Amz-Expires")
        else
          let invalid := errMalformedQuery ("invalid X-Amz-Expires: " ++ q "X-Amz-Expires")
          match atoi (q "X-Amz-Expires") with
          | none => .error invalid
          | some expiresSec =>
            if expiresSec ≤ 0 then .error invalid
            else if now < signingTime - maxClockSkew then
              .error (errDenied "Request is not yet valid")
            else if signingTime + wrap64 (expiresSec * second) < now then
              .error (errDenied "Request has expired")
            else
              match lookup cred.accessKeyID with
              | none => .error (errInvalidAccessKey cred.accessKeyID)
              | some account =>
                if v.presignedSignature w r account.secretKey cred ≠ q "X-Amz-Signature" then
                  .error errSignatureMismatch
                else .ok { identity := some ⟨cred.accessKeyID, account.accessKeyID⟩ }

/-- `Verify`. -/
def verify (r : HTTPRequest) : Except Err VerifyResult :=
  if r.query.get "X-Amz-Algorithm" ≠ "" then v.verifyPresigned lookup now w r
  else if hasPrefix (r.headers.get "Authorization") algorithm then v.verifyHeader lookup now w r
  else .ok {}

end Verifier

/-! ### The scheme of a request -/

/-- What a signed request presents for verification. -/
structure Presented where
  presigned : Bool
  cred : CredentialScope
  signedHeaders : List String
  signature : String
  amzDate : String

/-- The signing information of a request, by the scheme it uses. -/
def Verifier.presented (v : Verifier) (r : HTTPRequest) : Option Presented :=
  if r.query.get "X-Amz-Algorithm" ≠ "" then
    (v.parseCredential (r.query.get "X-Amz-Credential")).toOption.map fun cred =>
      { presigned := true
        cred
        signedHeaders := splitSignedHeaders (r.query.get "X-Amz-SignedHeaders")
        signature := r.query.get "X-Amz-Signature"
        amzDate := r.query.get "X-Amz-Date" }
  else if hasPrefix (r.headers.get "Authorization") algorithm then
    (v.parseAuthorizationHeader (r.headers.get "Authorization")).toOption.map fun found =>
      { presigned := false
        cred := found.1
        signedHeaders := found.2.1
        signature := found.2.2
        amzDate := amzDateOf r }
  else none

end D9Store.Auth
