import D9Store.Gateway.Calls

/-!
Requests and access control of the S3 front end (`internal/s3api/auth.go`, the ACL part of
`internal/authz`).

Signature checks, policy evaluation and the decoders of request bodies are parameters of a
server: nothing here depends on what they compute.
-/

namespace D9Store

def errNoSuchBucketPolicy : APIError :=
  ⟨"NoSuchBucketPolicy", "The bucket policy does not exist.", 404⟩
def errNoSuchCORS : APIError :=
  ⟨"NoSuchCORSConfiguration", "The CORS configuration does not exist.", 404⟩
def errNoSuchTagSet : APIError :=
  ⟨"NoSuchTagSet", "There is no tag set associated with this resource.", 404⟩
def errNoSuchObjectLock : APIError :=
  ⟨"ObjectLockConfigurationNotFoundError",
    "Object Lock configuration does not exist for this bucket.", 404⟩
def errInvalidArgument : APIError := ⟨"InvalidArgument", "Invalid Argument.", 400⟩
def errMalformedXML : APIError :=
  ⟨"MalformedXML", "The XML you provided was not well-formed or did not validate.", 400⟩
def errAccessDenied : APIError := ⟨"AccessDenied", "Access Denied.", 403⟩
def errNotImplemented : APIError := ⟨"NotImplemented", "This operation is not implemented.", 501⟩

/-! ### Requests -/

inductive Method where
  | get | head | put | post | delete | options
  | other (name : String)
  deriving DecidableEq

/-- A map of strings to the values given for them (`url.Values`, `http.Header`). -/
abbrev Values := List (String × List String)

namespace Values

/-- `queryValues.has`. -/
def has (q : Values) (k : String) : Bool := (q.lookup k).isSome

/-- The first value, `""` when there is none (`queryValues.get`, `Header.Get`). -/
def get (q : Values) (k : String) : String := ((q.lookup k).bind List.head?).getD ""

end Values

/-- A request body: the bytes that arrive, and the error that ends them if one does. -/
structure RequestBody where
  bytes : Bytes := []
  failure : Option Err := none

/-- An HTTP request, with its body as the signature check hands it on. -/
structure HTTPRequest where
  method : Method
  path : String
  query : Values := []
  headers : Values := []
  body : RequestBody := {}

/-- `splitPath`. -/
def splitPath (path : String) : String × String :=
  let p := if path.toList.head? = some '/' then path.toList.drop 1 else path.toList
  let (bucket, rest) := p.span (· != '/')
  (String.ofList bucket, String.ofList (rest.drop 1))

/-! ### Actions -/

inductive Action where
  | listBucket | getObject | putObject | deleteObject | getAcl | putAcl | getBucketAcl
  | putBucketAcl | createBucket | deleteBucket | getTagging | putTagging | bucketPolicy
  | getBucketPol
  deriving DecidableEq

namespace Action

/-- The name a policy knows the action by. -/
def name : Action → String
  | listBucket => "s3:ListBucket"
  | getObject => "s3:GetObject"
  | putObject => "s3:PutObject"
  | deleteObject => "s3:DeleteObject"
  | getAcl => "s3:GetObjectAcl"
  | putAcl => "s3:PutObjectAcl"
  | getBucketAcl => "s3:GetBucketAcl"
  | putBucketAcl => "s3:PutBucketAcl"
  | createBucket => "s3:CreateBucket"
  | deleteBucket => "s3:DeleteBucket"
  | getTagging => "s3:GetObjectTagging"
  | putTagging => "s3:PutObjectTagging"
  | bucketPolicy => "s3:PutBucketPolicy"
  | getBucketPol => "s3:GetBucketPolicy"

/-- `isObjectAction`. -/
def isObjectAction : Action → Bool
  | getObject | putObject | deleteObject | getAcl | putAcl | getTagging | putTagging => true
  | _ => false

/-- `permForAction`. -/
def perm : Action → String
  | getObject | listBucket | getTagging => "READ"
  | putObject | deleteObject | putTagging => "WRITE"
  | getAcl | getBucketAcl => "READ_ACP"
  | putAcl | putBucketAcl => "WRITE_ACP"
  | _ => "FULL_CONTROL"

end Action

/-! ### Access control lists -/

def groupAllUsers : String := "http://acs.amazonaws.com/groups/global/AllUsers"

def groupAuthenticatedUsers : String :=
  "http://acs.amazonaws.com/groups/global/AuthenticatedUsers"

/-- Who sends a request, as the server knows it. -/
structure Caller where
  isAuth : Bool := false
  account : String := ""
  role : String := ""
  deriving DecidableEq

/-- Whom a signature names. -/
structure Identity where
  accessKeyID : String
  account : String
  deriving DecidableEq

/-- `granteeMatches`. -/
def Grantee.isHeldBy (gr : Grantee) (who : Caller) : Bool :=
  if gr.type = "CanonicalUser" then who.account != "" && gr.id == who.account
  else if gr.type = "Group" then
    gr.uri == groupAllUsers || (gr.uri == groupAuthenticatedUsers && who.isAuth)
  else false

/-- `policy.Decision`. -/
inductive Decision where
  | none | allow | deny
  deriving DecidableEq

/-- `authz.Request`. -/
structure PolicyRequest where
  principal : String
  isAuthenticated : Bool
  action : String
  bucket : String
  key : String
  sourceIP : String
  deriving DecidableEq

/-- `authz` with the text functions it uses: the upper-case form of a permission and the
lower-case form of a canned ACL's name, both without surrounding space. -/
structure Authz where
  evaluatePolicy : String → PolicyRequest → Decision
  upperTrimmed : String → String
  lowerTrimmed : String → String

namespace Authz

variable (az : Authz)

/-- `permImplies`. -/
def permImplies (held want : String) : Bool :=
  az.upperTrimmed held == "FULL_CONTROL" || az.upperTrimmed held == az.upperTrimmed want

/-- `CheckACL`. -/
def checkACL (acl : Option ACL) (who : Caller) (required : String) : Bool :=
  match acl with
  | Option.none => false
  | some acl =>
    (who.account != "" && who.account == acl.owner.id) ||
      acl.grants.any fun g => az.permImplies g.permission required && g.grantee.isHeldBy who

def userGrant (o : Owner) (perm : String) : Grant :=
  { grantee := { type := "CanonicalUser", id := o.id, displayName := o.displayName }
    permission := perm }

def groupGrant (uri perm : String) : Grant :=
  { grantee := { type := "Group", uri }, permission := perm }

/-- `CannedACL`. -/
def cannedACL (name : String) (owner bucketOwner : Owner) : ACL :=
  let other := bucketOwner.id != "" && bucketOwner.id != owner.id
  let more : List Grant :=
    match az.lowerTrimmed name with
    | "public-read" => [groupGrant groupAllUsers "READ"]
    | "public-read-write" => [groupGrant groupAllUsers "READ", groupGrant groupAllUsers "WRITE"]
    | "authenticated-read" => [groupGrant groupAuthenticatedUsers "READ"]
    | "bucket-owner-read" => if other then [userGrant bucketOwner "READ"] else []
    | "bucket-owner-full-control" => if other then [userGrant bucketOwner "FULL_CONTROL"] else []
    | _ => []
  { owner, grants := userGrant owner "FULL_CONTROL" :: more }

/-- The policy's decision; a bucket without a policy has none. -/
def decision (bm : BucketMeta) (who : Caller) (sourceIP : String) (action : Action)
    (bucket key : String) : Decision :=
  if bm.policy = "" then .none
  else az.evaluatePolicy bm.policy
    { principal := who.account, isAuthenticated := who.isAuth, action := action.name, bucket, key,
      sourceIP }

/-- `authorize`, given what the storage tier answers for the bucket's metadata and for the
latest version of the key. -/
def authorize (who : Caller) (sourceIP bucket key : String) (action : Action)
    (bm : Except Err BucketMeta) (latest : Except Err ObjectMeta) : Bool :=
  if who.role = "admin" then true
  else
    match bm with
    | .error _ => !(action == .createBucket && !who.isAuth)
    | .ok bm =>
      if who.isAuth && bm.owner == who.account then true
      else
        match az.decision bm who sourceIP action bucket key with
        | .deny => false
        | .allow => true
        | .none =>
          let acl :=
            if action.isObjectAction && key != "" then
              match latest with
              | .ok om => om.acl.or bm.acl
              | .error _ => bm.acl
            else bm.acl
          az.checkACL acl who action.perm

end Authz

end D9Store
