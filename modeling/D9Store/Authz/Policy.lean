import D9Store.Json
import D9Store.S3Api.Authz
import D9Store.Text

/-!
Bucket policies (`internal/authz/authz.go`).

A policy text is parsed as JSON, decoded as a whole and then evaluated statement by statement.
Principal, action and resource are kept as JSON and decoded when a request is matched. The JSON
parser and the parsers of network addresses are those of the Go library.
-/

namespace D9Store

open Text

/-- `stringOrSlice.UnmarshalJSON`. -/
def stringOrSlice : Decoder (List String)
  | _, .null => some []
  | _, .arr js => (Decoder.slice Decoder.string "" {} (.arr js)).map Decoder.Slice.toList
  | _, .str s => some [s]
  | _, _ => none

/-- `condition`: expected values by operator and key. -/
abbrev Condition := List (String × List (String × List String))

/-- `statement`. -/
structure Statement where
  sid : String := ""
  effect : String := ""
  principal : Option Json := none
  action : Option Json := none
  resource : Option Json := none
  condition : Condition := []

namespace Statement

def decodeCondition : Decoder Condition := Decoder.map (Decoder.map stringOrSlice []) []

/-- The members a statement is decoded from. -/
def fields : List (String × Decoder Statement) :=
  [("Sid", Decoder.field sid (fun v st => { st with sid := v }) Decoder.string),
   ("Effect", Decoder.field effect (fun v st => { st with effect := v }) Decoder.string),
   ("Principal", Decoder.field principal (fun v st => { st with principal := v }) Decoder.raw),
   ("Action", Decoder.field action (fun v st => { st with action := v }) Decoder.raw),
   ("Resource", Decoder.field resource (fun v st => { st with resource := v }) Decoder.raw),
   ("Condition", Decoder.field condition (fun v st => { st with condition := v }) decodeCondition)]

def decode : Decoder Statement := Decoder.struct equalFold fields

end Statement

/-- `policyDoc`. -/
structure PolicyDoc where
  version : String := ""
  id : String := ""
  statement : Decoder.Slice Statement := {}

namespace PolicyDoc

def fields : List (String × Decoder PolicyDoc) :=
  [("Version", Decoder.field version (fun v doc => { doc with version := v }) Decoder.string),
   ("Id", Decoder.field id (fun v doc => { doc with id := v }) Decoder.string),
   ("Statement", Decoder.field statement (fun v doc => { doc with statement := v })
      (Decoder.slice Statement.decode {}))]

def decode : Decoder PolicyDoc := Decoder.struct equalFold fields

end PolicyDoc

/-! ### Principals, actions and resources -/

/-- `arnAccountID`. -/
def arnAccountID (arn : String) : String :=
  if hasPrefix arn "arn:" then ((split arn ':')[4]?).getD "" else ""

/-- `principalIDMatches`. -/
def principalIDMatches (entry : String) (req : PolicyRequest) : Bool :=
  let entry := trimSpace entry
  if entry = "*" then true
  else if !req.isAuthenticated || req.principal = "" then false
  else if entry = req.principal then true
  else if hasSuffix entry ":root" then arnAccountID entry == req.principal
  else if arnAccountID entry ≠ "" ∧ arnAccountID entry = req.principal then true
  else hasSuffix entry (":" ++ req.principal)

/-- `matchPrincipal`. -/
def matchPrincipal (raw : Option Json) (req : PolicyRequest) : Bool :=
  match raw with
  | none | some .null => false
  | some (.str s) => principalIDMatches s req
  | some j =>
    match Decoder.map stringOrSlice [] [] j with
    | some obj => obj.any fun x => x.2.any (principalIDMatches · req)
    | none => false

/-- `decodeStringOrSlice`. -/
def decodeStringOrSlice (raw : Option Json) : Option (List String) :=
  match raw with
  | none | some .null => none
  | some j => stringOrSlice [] j

/-- A glob against a text, as the regular expression it is compiled to: `*` and `?` stand for
anything but line breaks. -/
def glob (same : Char → Char → Bool) : List Char → List Char → Bool
  | [], s => s.isEmpty
  | p :: ps, s =>
    if p = '*' then stars (glob same ps) s
    else
      match s with
      | [] => false
      | c :: cs => (if p = '?' then c != '\n' else same p c) && glob same ps cs
where
  /-- `.*` followed by what `rest` accepts. -/
  stars (rest : List Char → Bool) : List Char → Bool
    | [] => rest []
    | c :: cs => rest (c :: cs) || (c != '\n' && stars rest cs)

/-- `wildcardMatch`. -/
def wildcardMatch (pattern s : String) : Bool := glob (· == ·) pattern.toList s.toList

/-- `wildcardMatchFold`. -/
def wildcardMatchFold (pattern s : String) : Bool :=
  glob (fun p c => foldRune p == foldRune c) pattern.toList s.toList

/-- `matchAction`. -/
def matchAction (raw : Option Json) (action : String) : Bool :=
  match decodeStringOrSlice raw with
  | none => false
  | some actions => actions.any (wildcardMatchFold · action)

def arnPrefix : String := "arn:aws:s3:::"

/-- `matchResource`. -/
def matchResource (raw : Option Json) (req : PolicyRequest) : Bool :=
  match decodeStringOrSlice raw with
  | none => false
  | some resources =>
    let target := if req.key ≠ "" then req.bucket ++ "/" ++ req.key else req.bucket
    resources.any fun r =>
      let r := trimSpace r
      r == "*" || wildcardMatch (trimPrefix r arnPrefix) target

/-! ### Conditions -/

/-- An address in its shortest form: four bytes where `To4` gives them, sixteen otherwise. -/
abbrev IPAddr := List UInt8

/-- `net.IPNet`: the network number in the same form, and a mask of its length. -/
structure Subnet where
  number : IPAddr
  mask : List UInt8
  deriving DecidableEq

/-- `IPNet.Contains`. -/
def Subnet.contains (n : Subnet) (ip : IPAddr) : Bool :=
  n.number.length == ip.length &&
    (List.zipWith (· &&& ·) n.number n.mask) == List.zipWith (· &&& ·) ip n.mask

/-- The library functions a policy is read with. -/
structure PolicyLib where
  /-- The value of a JSON text, `none` for text that is not JSON. -/
  parseJSON : String → Option Json
  parse_empty : parseJSON "" = none
  /-- `net.ParseIP`. -/
  parseIP : String → Option IPAddr
  /-- `net.ParseCIDR`. -/
  parseCIDR : String → Option Subnet

/-- `conditionKeyValue`. -/
def conditionKeyValue (key : String) (req : PolicyRequest) : Option String :=
  match toLower key with
  | "s3:prefix" => some req.key
  | "aws:username" | "aws:userid" | "aws:principalaccount" => some req.principal
  | "s3:x-amz-acl" => some ""
  | _ => none

/-- `evalString`. -/
def evalString (keys : List (String × List String)) (req : PolicyRequest)
    (m : String → String → Bool) : Bool :=
  keys.all fun x =>
    match conditionKeyValue x.1 req with
    | none => false
    | some v => x.2.any (m · v)

/-- `evalStringNegated`. -/
def evalStringNegated (keys : List (String × List String)) (req : PolicyRequest)
    (m : String → String → Bool) : Bool :=
  keys.all fun x =>
    match conditionKeyValue x.1 req with
    | none => false
    | some v => !x.2.any (m · v)

namespace PolicyLib

variable (lib : PolicyLib)

/-- `ipInAny`. -/
def ipInAny (ip : IPAddr) (cidrs : List String) : Bool :=
  cidrs.any fun c =>
    let c := trimSpace c
    if c.toList.contains '/' then
      match lib.parseCIDR c with
      | some network => network.contains ip
      | none => false
    else
      match lib.parseIP c with
      | some p => p == ip
      | none => false

/-- `evalIP`. -/
def evalIP (keys : List (String × List String)) (req : PolicyRequest) (negate : Bool) : Bool :=
  keys.all fun x =>
    if !equalFold x.1 "aws:SourceIp" then false
    else
      match lib.parseIP req.sourceIP with
      | none => false
      | some ip => if negate then !lib.ipInAny ip x.2 else lib.ipInAny ip x.2

/-- `matchConditionOp`. -/
def matchConditionOp (op : String) (keys : List (String × List String)) (req : PolicyRequest) :
    Bool :=
  match toLower op with
  | "ipaddress" => lib.evalIP keys req false
  | "notipaddress" => lib.evalIP keys req true
  | "stringequals" => evalString keys req (· == ·)
  | "stringnotequals" => evalStringNegated keys req (· == ·)
  | "stringlike" => evalString keys req wildcardMatch
  | "stringnotlike" => evalStringNegated keys req wildcardMatch
  | _ => false

/-- `matchConditions`. -/
def matchConditions (cond : Condition) (req : PolicyRequest) : Bool :=
  cond.all fun x => lib.matchConditionOp x.1 x.2 req

/-! ### Evaluation -/

/-- `statementMatches` up to the conditions. -/
def targets (st : Statement) (req : PolicyRequest) : Bool :=
  matchPrincipal st.principal req && matchAction st.action req.action && matchResource st.resource req

/-- `statementMatches`. -/
def statementMatches (st : Statement) (req : PolicyRequest) : Bool :=
  targets st req && lib.matchConditions st.condition req

/-- The loop of `EvaluatePolicy`. -/
def evaluateFrom (req : PolicyRequest) : Bool → List Statement → Decision
  | allow, [] => if allow then .allow else .none
  | allow, st :: rest =>
    if lib.statementMatches st req then
      match toLower (trimSpace st.effect) with
      | "deny" => .deny
      | "allow" => evaluateFrom req true rest
      | _ => evaluateFrom req allow rest
    else evaluateFrom req allow rest

/-- `EvaluatePolicy` on a JSON value. -/
def evaluateJson (j : Json) (req : PolicyRequest) : Decision :=
  match PolicyDoc.decode {} j with
  | none => .none
  | some doc => lib.evaluateFrom req false doc.statement.toList

/-- `EvaluatePolicy`. -/
def evaluatePolicy (policyJSON : String) (req : PolicyRequest) : Decision :=
  if policyJSON = "" then .none
  else
    match lib.parseJSON policyJSON with
    | none => .none
    | some j => lib.evaluateJson j req

end PolicyLib

/-- Access control with policies as the server evaluates them. -/
def Authz.ofLib (lib : PolicyLib) (upperTrimmed lowerTrimmed : String → String) : Authz where
  evaluatePolicy := lib.evaluatePolicy
  upperTrimmed := upperTrimmed
  lowerTrimmed := lowerTrimmed

end D9Store
