import D9Store.S3Select.Lexer

/-!
The parser of S3 Select (`internal/s3select/parser.go`).

It is a recursive descent over the array of tokens, with an index that `next` does not move past the
end marker. Every loop and every nesting takes a number of steps as an argument; `parse` gives one more
than there are tokens.
-/

namespace D9Store.S3Select

open Text Descent

variable {F : Type} (lib : Lib F)

/-- A parser of the package, with the text of its errors. -/
abbrev Parse (α : Type) : Type := Parser Token String α

/-- `parser.isKeyword`. -/
def isKeyword (kw : String) : Parse Bool := do
  let t ← peek
  return t.isKeyword kw

/-! ### Values -/

/-- The loop of `parseColRef`. -/
def colRefLoop : Nat → List String → Parse (List String)
  | 0, _ => spent
  | fuel + 1, parts => do
    let t ← peek
    if t = .dot then
      let _ ← next
      let nt ← peek
      match nt with
      | .ident text => do
        let _ ← next
        colRefLoop fuel (parts ++ [text])
      | .number text => do
        let _ ← next
        colRefLoop fuel (parts ++ [text])
      | _ => refuse "s3select: expected identifier after ."
    else pure parts

/-- `parseColRef`. -/
def parseColRef (fuel : Nat) : Parse (ValExpr F) := do
  let t ← next
  let parts ← colRefLoop fuel [t.text]
  return .colRef parts

/-- The types of `parseCast`. -/
def castType (name : String) : Option CastType :=
  if name ∈ ["INT", "INTEGER"] then some .int
  else if name ∈ ["FLOAT", "DECIMAL", "DOUBLE"] then some .float
  else if name ∈ ["STRING", "VARCHAR"] then some .string
  else none

/-- The type in a `CAST`. -/
def parseType : Parse CastType := do
  let t ← next
  match t with
  | .ident text =>
    match castType (toUpper text) with
    | some typ => pure typ
    | none => refuse ("s3select: unsupported CAST type " ++ lib.quote text)
  | _ => refuse "s3select: expected type in CAST"

/-- `parseCast`; `value` parses what is cast. -/
def parseCast (value : Parse (ValExpr F)) : Parse (ValExpr F) := do
  let _ ← next
  let t ← peek
  require (t == .lparen) "s3select: expected ( after CAST"
  let _ ← next
  let inner ← value
  let as_ ← isKeyword "AS"
  require as_ "s3select: expected AS in CAST"
  let _ ← next
  let typ ← parseType lib
  let t ← peek
  require (t == .rparen) "s3select: expected ) in CAST"
  let _ ← next
  return .castExpr inner typ

/-- `parseValue`. -/
def parseValue : Nat → Parse (ValExpr F)
  | 0 => spent
  | fuel + 1 => do
    let t ← peek
    match t with
    | .string text => do
      let _ ← next
      return .strLit text
    | .number text => do
      let _ ← next
      match lib.parseFloat (Utf8.encode text) with
      | none => refuse ("s3select: invalid number " ++ lib.quote text)
      | some f => pure (.numLit f)
    | .ident text =>
      if toUpper text = "TRUE" then do
        let _ ← next
        return .boolLit true
      else if toUpper text = "FALSE" then do
        let _ ← next
        return .boolLit false
      else if toUpper text = "CAST" then parseCast lib (parseValue fuel)
      else parseColRef fuel
    | t => refuse ("s3select: unexpected token " ++ lib.quote t.text ++ " in expression")

/-! ### Predicates -/

/-- Takes a `NOT` that stands before `LIKE`, and tells whether there was one. -/
def negated : Parse Bool := do
  let t ← peek
  if t.isKeyword "NOT" then
    let u ← Descent.look 1
    if u.isKeyword "LIKE" then
      let _ ← next
      return true
    else return false
  else return false

/-- What follows the first value of a predicate. -/
def comparison (fuel : Nat) (left : ValExpr F) : Parse (PredExpr F) := do
  let neg ← negated
  let t ← peek
  if t.isKeyword "LIKE" then
    let _ ← next
    let t ← next
    match t with
    | .string pattern =>
      match likeToRegexp pattern with
      | none => refuse "s3select: invalid LIKE pattern"
      | some re => pure (.likePred left re neg)
    | _ => refuse "s3select: LIKE requires a string pattern"
  else if neg then refuse "s3select: expected LIKE after NOT"
  else
    match t with
    | .op o => do
      let _ ← next
      let right ← parseValue lib fuel
      return .cmpPred left right o
    | _ => return .truthPred left

/-- `parsePrimaryPred`; `inner` parses what stands in parentheses. -/
def parsePrimaryPred (fuel : Nat) (inner : Parse (PredExpr F)) : Parse (PredExpr F) := do
  let t ← peek
  if t = .lparen then
    let _ ← next
    let p ← inner
    let t ← peek
    require (t == .rparen) "s3select: expected ) in WHERE clause"
    let _ ← next
    return p
  else
    let left ← parseValue lib fuel
    comparison lib fuel left

/-- `parseNot`. -/
def parseNot (primary : Parse (PredExpr F)) : Nat → Parse (PredExpr F)
  | 0 => spent
  | fuel + 1 => do
    let t ← peek
    if t.isKeyword "NOT" then
      let _ ← next
      let inner ← parseNot primary fuel
      return .notPred inner
    else primary

/-- The loops of `parseOr` and `parseAnd`: operands after the keyword, joined from the left. -/
def chain (kw : String) (join : PredExpr F → PredExpr F → PredExpr F)
    (operand : Parse (PredExpr F)) : Nat → PredExpr F → Parse (PredExpr F)
  | 0, _ => spent
  | fuel + 1, left => do
    let t ← peek
    if t.isKeyword kw then
      let _ ← next
      let right ← operand
      chain kw join operand fuel (join left right)
    else return left

/-- `parseAnd`. -/
def parseAnd (fuel : Nat) (primary : Parse (PredExpr F)) : Parse (PredExpr F) := do
  let left ← parseNot primary fuel
  chain "AND" .andPred (parseNot primary fuel) fuel left

/-- `parseOr`. -/
def parseOr : Nat → Parse (PredExpr F)
  | 0 => spent
  | fuel + 1 => do
    let left ← parseAnd fuel (parsePrimaryPred lib fuel (parseOr fuel))
    chain "OR" .orPred (parseAnd fuel (parsePrimaryPred lib fuel (parseOr fuel))) fuel left

/-! ### Clauses -/

/-- `optAlias`. -/
def optAlias : Parse String := do
  let t ← peek
  if t.isKeyword "AS" then
    let _ ← next
    let t ← next
    match t with
    | .ident text => return text
    | _ => return ""
  else
    match t with
    | .ident text =>
      if toUpper text ∈ ["FROM", "WHERE", "LIMIT", "AND", "OR", "AS", "LIKE", "NOT"] then return ""
      else
        let t ← next
        return t.text
    | _ => return ""

/-- The name of the item that stands after `n` others. -/
def itemName (e : ValExpr F) (alias_ : String) (n : Nat) : String :=
  let name :=
    if alias_ = "" then
      match e with
      | .colRef parts => colRefName parts
      | _ => ""
    else alias_
  if name = "" then "_" ++ toString (n + 1) else name

/-- Whether `COUNT` with a parenthesis stands here. -/
def counts : Parse Bool := do
  let t ← peek
  if t.isKeyword "COUNT" then
    let u ← Descent.look 1
    return u == .lparen
  else return false

/-- One turn of the loop of `parseProjection`. -/
def parseItem (fuel : Nat) (proj : Projection F) : Parse (Projection F) := do
  let count ← counts
  if count then
    let _ ← next
    let _ ← next
    let t ← peek
    require (t == .star) "s3select: only COUNT(*) is supported"
    let _ ← next
    let t ← peek
    require (t == .rparen) "s3select: expected ) after COUNT(*"
    let _ ← next
    return { proj with countStar := true, items := proj.items ++ [{ name := "_1" }] }
  else
    let t ← peek
    if t = .star then
      let _ ← next
      return { proj with star := true }
    else
      let e ← parseValue lib fuel
      let name ← optAlias
      return { proj with
        items := proj.items ++ [{ expr := some e, name := itemName e name proj.items.length }] }

def projectionLoop (fuel : Nat) : Nat → Projection F → Parse (Projection F)
  | 0, _ => spent
  | turns + 1, proj => do
    let proj ← parseItem lib fuel proj
    let t ← peek
    if t = .comma then
      let _ ← next
      projectionLoop fuel turns proj
    else return proj

/-- `parseProjection`. -/
def parseProjection (fuel : Nat) : Parse (Projection F) := do
  let proj ← projectionLoop lib fuel fuel {}
  require (!(proj.star && !proj.items.isEmpty)) "s3select: cannot mix * with other projections"
  return proj

/-- The bracket after the table: `[*]` or `[n]`. -/
def brackets : Parse Unit := do
  let t ← peek
  match t with
  | .star => do
    let _ ← next
    return ()
  | .number _ => do
    let _ ← next
    return ()
  | _ => return ()

def optBrackets : Parse Unit := do
  let t ← peek
  if t = .lbracket then
    let _ ← next
    brackets
    let t ← peek
    require (t == .rbracket) "s3select: expected ] in FROM clause"
    let _ ← next
    return ()
  else return ()

/-- The path after the table. -/
def fromPath : Nat → Parse Unit
  | 0 => spent
  | fuel + 1 => do
    let t ← peek
    if t = .dot then
      let _ ← next
      let t ← peek
      match t with
      | .ident _ => do
        let _ ← next
        fromPath fuel
      | _ => refuse "s3select: expected identifier after . in FROM clause"
    else return ()

/-- `parseFrom`. -/
def parseFrom (fuel : Nat) : Parse String := do
  let t ← next
  require (t.isKeyword "S3Object") "s3select: FROM target must be S3Object"
  optBrackets
  fromPath fuel
  optAlias

def parseWhere (fuel : Nat) : Parse (Option (PredExpr F)) := do
  let t ← peek
  if t.isKeyword "WHERE" then
    let _ ← next
    let w ← parseOr lib fuel
    return some w
  else return none

def parseLimit : Parse Int := do
  let t ← peek
  if t.isKeyword "LIMIT" then
    let _ ← next
    let t ← next
    match t with
    | .number text =>
      match atoi text with
      | some lim =>
        if lim < 0 then refuse ("s3select: invalid LIMIT value " ++ lib.quote text)
        else return lim
      | none => refuse ("s3select: invalid LIMIT value " ++ lib.quote text)
    | _ => refuse "s3select: expected number after LIMIT"
  else return -1

/-- The statement of `parse`, over its tokens. -/
def statement (fuel : Nat) : Parse (Query F) := do
  let select ← isKeyword "SELECT"
  require select "s3select: expected SELECT"
  let _ ← next
  let proj ← parseProjection lib fuel
  let from_ ← isKeyword "FROM"
  require from_ "s3select: expected FROM"
  let _ ← next
  let alias_ ← parseFrom fuel
  let where_ ← parseWhere lib fuel
  let limit ← parseLimit lib
  let t ← peek
  require (t == .eof) ("s3select: unexpected token " ++ lib.quote t.text)
  return { proj, alias_, where_, limit }

/-- The statement with as many steps as its tokens can ask for. -/
def parseTokens (toks : List Token) : Except (Stop String) (Query F × Nat) :=
  statement lib (toks.length + 1) toks 0

/-- `parse`. -/
def parse (sql : List Char) : Except (Stop String) (Query F) := do
  let toks ← lex lib sql
  let x ← parseTokens lib toks
  .ok x.1

end D9Store.S3Select
