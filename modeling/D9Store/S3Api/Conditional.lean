import D9Store.Backend.Multipart
import D9Store.S3Api.Authz
import D9Store.Text.HttpDate
import D9Store.Text.Trim

/-!
Conditional reads (`evalConditional` in `internal/s3api/object.go`), and the header they are answered
with (`setObjectResponseHeaders` in `internal/s3api/respond.go`).
-/

namespace D9Store

open Text

/-- A second, in nanoseconds. -/
def second : Time := 10 ^ 9

/-- `http.ParseTime`: the fixed form is read here, whatever else is accepted by `lenient`. -/
def parseHTTPTime (lenient : String → Option Time) (text : String) : Option Time :=
  match HttpDate.read text.toList with
  | some t => some (t * second)
  | none => lenient text

/-- The `Last-Modified` header, absent for the zero time. -/
def lastModifiedHeader (lastModified : Time) : Option String :=
  if lastModified = 0 then none
  else some (String.ofList (HttpDate.write (lastModified / second).toNat))

/-- `strings.Contains`. -/
def contains (s sub : String) : Bool := decide (sub.toList <:+: s.toList)

/-- The closure `etagMatch` of `evalConditional`. -/
def etagMatch (etag want : String) : Bool :=
  let want := trimSpace want
  want == "*" || contains want etag || contains want (trimQuotes etag)

/-- `lastMod.After(t)` for the time in a header; a value that is no time is ignored. -/
def modifiedAfter (parseTime : String → Option Time) (lastMod : Time) (value : String) : Bool :=
  value != "" && (parseTime value).any fun t => decide (t < lastMod)

/-- `!lastMod.After(t)`, in the same way. -/
def notModifiedAfter (parseTime : String → Option Time) (lastMod : Time) (value : String) : Bool :=
  value != "" && (parseTime value).any fun t => !decide (t < lastMod)

/-- `evalConditional`. -/
def evalConditional (parseTime : String → Option Time) (h : Values) (etag : String) (lastMod : Time) :
    Nat :=
  let inm := h.get "If-None-Match"
  let im := h.get "If-Match"
  if inm ≠ "" ∧ etagMatch etag inm then 304
  else if inm = "" ∧ notModifiedAfter parseTime lastMod (h.get "If-Modified-Since") then 304
  else if im ≠ "" ∧ etagMatch etag im = false then 412
  else if modifiedAfter parseTime lastMod (h.get "If-Unmodified-Since") then 412
  else 0

end D9Store
