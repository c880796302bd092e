import D9Store.Backend.Reads
import D9Store.Text.Trim

/-!
Ranges of bytes on their way from a request to the storage engine (`parseRangeHeader` in
`internal/s3api/object.go`, `GetObject` in `internal/cluster/client.go`, `parseRange` in
`internal/storage/node_http.go`).

The front end parses the header of the request, the client writes a new one, and the node parses that
one again.
-/

namespace D9Store

open Text

/-- The two numbers of a header with one range, as texts. -/
def rangeParts (h : String) : Option (String × String) :=
  if hasPrefix h "bytes=" then
    let spec := (trimPrefix h "bytes=").toList
    if ',' ∈ spec then none
    else
      match spec.span (· != '-') with
      | (_, []) => none
      | (start, _ :: stop) => some (String.ofList start, String.ofList stop)
  else none

/-- `parseRangeHeader`: a last byte that is no number is left open. -/
def parseRangeHeader (h : String) : Option ByteRange := do
  let (startS, endS) ← rangeParts h
  if startS = "" then do
    let n ← atoi endS
    return { start := int64 (-n), stop := -1 }
  else do
    let start ← atoi startS
    return { start, stop := if endS = "" then -1 else (atoi endS).getD (-1) }

/-- The header `Client.GetObject` sends. -/
def rangeHeader (r : ByteRange) : String :=
  if r.start < 0 then "bytes=-" ++ toString (int64 (-r.start))
  else if r.stop ≥ 0 then "bytes=" ++ toString r.start ++ "-" ++ toString r.stop
  else "bytes=" ++ toString r.start ++ "-"

/-- `parseRange`. -/
def parseRange (h : String) : Option ByteRange := do
  let (startS, endS) ← rangeParts h
  if startS = "" then
    if endS = "" then none
    else do
      let n ← atoi endS
      return { start := int64 (-n), stop := -1 }
  else do
    let start ← atoi startS
    if endS = "" then return { start, stop := -1 }
    else do
      let stop ← atoi endS
      return { start, stop }

/-- What the node is asked for when a request has the header. -/
def forwardedRange (h : String) : Option ByteRange :=
  (parseRangeHeader h).bind fun r => parseRange (rangeHeader r)

/-- A read with a `Range` header, from the front end to the engine and back. -/
def Env.rangedGet (e : Env) (s : Disk) (bucket key versionID header : String) :
    Except Err GetResult :=
  e.getObject s bucket key { versionID, range := forwardedRange header }

end D9Store
