import D9Store.Text.Percent
import D9Store.Text.Utf8
import D9Store.Types

/-!
The two parsers of object paths, on bytes: `parseCopySource` of `internal/s3api/object.go`, with
`url.ParseQuery`, and `splitPath` of `internal/s3api/server.go` behind the decoding of request paths.
-/

namespace D9Store.CopySource

open Percent

/-- The text before the first `sep`, and the text from there on. -/
def cut (sep : UInt8) (s : Bytes) : Bytes × Bytes := s.span (· != sep)

/-- `strings.TrimPrefix(s, "/")`. -/
def trimSlash (s : Bytes) : Bytes := if s.head? = some 47 then s.drop 1 else s

/-- One piece of a query; a semicolon is an error. -/
def parsePair (piece : Bytes) : Option (Bytes × Bytes) :=
  if 59 ∈ piece then none
  else do
    let (key, value) := cut 61 piece
    let key ← unescape true key
    let value ← unescape true (value.drop 1)
    some (key, value)

/-- `url.ParseQuery`, without the pairs it returns beside an error. -/
def parseQuery (query : Bytes) : Option (List (Bytes × Bytes)) :=
  ((query.splitOn 38).filter (· ≠ [])).mapM parsePair

def versionId : Bytes := Utf8.encode "versionId"

/-- The version of a query, if it has no error. -/
def versionOf (query : Bytes) : Bytes :=
  (((parseQuery query).getD []).lookup versionId).getD []

/-- `parseCopySource`: bucket, key and version. -/
def parseCopySource (src : Bytes) : Option (Bytes × Bytes × Bytes) :=
  let (path, query) := cut 63 src
  let version := if query = [] then [] else versionOf (query.drop 1)
  let path := trimSlash path
  let path := (unescape true path).getD path
  let (bucket, rest) := cut 47 path
  if rest = [] then none else some (bucket, rest.drop 1, version)

/-- `splitPath`. -/
def splitPath (path : Bytes) : Bytes × Bytes :=
  let (bucket, rest) := cut 47 (trimSlash path)
  (bucket, rest.drop 1)

/-- The bucket and the key of a request for a path. -/
def requested (path : Bytes) : Option (Bytes × Bytes) := (unescape false path).map splitPath

end D9Store.CopySource
