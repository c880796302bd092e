import D9Store.Backend.Multipart

/-!
Reads of the storage engine: objects, listings, buckets and uploads
(`internal/storage/backend.go`, `backend_object.go`, `backend_multipart.go`).
-/

namespace D9Store

open Posix

/-- `types.GetResult`, with the body read to its end. -/
structure GetResult where
  info : ObjectMeta
  body : Bytes
  isRange : Bool := false
  contentRange : String := ""
  partialLength : Int
  deriving DecidableEq

/-- Wrap-around of `int64`. -/
def int64 (x : Int) : Int := x.bmod (2 ^ 64)

/-- The first and last byte a range asks for, `none` when it cannot be satisfied. -/
def ByteRange.resolve (r : ByteRange) (size : Int) : Option (Int × Int) :=
  let (start, stop) :=
    if r.start < 0 then
      -- A suffix range: the last `-start` bytes.
      let n := int64 (-r.start)
      let n := if n > size then size else n
      (int64 (size - n), int64 (size - 1))
    else if r.stop < 0 ∨ r.stop ≥ size then (r.start, size - 1)
    else (r.start, r.stop)
  if start < 0 ∨ start ≥ size ∨ start > stop then none else some (start, stop)

/-- `clampMax`. -/
def clampMax (n : Int) : Int := if n ≤ 0 ∨ n > 1000 then 1000 else n

/-- `strings.Index`, as the text before the first occurrence of `sub`. -/
def beforeSub (sub : List Char) : List Char → Option (List Char)
  | [] => if sub = [] then some [] else none
  | c :: rest =>
    if sub.isPrefixOf (c :: rest) then some []
    else (beforeSub sub rest).map (c :: ·)

/-- `displayToken`: the common prefix a key rolls into under the delimiter, else the key. -/
def displayToken (key pre delimiter : String) : String × Bool :=
  if delimiter = "" then (key, false)
  else
    match beforeSub delimiter.toList (key.toList.drop pre.length) with
    | some before => (pre ++ String.ofList before ++ delimiter, true)
    | none => (key, false)

/-- `mergeSortedUnique`. -/
def mergeSortedUnique (a b : List String) : List String := sorted (a.toFinset ∪ b.toFinset)

namespace Env

variable (e : Env)

/-! ### Objects -/

/-- The version a read is about: a delete marker is no object. -/
def liveVersion (s : Disk) (bucket key versionID : String) : Except Err ObjectMeta := do
  let (v, _) ← e.resolveVersion s bucket key versionID
  if v.deleteMarker then
    .error (.api (if versionID = "" then errNoSuchKey else errMethodNotAllowed))
  else .ok v

/-- `HeadObject`. -/
def headObject (s : Disk) (bucket key versionID : String) : Except Err ObjectMeta :=
  e.liveVersion s bucket key versionID

/-- `GetObject`, with its body read: opening a missing file is an unknown key, reading a
directory fails. -/
def getObject (s : Disk) (bucket key : String) (opt : GetOptions) : Except Err GetResult := do
  let v ← e.liveVersion s bucket key opt.versionID
  let pp ← e.physPath bucket v
  match s.get pp with
  | none => .error (.api errNoSuchKey)
  | some .dir => .error (.os .isdir)
  | some (.file f) =>
    let bytes := e.bytes f.content
    match opt.range with
    | none => .ok { info := v, body := bytes, partialLength := v.size }
    | some r =>
      match r.resolve v.size with
      | none => .error (.api errInvalidRange)
      | some (start, stop) =>
        .ok { info := v
              body := (bytes.drop start.toNat).take (stop - start + 1).toNat
              isRange := true
              partialLength := stop - start + 1
              contentRange := "bytes " ++ toString start ++ "-" ++ toString stop ++ "/" ++
                toString v.size }

/-! ### Listings -/

structure ListState where
  res : ListResult := {}
  count : Int := 0
  lastEmitted : String := ""

/-- The loop of `ListObjectsV2` over the sorted keys. -/
def listKeys (s : Disk) (inp : ListInput) (after : String) (max : Int) :
    List String → ListState → ListResult
  | [], st => st.res
  | key :: rest, st =>
    if inp.pre ≠ "" ∧ ¬ Text.hasPrefix key inp.pre then listKeys s inp after max rest st
    else
      let (display, common) := displayToken key inp.pre inp.delimiter
      let full := { st.res with
        isTruncated := true, nextToken := st.lastEmitted, nextMarker := st.lastEmitted }
      if after ≠ "" ∧ display ≤ after then listKeys s inp after max rest st
      else if common then
        if st.res.commonPrefixes.contains display then listKeys s inp after max rest st
        else if st.count ≥ max then full
        else
          listKeys s inp after max rest
            { res := { st.res with commonPrefixes := st.res.commonPrefixes ++ [display] }
              count := st.count + 1
              lastEmitted := display }
      else
        match e.readKeyMeta s inp.bucket key with
        | .error _ => listKeys s inp after max rest st
        | .ok km =>
          match km.latest with
          | none => listKeys s inp after max rest st
          | some latest =>
            if latest.deleteMarker then listKeys s inp after max rest st
            else if st.count ≥ max then full
            else
              listKeys s inp after max rest
                { res := { st.res with objects := st.res.objects ++ [latest] }
                  count := st.count + 1
                  lastEmitted := key }

/-- `ListObjectsV2`. -/
def listObjectsV2 (s : Disk) (inp : ListInput) : Except Err ListResult := do
  let _ ← e.readBucketMeta s inp.bucket
  let token := if inp.continuationToken = "" then inp.startAfter else inp.continuationToken
  let after := if inp.marker ≠ "" then inp.marker else token
  .ok (e.listKeys s inp after (clampMax inp.maxKeys) (e.walkObjectTree s inp.bucket) {})

structure ListVersionsState where
  res : ListVersionsResult := {}
  count : Int := 0

/-- The versions of one key, from the one named `resume` on when there is such a marker.
The flag tells that the page is full. -/
def listVersionsOf (key : String) (max : Int) (resume : Option String) :
    List ObjectMeta → ListVersionsState → ListVersionsState × Bool
  | [], st => (st, false)
  | v :: rest, st =>
    if resume.any (· != v.versionID) then listVersionsOf key max resume rest st
    else if st.count ≥ max then
      ({ st with res := { st.res with
          isTruncated := true, nextKeyMarker := key, nextVersionIDMarker := v.versionID } }, true)
    else
      let res :=
        if v.deleteMarker then { st.res with deleteMarkers := st.res.deleteMarkers ++ [v] }
        else { st.res with versions := st.res.versions ++ [v] }
      listVersionsOf key max none rest { res, count := st.count + 1 }

/-- The loop of `ListObjectVersions` over the sorted keys. -/
def listVersionKeys (s : Disk) (inp : ListVersionsInput) (max : Int) :
    List String → ListVersionsState → ListVersionsResult
  | [], st => st.res
  | key :: rest, st =>
    let resumeInclusive := inp.keyMarker != "" && inp.versionIDMarker != ""
    if inp.pre ≠ "" ∧ ¬ Text.hasPrefix key inp.pre then listVersionKeys s inp max rest st
    else
      let (display, common) := displayToken key inp.pre inp.delimiter
      let skipped := inp.keyMarker != "" && (decide (display < inp.keyMarker) ||
        (display == inp.keyMarker && !(resumeInclusive && !common && key == inp.keyMarker)))
      if skipped then listVersionKeys s inp max rest st
      else if common then
        if st.res.commonPrefixes.contains display then listVersionKeys s inp max rest st
        else if st.count ≥ max then
          { st.res with isTruncated := true, nextKeyMarker := display }
        else
          listVersionKeys s inp max rest
            { res := { st.res with commonPrefixes := st.res.commonPrefixes ++ [display] }
              count := st.count + 1 }
      else
        match e.readKeyMeta s inp.bucket key with
        | .error _ => listVersionKeys s inp max rest st
        | .ok km =>
          let resume :=
            if resumeInclusive && key == inp.keyMarker then some inp.versionIDMarker else none
          match listVersionsOf key max resume km.versions st with
          | (st, true) => st.res
          | (st, false) => listVersionKeys s inp max rest st

/-- `ListObjectVersions`. -/
def listObjectVersions (s : Disk) (inp : ListVersionsInput) : Except Err ListVersionsResult := do
  let _ ← e.readBucketMeta s inp.bucket
  let keys := mergeSortedUnique (e.walkAllKeys s inp.bucket) (e.walkObjectTree s inp.bucket)
  .ok (e.listVersionKeys s inp (clampMax inp.maxKeys) keys {})

/-! ### Buckets and uploads -/

/-- `GetBucketMeta`. -/
def getBucketMeta (s : Disk) (bucket : String) : Except Err BucketMeta := e.readBucketMeta s bucket

/-- `ListBuckets`: the configured buckets and the plain directories of the data root. -/
def listBuckets (s : Disk) : List BucketMeta :=
  let configured := ((sorted (s.children (e.idir ["buckets"]))).filter (·.endsWith ".json")).filterMap
    fun name => match e.readDoc s (e.idir ["buckets", name]) with
      | .ok doc => some doc.asBucketMeta
      | .error _ => none
  let prefilled := (sorted (s.children e.root)).filter fun name =>
    s.isDir (name :: e.root) && !(configured.map BucketMeta.name).contains name
  let plain := prefilled.map fun name =>
    ({ name, createdAt := .wall, ownership := "BucketOwnerEnforced" } : BucketMeta)
  (configured ++ plain).insertionSort fun a b => a.name ≤ b.name

/-- `GetMultipartUpload`. -/
def getMultipartUpload (s : Disk) (bucket uploadID : String) : Except Err MultipartUpload :=
  e.readMPU s bucket uploadID

/-- `ListMultipartUploads`. It looks below the data root, where `mpuMetaPath` puts no
record. -/
def listMultipartUploads (s : Disk) (bucket pre : String) : Except Err (List MultipartUpload) := do
  let _ ← e.readBucketMeta s bucket
  let dir := (e.root.join "mpu").join bucket
  let records := ((sorted (s.children dir)).filter (·.endsWith ".json")).filterMap fun name =>
    e.readUpload s (name :: dir)
  .ok ((records.filter fun mp => pre == "" || Text.hasPrefix mp.key pre).insertionSort fun a b =>
    a.key < b.key ∨ (a.key = b.key ∧ a.uploadID ≤ b.uploadID))

end Env

end D9Store
