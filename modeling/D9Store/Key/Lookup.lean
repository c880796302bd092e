import D9Store.Key.Commands
import D9Store.Key.Reading

/-!
Reads of a key whose history stands: `GetObject` is a lookup in the abstract history.
-/

namespace D9Store

open Posix FilePath Versioned

/-- The version a read is about: the named one, or the latest. -/
def pick {β : Type} (vs : List (Version β)) (vid : String) : Option (Version β) :=
  if vid = "" then vs.head? else vs.find? fun v => v.id == vid

/-- What a read of a history returns. -/
def Env.lookup (e : Env) (vs : List (Version Content)) (vid : String) : Except Err Bytes :=
  match pick vs vid with
  | none => .error (.api (if vs.isEmpty then errNoSuchKey else errNoSuchVersion))
  | some v =>
    if v.marker then .error (.api (if vid = "" then errNoSuchKey else errMethodNotAllowed))
    else match v.body with
      | some c => .ok (e.bytes c)
      | none => .error (.api errNoSuchKey)

variable {bytes : Bytes}

theorem lookup_ok {e : Env} {vs : List (Version Content)} {vid : String}
    (h : e.lookup vs vid = .ok bytes) :
    ∃ v c, pick vs vid = some v ∧ v.marker = false ∧ v.body = some c ∧ e.bytes c = bytes := by
  unfold Env.lookup at h
  cases found : pick vs vid with
  | none => simp [found] at h
  | some v =>
    cases marker : v.marker with
    | true => simp [found, marker] at h
    | false =>
      cases body : v.body with
      | none => simp [found, marker, body] at h
      | some c =>
        simp only [found, marker, body, Bool.false_eq_true, if_false, Except.ok.injEq] at h
        exact ⟨v, c, rfl, marker, body, h⟩

theorem lookup_congr {e : Env} {vs ws : List (Version Content)} {vid : String}
    (same : pick ws vid = pick vs vid) (h : e.lookup vs vid = .ok bytes) :
    e.lookup ws vid = .ok bytes := by
  obtain ⟨v, c, found, marker, body, eq⟩ := lookup_ok h
  simp [Env.lookup, same, found, marker, body, eq]

namespace Site

variable {e : Env} {x : Site e} {s t : Disk} {bm : BucketMeta} {vid bucket : String} {c : Command}

theorem Standing.versions_read (standing : x.Standing t) {km : KeyMeta}
    (read : e.readKeyMeta t x.bucket x.key = .ok km) : km.versions = x.versions t := by
  by_cases empty : x.versions t = []
  · rw [readKeyMeta_nil standing.ready standing.sound empty] at read
    cases read
  · obtain ⟨flag, found⟩ := readKeyMeta_some standing.ready standing.sound empty
    cases found.symm.trans read
    rfl

/-- The version a read is about. -/
def pickVersion (x : Site e) (s : Disk) (vid : String) : Option ObjectMeta :=
  if vid = "" then (x.versions s).head? else (x.versions s).find? fun v => v.versionID == vid

theorem pick_entries : pick (x.entries s).versions vid =
    (x.pickVersion s vid).map fun v => (x.entry s v).version := by
  unfold pick pickVersion History.versions entries
  rw [List.map_map]
  split
  · rw [List.head?_map]
    rfl
  · rw [List.find?_map]
    rfl

theorem isEmpty_versions : (x.entries s).versions.isEmpty = true ↔ x.versions s = [] := by
  rw [History.versions, entries, List.isEmpty_map, List.isEmpty_map, List.isEmpty_iff]

theorem mem_of_pickVersion {v : ObjectMeta} (h : x.pickVersion s vid = some v) :
    v ∈ x.versions s := by
  unfold pickVersion at h
  split at h
  · exact List.mem_of_mem_head? h
  · exact List.mem_of_find?_eq_some h

theorem resolveVersion_pick (standing : x.Standing s)
    (bucket : e.readBucketMeta s x.bucket = .ok bm) :
    (e.resolveVersion s x.bucket x.key vid).map Prod.fst =
      match x.pickVersion s vid with
      | some v => .ok v
      | none => .error (.api (if (x.entries s).versions.isEmpty then errNoSuchKey
          else errNoSuchVersion)) := by
  unfold pickVersion
  by_cases named : vid = ""
  · rw [named, resolveVersion_latest standing.ready standing.sound bucket, if_pos rfl]
    cases head : (x.versions s).head? with
    | some v => rfl
    | none => simp [isEmpty_versions.mpr (List.head?_eq_none_iff.mp head)]
  · rw [resolveVersion_named standing.ready standing.sound bucket named, if_neg named]
    by_cases none : x.versions s = []
    · simp [none, entries, History.versions]
    · rw [if_neg none]
      cases (x.versions s).find? fun v => v.versionID == vid with
      | some v => rfl
      | none => simp [mt isEmpty_versions.mp none]

/-- `GetObject` of a version reads the history. -/
theorem getObject_lookup (standing : x.Standing s)
    (bucket : e.readBucketMeta s x.bucket = .ok bm) :
    (e.getObject s x.bucket x.key { versionID := vid }).map GetResult.body =
      e.lookup (x.entries s).versions vid := by
  have resolved : (e.resolveVersion s x.bucket x.key vid).map Prod.fst = _ :=
    resolveVersion_pick standing bucket
  rw [Env.lookup, pick_entries]
  cases found : x.pickVersion s vid with
  | none =>
    rw [found] at resolved
    cases run : e.resolveVersion s x.bucket x.key vid with
    | ok r => simp [run, Except.map] at resolved
    | error err =>
      simp only [run, Except.map, Except.error.injEq] at resolved
      simp [Env.getObject, Env.liveVersion, run, Except.map, resolved]
  | some v =>
    rw [found] at resolved
    have mem := mem_of_pickVersion found
    cases marker : v.deleteMarker with
    | true =>
      cases run : e.resolveVersion s x.bucket x.key vid with
      | error err => simp [run, Except.map] at resolved
      | ok r =>
        obtain ⟨w, km⟩ := r
        obtain rfl : w = v := by simpa [run, Except.map] using resolved
        simp [Env.getObject, Env.liveVersion, run, marker, Except.map, entry, Entry.version]
    | false =>
      obtain ⟨c, body⟩ := Option.isSome_iff_exists.mp (backed_iff.mp standing.backed v mem marker)
      rw [getObject_of_resolve standing.sound resolved mem marker body]
      simp [Except.map, entry, Entry.version, marker, body]

/-- A version that is served by its id is in the history. -/
theorem named_of_lookup {bytes : Bytes} (named : vid ≠ "")
    (h : e.lookup (x.entries s).versions vid = .ok bytes) :
    ∃ v ∈ x.versions s, v.versionID = vid := by
  obtain ⟨w, -, found, -⟩ := lookup_ok h
  rw [pick_entries] at found
  obtain ⟨v, found, -⟩ := Option.map_eq_some_iff.mp found
  have mem := mem_of_pickVersion found
  rw [pickVersion, if_neg named] at found
  exact ⟨v, mem, by simpa using List.find?_some found⟩

/-! ### Configured buckets -/

/-- A bucket with a versioning status has a configuration file. -/
theorem readDoc_of_versioned (read : e.readBucketMeta s bucket = .ok bm)
    (status : bm.versioning ≠ "") :
    ∃ f doc, s.file (e.bucketMetaPath bucket) = some f ∧ e.document f.content = some doc ∧
      doc.asBucketMeta = bm := by
  unfold Env.readBucketMeta at read
  cases found : e.readDoc s (e.bucketMetaPath bucket) with
  | error err =>
    rw [found] at read
    dsimp only at read
    split at read
    · cases read
      exact absurd rfl status
    · cases read
  | ok doc =>
    rw [found] at read
    cases read
    obtain ⟨f, file, is⟩ := readDoc_ok found
    exact ⟨f, doc, file, is, rfl⟩

theorem readBucketMeta_of_status (status : (e.bucketMetaForWrite s bucket).versioning ≠ "") :
    e.readBucketMeta s bucket = .ok (e.bucketMetaForWrite s bucket) := by
  unfold Env.bucketMetaForWrite at *
  cases read : e.readBucketMeta s bucket with
  | ok bm => rfl
  | error err =>
    rw [read] at status
    exact absurd rfl status

/-- Commands on a key leave the status of its bucket alone. -/
theorem readBucketMeta_framed {F D : Set FilePath} (frame : Framed F D s t)
    (out : e.bucketMetaPath bucket ∉ F) (read : e.readBucketMeta s bucket = .ok bm)
    (status : bm.versioning ≠ "") : e.readBucketMeta t bucket = .ok bm := by
  obtain ⟨f, doc, file, found, rfl⟩ := readDoc_of_versioned read status
  have file' : t.file (e.bucketMetaPath bucket) = some f := (frame.file _ out).trans file
  rw [Env.readBucketMeta, readDoc_of_document file' found]

theorem config_besides (noSlash : '/' ∉ bucket.toList) (addr : x.Addresses c) (fair : x.Fair s c) :
    e.bucketMetaPath bucket ∉ besides e c := by
  have area : e.area "buckets" <:+ e.bucketMetaPath bucket := by
    rw [Env.bucketMetaPath_eq noSlash]
    exact List.suffix_cons _ _
  unfold besides
  split
  · rename_i op
    simp only [Fair, op] at fair
    rintro (h | h)
    · have mpu : e.area "mpu" <:+ e.mpuMetaPath c.bucket c.uploadID := by
        rw [Env.mpuMetaPath_eq fair.2.1.2, addr.1]
        exact (x.tame.suffix_join _).trans (List.suffix_cons _ _)
      exact Env.area_ne area mpu (by decide) h
    · rw [join_plain (show Plain "mpstaging" by decide)] at h
      exact Env.data_not_area ((List.suffix_cons _ _).trans h) area rfl
  · exact Set.notMem_empty _

/-- Commands on a key leave the versioning status of every bucket alone. -/
theorem Acts.readBucketMeta {act : Act Content} (h : x.Acts act (besides e c) s t)
    (noSlash : '/' ∉ bucket.toList) (addr : x.Addresses c) (fair : x.Fair s c)
    (read : e.readBucketMeta s bucket = .ok bm) (status : bm.versioning ≠ "") :
    e.readBucketMeta t bucket = .ok bm :=
  readBucketMeta_framed h.frame (fun mem => mem.elim (config_out noSlash)
    (config_besides noSlash addr fair)) read status

end Site

/-! ### Listing and reading one key -/

variable {e : Env} {s t : Disk}

/-- The entries a history lists, newest first, with whether they are markers. -/
def listed (x : Site e) (s : Disk) : List (String × Bool) :=
  match e.readKeyMeta s x.bucket x.key with
  | .ok km => km.versions.map fun v => (v.versionID, v.deleteMarker)
  | .error _ => []

/-- The bytes `GetObject` returns. -/
def got (x : Site e) (s : Disk) (vid : String) : Except Err Bytes :=
  (e.getObject s x.bucket x.key { versionID := vid }).map GetResult.body

theorem listed_eq {x : Site e} (standing : x.Standing s) :
    D9Store.listed x s = (x.entries s).versions.map fun v => (v.id, v.marker) := by
  unfold D9Store.listed Versioned.History.versions Site.entries
  by_cases empty : x.versions s = []
  · rw [Site.readKeyMeta_nil standing.ready standing.sound empty, empty]
    rfl
  · obtain ⟨flag, read⟩ := Site.readKeyMeta_some standing.ready standing.sound empty
    rw [read, List.map_map, List.map_map]
    rfl

end D9Store
