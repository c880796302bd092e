import D9Store.Key.Put

/-!
Reads of one key: what `HeadObject` and `GetObject` answer is decided by its abstract
history.
-/

namespace D9Store

open Posix FilePath

/-! ### Bucket configuration -/

/-- The bucket has the configuration `bm`. -/
def Configured (e : Env) (s : Disk) (bucket : String) (bm : BucketMeta) : Prop :=
  content s (e.bucketMetaPath bucket) = some (.json (.bucketMeta bm))

variable {bucket : String} {bm : BucketMeta}

theorem Configured.readBucketMeta {e : Env} {s : Disk} (h : Configured e s bucket bm) :
    e.readBucketMeta s bucket = .ok bm := by
  obtain ⟨f, file, eq⟩ := Option.map_eq_some_iff.mp h
  simp [Env.readBucketMeta, Env.readDoc, DirTree.readFile, DirTree.file_eq_some.mp file, eq,
    Doc.asBucketMeta]

theorem Configured.bucketMetaForWrite {e : Env} {s : Disk} (h : Configured e s bucket bm) :
    e.bucketMetaForWrite s bucket = bm := by
  simp [Env.bucketMetaForWrite, h.readBucketMeta]

namespace Site

variable {e : Env} {x : Site e} {s t : Disk} {B : Set String}

/-- Configurations are not among a key's files. -/
theorem config_out {S : Set FilePath} {bucket : String} (noSlash : '/' ∉ bucket.toList) :
    e.bucketMetaPath bucket ∉ x.cells B S := by
  have area : e.area "buckets" <:+ e.bucketMetaPath bucket := by
    rw [Env.bucketMetaPath_eq noSlash]
    exact List.suffix_cons _ _
  rintro (h | h | h | h | ⟨id, -, plain, h⟩ | ⟨-, h⟩)
  · exact Env.data_not_area x.root_op area h.symm
  · exact Env.data_not_area x.root_tmp area h.symm
  · exact Env.area_ne area x.area_hp (by decide) h
  · exact Env.area_ne area x.area_hpTmp (by decide) h
  · exact absurd (Env.area_unique area (area_of_blob plain h)) (by decide)
  · exact absurd (Env.area_unique area h) (by decide)

/-- Commands on a key leave the configuration of its bucket alone. -/
theorem Configured.framed {S D : Set FilePath} {bm : BucketMeta} (h : Configured e s x.bucket bm)
    (frame : Framed (x.cells B S) D s t) : Configured e t x.bucket bm := by
  rw [Configured, ← h]
  exact content_of_file_eq (frame.file _ (config_out x.tame.1))

/-! ### Objects -/

variable {bm : BucketMeta} {vid : String} {v : ObjectMeta}

/-- The version a read without a version id is about. -/
theorem resolveVersion_latest (ready : x.Ready s) (sound : x.Sound s)
    (bucket : e.readBucketMeta s x.bucket = .ok bm) :
    (e.resolveVersion s x.bucket x.key "").map Prod.fst =
      match (x.versions s).head? with
      | some v => .ok v
      | none => .error (.api errNoSuchKey) := by
  by_cases empty : x.versions s = []
  · simp [Env.resolveVersion, bucket, readKeyMeta_nil ready sound empty, empty, Except.map]
  · obtain ⟨flag, read⟩ := readKeyMeta_some ready sound empty
    simp only [Env.resolveVersion, bucket, read, except_ok_bind, ne_eq, not_true_eq_false, if_false,
      KeyMeta.latest]
    cases (x.versions s).head? <;> rfl

/-- The version a read with a version id is about. -/
theorem resolveVersion_named (ready : x.Ready s) (sound : x.Sound s)
    (bucket : e.readBucketMeta s x.bucket = .ok bm) (named : vid ≠ "") :
    (e.resolveVersion s x.bucket x.key vid).map Prod.fst =
      if x.versions s = [] then .error (.api errNoSuchKey)
      else match (x.versions s).find? fun v => v.versionID == vid with
        | some v => .ok v
        | none => .error (.api errNoSuchVersion) := by
  by_cases empty : x.versions s = []
  · simp [Env.resolveVersion, bucket, readKeyMeta_nil ready sound empty, empty, Except.map]
  · obtain ⟨flag, read⟩ := readKeyMeta_some ready sound empty
    simp only [Env.resolveVersion, bucket, read, except_ok_bind, ne_eq, named, not_false_eq_true,
      if_true, empty, if_false]
    cases (x.versions s).find? fun v => v.versionID == vid <;> rfl

theorem liveVersion_of_resolve (h : (e.resolveVersion s x.bucket x.key vid).map Prod.fst = .ok v)
    (live : v.deleteMarker = false) : e.liveVersion s x.bucket x.key vid = .ok v := by
  cases resolved : e.resolveVersion s x.bucket x.key vid with
  | error err => simp [resolved, Except.map] at h
  | ok r =>
    obtain ⟨w, km⟩ := r
    obtain rfl : w = v := by simpa [resolved, Except.map] using h
    simp [Env.liveVersion, resolved, live]

/-- A live version is served with the content the history assigns to it. -/
theorem getObject_of_resolve (sound : x.Sound s) {c : Content}
    (h : (e.resolveVersion s x.bucket x.key vid).map Prod.fst = .ok v) (mem : v ∈ x.versions s)
    (live : v.deleteMarker = false) (body : x.bodyAt s v = some c) :
    e.getObject s x.bucket x.key { versionID := vid } =
      .ok { info := v, body := e.bytes c, partialLength := v.size } := by
  have place : ∃ p, e.physPath x.bucket v = .ok p ∧ content s p = some c := by
    by_cases blob : v.blobID = ""
    · refine ⟨x.op, ?_, ?_⟩
      · rw [Env.physPath, if_pos blob, sound.shape.own v mem, x.op_eq]
      · simpa [bodyAt, live, blob] using body
    · refine ⟨x.blob v.blobID, by rw [Env.physPath, if_neg blob]; rfl, ?_⟩
      simpa [bodyAt, live, blob] using body
  obtain ⟨p, phys, found⟩ := place
  obtain ⟨f, file, eq⟩ := Option.map_eq_some_iff.mp found
  simp [Env.getObject, liveVersion_of_resolve h live, phys, DirTree.file_eq_some.mp file, eq]

end Site

end D9Store
