import D9Store.Key.Put

/-!
What a version says about its object.

A version that is the only one of its key is read off the attributes of its file: size and time are
then those of the file, and a legal hold without a status is none at all. All the rest reads as it
was recorded.
-/

namespace D9Store

open Posix

namespace ObjectMeta

/-- The content headers and the user metadata. -/
def headers (v : ObjectMeta) : List String × StrMap :=
  ([v.contentType, v.contentEncoding, v.contentLanguage, v.contentDisposition, v.cacheControl,
    v.expires], v.userMeta)

/-- The legal hold; without a status it counts as absent. -/
def hold (v : ObjectMeta) : Option LegalHold := v.legalHold.filter fun hold => hold.status ≠ ""

/-- The two versions say the same about their object, apart from its size and time. -/
structure SameMeta (v w : ObjectMeta) : Prop where
  etag : v.etag = w.etag
  headers : v.headers = w.headers
  storageClass : v.storageClass = w.storageClass
  acl : v.acl = w.acl
  tags : v.tags = w.tags
  retention : v.retention = w.retention
  hold : v.hold = w.hold

theorem SameMeta.isLatest (v : ObjectMeta) (b : Bool) : SameMeta { v with isLatest := b } v :=
  ⟨rfl, rfl, rfl, rfl, rfl, rfl, rfl⟩

theorem SameMeta.trans {u v w : ObjectMeta} (h : SameMeta u v) (h' : SameMeta v w) : SameMeta u w :=
  ⟨h.etag.trans h'.etag, h.headers.trans h'.headers, h.storageClass.trans h'.storageClass,
    h.acl.trans h'.acl, h.tags.trans h'.tags, h.retention.trans h'.retention, h.hold.trans h'.hold⟩

/-- The version without its id and its time. -/
def undated (v : ObjectMeta) : ObjectMeta := { v with versionID := "", lastModified := .time 0 }

end ObjectMeta

namespace Env

/-- The retention that the bucket's defaults give to a new version. -/
def defaultRetention (e : Env) (bm : BucketMeta) (c : Command) : Option Retention :=
  (e.applyLockDefaults bm { bucket := c.bucket, key := c.key, versionID := "" } c).retention

/-- The defaults of the bucket set the retention, where there is none, and nothing else. -/
theorem applyLockDefaults_or (e : Env) (bm : BucketMeta) (nv : ObjectMeta) (c : Command) :
    e.applyLockDefaults bm nv c =
      { nv with retention := nv.retention.or (e.defaultRetention bm c) } := by
  have retention : (e.applyLockDefaults bm nv c).retention =
      nv.retention.or (e.defaultRetention bm c) := by
    unfold defaultRetention applyLockDefaults
    cases bm.objectLock with
    | none => simp
    | some lock =>
      dsimp only
      cases held : nv.retention with
      | some r => simp [held]
      | none =>
        cases off : !lock.enabled || lock.defaultMode == "" with
        | true => simp [held]
        | false => simp
  obtain ⟨r, eq⟩ := applyLockDefaults_eq (e := e) bm nv c
  rw [eq] at retention ⊢
  rw [← retention]

end Env

namespace Site

variable {e : Env} {x : Site e} {t : Disk}

theorem readBack_sameMeta (f : File) (v : ObjectMeta) : (x.readBack f v).SameMeta v := by
  refine ⟨rfl, rfl, rfl, rfl, rfl, rfl, ?_⟩
  simp only [ObjectMeta.hold, readBack, Option.filter_filter]
  exact congrArg (fun p => v.legalHold.filter p) (funext fun hold => by simp)

/-- The latest version of a key whose history was recorded with `nv` in front. -/
theorem Recorded.latest {nv : ObjectMeta} {vs : List ObjectMeta} {b : Content}
    (h : x.Recorded (History.prepended nv vs) t) (live : nv.deleteMarker = false)
    (here : nv.blobID = "") (current : content t x.op = some b) :
    ∃ v, (x.versions t).head? = some v ∧ v.SameMeta nv ∧
      v.size = if vs = [] then e.size b else nv.size := by
  have atPath : Env.atKeyPath { nv with isLatest := true } = true := by simp [Env.atKeyPath, live, here]
  cases vs with
  | nil =>
    obtain ⟨f, file, eq⟩ := h.versions_single atPath
    have same : b = f.content := by
      rw [content, file] at current
      exact (Option.some.inj current).symm
    refine ⟨_, by rw [eq]; rfl, (readBack_sameMeta f _).trans (.isLatest nv true), ?_⟩
    rw [if_pos rfl, same]
    rfl
  | cons v rest =>
    have many : History.singleLive (History.prepended nv (v :: rest)) = false := rfl
    refine ⟨{ nv with isLatest := true }, ?_, .isLatest nv true, ?_⟩
    · rw [h.versions_many many]
      rfl
    · rw [if_neg (List.cons_ne_nil _ _)]

end Site

end D9Store
