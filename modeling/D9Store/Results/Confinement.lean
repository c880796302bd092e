import D9Store.Runs

/-!
Where the paths of a bucket lie.

`objectPath` tests that the cleaned path starts with the cleaned bucket directory. The
bucket name is cleaned along with it, and the name check of `applyCreateBucket` lets the two
names through that cleaning resolves.
-/

namespace D9Store

open Posix FilePath

/-- Every path of the bucket lies below the place that is meant for it. -/
structure Confined (e : Env) (bucket : String) : Prop where
  object : ∀ key p, e.objectPath bucket key = .ok p → Below (bucket :: e.root) p
  history : ∀ key p, e.historyPath bucket key = .ok p → Below (e.area "history") p
  versions : ∀ id, isUUID id = true → Below (e.area "versions") (e.vblobPath bucket id)
  uploads : ∀ id, isUUID id = true → Below (e.area "mpu") (e.mpuMetaPath bucket id)
  config : Below (e.area "buckets") (e.bucketMetaPath bucket)

namespace Confined

variable {e : Env} {bucket : String}

theorem plain_of_valid (valid : validBucketName bucket = true) (dot : bucket ≠ ".")
    (dots : bucket ≠ "..") : Plain bucket := by
  simp only [validBucketName, Bool.and_eq_true, bne_iff_ne, Bool.not_eq_true', List.contains_eq_mem,
    decide_eq_false_iff_not] at valid
  exact ⟨⟨valid.1.1, dot, dots⟩, valid.1.2⟩

theorem of_plain (plain : Plain bucket) : Confined e bucket where
  object key p h := by
    have below := (Env.confine_ok h).2.2
    rwa [Env.bucketDir, join_plain plain] at below
  history key p h := by
    have below := (Env.confine_ok h).2.2
    rw [Env.historyDir_eq, join_plain plain] at below
    exact Below.of_suffix below (List.suffix_cons _ _)
  versions id h := by
    rw [Env.vblobPath_eq (nameable_of_isUUID h).2, Env.versionsDir_eq, join_plain plain]
    exact Below.of_suffix (below_cons _ _) (List.suffix_cons _ _)
  uploads id h := by
    rw [Env.mpuMetaPath_eq (nameable_of_isUUID h).2, join_plain plain]
    exact Below.of_suffix (below_cons _ _) (List.suffix_cons _ _)
  config := by
    rw [Env.bucketMetaPath_eq plain.2]
    exact below_cons _ _

/-- The bucket `.` is the data root itself. -/
theorem not_dot : ¬ Confined e "." := by
  intro h
  have accepted : e.objectPath "." "k" = .ok ("k" :: e.root) := by
    have dir : e.bucketDir "." = e.root := rfl
    have nonempty : e.root ≠ [] := fun eq => e.state_outside (by rw [eq]; exact List.nil_suffix)
    rw [Env.objectPath, dir, join_plain (by decide)]
    exact if_pos ⟨nonempty, below_cons _ _⟩
  obtain ⟨sub, -⟩ := h.object "k" _ accepted
  have := List.cons.inj (sub.eq_of_length_le (by simp))
  exact absurd this.1 (by decide)

/-- The bucket `..` keeps its blobs beside the blob directory. -/
theorem not_dots : ¬ Confined e ".." := by
  intro h
  obtain ⟨sub, -⟩ := h.versions (uuid 0) (by decide)
  rw [Env.vblobPath_eq (by decide)] at sub
  have := List.cons.inj (sub.eq_of_length_le (Nat.le_refl _))
  exact absurd this.1 (by decide)

end Confined

/-- The paths of a bucket that passes the name check are confined exactly when its name is
neither `.` nor `..`. -/
theorem paths_confined_iff {e : Env} {bucket : String} (valid : validBucketName bucket = true) :
    Confined e bucket ↔ bucket ≠ "." ∧ bucket ≠ ".." := by
  constructor
  · intro h
    refine ⟨?_, ?_⟩
    · rintro rfl
      exact Confined.not_dot h
    · rintro rfl
      exact Confined.not_dots h
  · rintro ⟨dot, dots⟩
    exact Confined.of_plain (Confined.plain_of_valid valid dot dots)

theorem paths_confined_of_photos :
    validBucketName "photos" = true ∧ (Confined (smallEnv false) "photos" ↔ "photos" ≠ "." ∧ "photos" ≠ "..") :=
  ⟨by decide, paths_confined_iff (by decide)⟩

/-- The bucket `..` is accepted, and its object `state/x` is a file of the state root. -/
theorem parent_bucket_addresses_state_root :
    validBucketName ".." = true ∧ siblingEnv.objectPath ".." "state/x" = .ok ["x", "state", "srv"] ∧
    ¬ Below (".." :: siblingEnv.root) ["x", "state", "srv"] ∧
    ¬ Below (siblingEnv.area "versions") (siblingEnv.vblobPath ".." (uuid 1)) :=
  ⟨by decide, rfl, by decide, by decide⟩

end D9Store
