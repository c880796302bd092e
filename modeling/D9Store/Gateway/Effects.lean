import D9Store.Backend.Written
import D9Store.Key.Complete
import D9Store.Posix.Footprint
import D9Store.Runs

/-!
What a successful object command leaves at the head of the key's history.

A write records a version of its own id over what its key had; a deletion may put a marker in
front. The facts need little of the state before: the key's files have to belong together.
-/

namespace D9Store

open Posix FilePath

namespace Env

variable {e : Env} {s t s₁ : Disk} {bucket key token uploadID : String} {c : Command}
    {p tmp : FilePath}

/-! ### Installed versions -/

/-- A history that is read from the object file is that of the requested key. -/
theorem readKeyMeta_own {hp : FilePath} {err : Err} {km : KeyMeta}
    (place : e.historyPath bucket key = .ok hp) (doc : e.readDoc s hp = .error err)
    (found : e.readKeyMeta s bucket key = .ok km) : km.bucket = bucket ∧ km.key = key := by
  unfold readKeyMeta at found
  rw [place, except_ok_bind, doc] at found
  split at found
  · rename_i ok
    cases ok
  · obtain ⟨op, -, found⟩ := except_bind_ok found
    split at found
    · cases found
    · cases found
      exact ⟨rfl, rfl⟩
  · cases found

theorem attempt_ok {α ε ε' : Type} {x : EStateM ε Disk α} {a : α}
    (h : (attempt x : EStateM ε' Disk (Except ε α)) s = .ok (.ok a) t) : x s = .ok a t := by
  unfold attempt at h
  cases run : x s with
  | ok b u =>
    rw [run] at h
    cases h
    rfl
  | error err u =>
    rw [run] at h
    cases h

/-! ### Puts and copies -/

/-- The metadata a write goes on with when the current version has made way. -/
def madeWay (e : Env) (s : Disk) (bucket key : String) : KeyMeta :=
  { e.loadKeyMetaOrNew s bucket key with
    versions := History.displaced (e.bucketMetaForWrite s bucket).versioningEnabled
      (e.loadKeyMetaOrNew s bucket key).versions }

theorem displaceCurrent_value {km km' : KeyMeta} {enabled : Bool}
    (run : e.displaceCurrent km enabled s = .ok km' t) :
    km' = { km with versions := History.displaced enabled km.versions } := by
  have value := FileInv.value displaceCurrent_guards run
  exact value

theorem applyPutObject_ok (run : e.applyPutObject c s = .ok () t) :
    ∃ s₁ s₂, e.displaceCurrent (e.loadKeyMetaOrNew s c.bucket c.key)
        (e.bucketMetaForWrite s c.bucket).versioningEnabled s =
          .ok (e.madeWay s c.bucket c.key) s₁ ∧
      e.putCurrentBytes c.bucket c.key (e.stagingPath c.blobToken) s₁ = .ok () s₂ ∧
      e.writeKeyMeta ((e.madeWay s c.bucket c.key).prependLatest
        (e.putMeta (e.bucketMetaForWrite s c.bucket) c)) s₂ = .ok () t := by
  obtain ⟨bm, s₁, readBucket, run₁⟩ := bind_ok.mp run
  obtain ⟨⟨⟩, rfl⟩ := reading_ok.mp readBucket
  obtain ⟨arrived, s₂, readStaged, run₂⟩ := bind_ok.mp run₁
  obtain ⟨-, rfl⟩ := reading_ok.mp readStaged
  cases arrived with
  | false => cases run₂
  | true =>
    obtain ⟨km, s₃, readKey, run₃⟩ := bind_ok.mp run₂
    obtain ⟨⟨⟩, rfl⟩ := reading_ok.mp readKey
    obtain ⟨km', s₄, displace, run₄⟩ := bind_ok.mp run₃
    obtain ⟨_, s₅, install, record⟩ := bind_ok.mp run₄
    obtain rfl := displaceCurrent_value displace
    exact ⟨s₄, s₅, displace, install, record⟩

/-- A write that succeeds is to a key with both its places. -/
theorem site_of_write {nv : ObjectMeta} {op : FilePath} (tame : Tame bucket)
    (object : e.objectPath bucket key = .ok op)
    (run : e.writeKeyMeta ((e.madeWay s bucket key).prependLatest nv) s₁ = .ok () t) :
    ∃ x : Site e, x.bucket = bucket ∧ x.key = key := by
  cases history : e.historyPath bucket key with
  | ok hp => exact ⟨⟨bucket, key, tame, op, hp, object, history⟩, rfl, rfl⟩
  | error err =>
    have fresh : e.loadKeyMetaOrNew s bucket key = { bucket, key } := by
      simp [loadKeyMetaOrNew, readKeyMeta, history]
    obtain ⟨_, s₂, -, record⟩ := bind_ok.mp run
    obtain ⟨hp, s₃, read, -⟩ := bind_ok.mp record
    obtain ⟨place, -⟩ := reading_ok.mp read
    simp [KeyMeta.prependLatest, madeWay, fresh, history] at place

theorem objectPath_of_putCurrentBytes {src : FilePath}
    (run : e.putCurrentBytes bucket key src s = .ok () t) :
    ∃ op, e.objectPath bucket key = .ok op := by
  obtain ⟨op, s₁, read, -⟩ := bind_ok.mp run
  exact ⟨op, (reading_ok.mp read).1⟩

theorem area_staging (plain : Plain token) : e.area "staging" <:+ e.stagingPath token := by
  rw [stagingPath_eq plain]
  exact List.suffix_cons _ _

/-! ### Completions -/

/-- What the end of a completion removes: the upload's record, and the files that a pattern for
its parts finds below the data root. -/
def Swept (e : Env) (bucket uploadID : String) (p : FilePath) : Prop :=
  p = e.mpuMetaPath bucket uploadID ∨
    e.Matches ((e.root.join "mpstaging").join (uploadID ++ "__*")) p

theorem readDoc_absent_shrinks (shrinks : Shrinks s t) (h : e.readDoc s p = .error (.os .noent)) :
    e.readDoc t p = .error (.os .noent) := by
  obtain ⟨gone, clear⟩ := readDoc_error_noent h
  exact readDoc_absent (shrinks.get gone) fun q above => shrinks.file (clear q above)

theorem removeEach_effect (ps : List FilePath) (s : Disk) :
    ∃ t, removeEach ps s = .ok () t ∧ Shrinks s t ∧ Framed {q | q ∈ ps} ∅ s t ∧
      ∀ p ∈ ps, t.file p = none := by
  induction ps generalizing s with
  | nil => exact ⟨s, rfl, Shrinks.refl s, Framed.refl s, by simp⟩
  | cons p rest ih =>
    have first := ignore_runs (remove p : Call File Unit) s
    obtain ⟨frame, gone⟩ := file_ignore_remove first
    have shrinks : Shrinks s (final (remove p : Call File Unit) s) :=
      wp_final (wp_mono (Shrinks.guards_remove p s (Shrinks.refl s)) (fun _ _ h => h.1)
        fun _ _ h => h)
    obtain ⟨t, run, shrinks', frame', gone'⟩ := ih (final (remove p : Call File Unit) s)
    refine ⟨t, bind_ok.mpr ⟨(), _, first, run⟩, shrinks.trans shrinks', ?_, fun q mem => ?_⟩
    · refine (frame.mono ?_ subset_rfl).trans (frame'.mono ?_ subset_rfl)
      · rintro q rfl
        exact List.mem_cons_self
      · exact fun q mem => List.mem_cons_of_mem p mem
    · rcases List.mem_cons.mp mem with rfl | mem
      · exact shrinks'.file gone
      · exact gone' q mem

/-- The pattern finds every file that it describes. -/
theorem mem_globParts {f : File} (file : s.file p = some f) :
    p ∈ e.globParts s uploadID ↔
      e.Matches ((e.root.join "mpstaging").join (uploadID ++ "__*")) p := by
  refine mem_glob ?_
  rw [DirTree.file_eq_some.mp file]
  rfl

theorem cleanupUpload_effect (run : e.cleanupUpload bucket uploadID s = .ok () t) :
    Shrinks s t ∧ ∀ p f, s.file p = some f →
      (e.Swept bucket uploadID p → t.file p = none) ∧
      (¬ e.Swept bucket uploadID p → t.file p = some f) := by
  obtain ⟨matched, s₁, read, remove₁⟩ := bind_ok.mp run
  obtain ⟨⟨⟩, rfl⟩ := reading_ok.mp read
  obtain ⟨_, s₂, removed, last⟩ := bind_ok.mp remove₁
  obtain ⟨s₂', removed', shrinks, frame, gone⟩ := removeEach_effect (e.globParts s₁ uploadID) s₁
  cases removed.symm.trans removed'
  obtain ⟨frame', gone'⟩ := file_ignore_remove last
  have shrinks' : Shrinks s₂ t := by
    rw [ignore_runs] at last
    cases last
    exact wp_final (wp_mono (Shrinks.guards_remove _ s₂ (Shrinks.refl s₂)) (fun _ _ h => h.1)
      fun _ _ h => h)
  refine ⟨shrinks.trans shrinks', fun p f file => ⟨?_, fun spared => ?_⟩⟩
  · rintro (rfl | pattern)
    · exact gone'
    · exact shrinks'.file (gone p ((mem_globParts file).mpr pattern))
  · have out : p ≠ e.mpuMetaPath bucket uploadID := fun eq => spared (.inl eq)
    have out' : p ∉ e.globParts s₁ uploadID := fun mem => spared (.inr ((mem_globParts file).mp mem))
    rw [frame'.file p out, frame.file p out', file]

theorem appendParts_within (parts : List Part) :
    Within {tmp} ∅ (e.appendParts uploadID tmp parts) := by
  induction parts with
  | nil => exact Within.pure 0
  | cons p rest ih =>
    refine Within.bind (Within.attempt (Within.reading _)) fun r => ?_
    cases r with
    | error err =>
      exact Within.bind (Within.ignore (Within.remove rfl)) fun _ => Within.throw _
    | ok part =>
      refine Within.bind (Within.failing (Within.amend rfl)) fun _ => ?_
      exact Within.bind ih fun _ => Within.pure _

/-- The disk with the payload of a completion joined in the staging area. -/
structure Assembled (e : Env) (s : Disk) (c : Command) (parts : List Part) (total : Int)
    (t : Disk) : Prop where
  same : SameButStaging e s t
  notDir : t.get (e.stagingPath c.blobToken) ≠ some .dir
  payload : '/' ∉ c.uploadID.toList →
    content t (e.stagingPath c.blobToken) = some (.raw (e.joined s c.uploadID parts)) ∧
      total = (e.joined s c.uploadID parts).length ∧
      ∀ p ∈ parts, (s.file (e.mpPartPath c.uploadID p.partNumber)).isSome = true

theorem applyCompleteMultipart_ok (tame : Tame c.bucket) (plain : Plain c.blobToken)
    (run : e.applyCompleteMultipart c s = .ok () t) :
    ∃ mp parts total s₁ s₂ s₃ u, Site.completed e s c = .ok (mp, parts) ∧
      Assembled e s c parts total s₁ ∧
      e.displaceCurrent (e.loadKeyMetaOrNew s c.bucket c.key)
        (e.bucketMetaForWrite s c.bucket).versioningEnabled s₁ =
          .ok (e.madeWay s c.bucket c.key) s₂ ∧
      e.putCurrentBytes c.bucket c.key (e.stagingPath c.blobToken) s₂ = .ok () s₃ ∧
      e.writeKeyMeta ((e.madeWay s c.bucket c.key).prependLatest
        (e.completeMeta (e.bucketMetaForWrite s c.bucket) mp c parts total)) s₃ = .ok () u ∧
      e.cleanupUpload c.bucket c.uploadID u = .ok () t := by
  obtain ⟨bm, s₁, readBucket, run₁⟩ := bind_ok.mp run
  obtain ⟨⟨⟩, rfl⟩ := reading_ok.mp readBucket
  obtain ⟨mp, s₂, readUpload, run₂⟩ := bind_ok.mp run₁
  obtain ⟨record, rfl⟩ := reading_ok.mp readUpload
  obtain ⟨ordered, s₃, readParts, run₃⟩ := bind_ok.mp run₂
  obtain ⟨order, rfl⟩ := reading_ok.mp readParts
  obtain ⟨arrived, s₄, readArrived, run₄⟩ := bind_ok.mp run₃
  obtain ⟨-, rfl⟩ := reading_ok.mp readArrived
  cases arrived with
  | false => cases run₄
  | true =>
    obtain ⟨_, s₅, opened, run₅⟩ := bind_ok.mp run₄
    obtain ⟨total, s₆, appended, run₆⟩ := bind_ok.mp run₅
    obtain ⟨km, s₇, readKey, run₇⟩ := bind_ok.mp run₆
    obtain ⟨⟨⟩, rfl⟩ := reading_ok.mp readKey
    have opened := sys_ok.mp opened
    have assembled : SameButStaging e s₄ s₇ := by
      have first : SameButStaging e s₄ s₅ :=
        SameButStaging.of_get (area_staging plain) fun q ne => by
          rw [(writeFile_ok opened).2 q, if_neg ne]
      exact first.trans (SameButStaging.of_get (area_staging plain)
        (wp_ok (appendParts_get ordered s₅) appended))
    have staged : s₇.get (e.stagingPath c.blobToken) ≠ some .dir := by
      intro dir
      have frame := wp_ok (appendParts_within ordered s₅) appended
      have before := frame.dir _ (Set.notMem_empty _) dir
      rw [(writeFile_ok opened).2, if_pos rfl] at before
      cases before
    have payload : '/' ∉ c.uploadID.toList →
        content s₇ (e.stagingPath c.blobToken) = some (.raw (e.joined s₄ c.uploadID ordered)) ∧
          total = (e.joined s₄ c.uploadID ordered).length ∧
          ∀ p ∈ ordered, (s₄.file (e.mpPartPath c.uploadID p.partNumber)).isSome = true := by
      intro named
      have apart : ∀ p ∈ ordered,
          e.mpPartPath c.uploadID p.partNumber ≠ e.stagingPath c.blobToken := fun p _ =>
        area_ne (mpPartPath_eq named _ ▸ List.suffix_cons _ _) (area_staging plain) (by decide)
      exact (wp_ok (assembled_wp apart)
        (bind_ok.mpr ⟨(), s₅, sys_ok.mpr opened, appended⟩)).2.imp_right (And.imp_right And.right)
    rw [assembled.loadKeyMetaOrNew tame] at run₇
    obtain ⟨r, s₈, tried, run₈⟩ := bind_ok.mp run₇
    cases r with
    | error err =>
      obtain ⟨_, s₉, -, failed⟩ := bind_ok.mp run₈
      cases failed
    | ok km' =>
      have displace := attempt_ok tried
      obtain rfl := displaceCurrent_value displace
      obtain ⟨_, s₉, install, run₉⟩ := bind_ok.mp run₈
      obtain ⟨_, u, recorded, cleanup⟩ := bind_ok.mp run₉
      refine ⟨mp, ordered, total, s₇, s₈, s₉, u, ?_, ⟨assembled, staged, payload⟩, displace,
        install, recorded, cleanup⟩
      rw [Site.completed, record, except_ok_bind, order, except_ok_bind]

end Env

end D9Store
