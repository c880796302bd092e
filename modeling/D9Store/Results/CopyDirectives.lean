import D9Store.Key.Metadata
import D9Store.Keyspace.Run

/-!
Where the metadata of a copy come from.

The record of a copy is that of its source, with an empty ACL, or a new one made from the command
when the metadata are to be replaced. The lock of the source stays in the first case and its tags
are gone in the second one, and an ACL in the command is never looked at.
-/

namespace D9Store

open Posix FilePath

namespace Env

variable {e : Env} {bm : BucketMeta} {c : Command} {src v : ObjectMeta}

/-- The ACL that a command supplies. -/
def suppliedACL (e : Env) (c : Command) : Option ACL :=
  if c.config = "" then none else e.unmarshalACL c.config

/-- The command replaces what the directive is about. -/
def replaces (c : Command) (directive : String) : Bool := c.metaMap.find directive == "REPLACE"

/-- Every part of the new version has the origin it should have. -/
structure Origins (e : Env) (bm : BucketMeta) (c : Command) (src v : ObjectMeta) : Prop where
  etag : v.etag = src.etag
  size : v.size = src.size
  headers : v.headers = if replaces c "metadata-directive" then (e.metaFromCommand c 0 "" "").headers
    else src.headers
  tags : replaces c "tagging-directive" = false → v.tags = src.tags
  acl : v.acl = e.suppliedACL c
  retention : v.retention = e.defaultRetention bm c
  hold : v.hold = none

/-! ### The record of a copy -/

/-- The record before the bucket's defaults are applied. -/
def copyRecord (e : Env) (bm : BucketMeta) (c : Command) (src : ObjectMeta) : ObjectMeta :=
  let nv :=
    if replaces c "metadata-directive" then
      { e.metaFromCommand c src.size src.etag (writeVersionID bm c) with
        blobID := "", storageClass := src.storageClass }
    else
      { src with
        bucket := c.bucket, key := c.key, versionID := writeVersionID bm c, blobID := "",
        lastModified := e.mtime c, isLatest := false, acl := none }
  if replaces c "tagging-directive" then { nv with tags := [] } else nv

theorem copyMeta_eq : e.copyMeta bm c src =
    e.applyLockDefaults bm (e.copyRecord bm c src) c := by
  simp only [copyMeta, copyRecord, replaces, beq_iff_eq]

theorem copyRecord_fields (e : Env) (bm : BucketMeta) (c : Command) (src : ObjectMeta) :
    (e.copyRecord bm c src).etag = src.etag ∧ (e.copyRecord bm c src).size = src.size ∧
      (e.copyRecord bm c src).headers =
        (if replaces c "metadata-directive" then (e.metaFromCommand c 0 "" "").headers
          else src.headers) ∧
      (e.copyRecord bm c src).tags =
        (if replaces c "tagging-directive" || replaces c "metadata-directive" then []
          else src.tags) ∧
      (e.copyRecord bm c src).acl = none ∧
      (e.copyRecord bm c src).retention =
        (if replaces c "metadata-directive" then none else src.retention) ∧
      (e.copyRecord bm c src).hold = if replaces c "metadata-directive" then none else src.hold := by
  unfold copyRecord
  cases replaces c "metadata-directive" <;> cases replaces c "tagging-directive" <;>
    exact ⟨rfl, rfl, rfl, rfl, rfl, rfl, rfl⟩

theorem copyMeta_fields (e : Env) (bm : BucketMeta) (c : Command) (src : ObjectMeta) :
    (e.copyMeta bm c src).etag = src.etag ∧ (e.copyMeta bm c src).size = src.size ∧
      (e.copyMeta bm c src).headers =
        (if replaces c "metadata-directive" then (e.metaFromCommand c 0 "" "").headers
          else src.headers) ∧
      (e.copyMeta bm c src).tags =
        (if replaces c "tagging-directive" || replaces c "metadata-directive" then []
          else src.tags) ∧
      (e.copyMeta bm c src).acl = none ∧
      (e.copyMeta bm c src).retention =
        (if replaces c "metadata-directive" then none else src.retention).or
          (e.defaultRetention bm c) ∧
      (e.copyMeta bm c src).hold = if replaces c "metadata-directive" then none else src.hold := by
  obtain ⟨etag, size, headers, tags, acl, retention, hold⟩ :=
    copyRecord_fields e bm c src
  rw [copyMeta_eq, applyLockDefaults_or]
  refine ⟨etag, size, headers, tags, acl, ?_, hold⟩
  rw [retention]

/-- The origins of a version that says what the record of the copy says. -/
theorem origins_iff (same : v.SameMeta (e.copyMeta bm c src)) :
    e.Origins bm c src v ↔
      v.size = src.size ∧
      (replaces c "metadata-directive" = true → replaces c "tagging-directive" = false →
        src.tags = []) ∧
      e.suppliedACL c = none ∧
      (replaces c "metadata-directive" = false →
        src.hold = none ∧ (src.retention = none ∨ src.retention = e.defaultRetention bm c)) := by
  obtain ⟨etag, size, headers, tags, acl, retention, hold⟩ :=
    copyMeta_fields e bm c src
  constructor
  · rintro ⟨-, vsize, -, vtags, vacl, vretention, vhold⟩
    rw [same.acl, acl] at vacl
    rw [same.retention, retention] at vretention
    rw [same.hold, hold] at vhold
    refine ⟨vsize, fun replace keep => ?_, vacl.symm, fun inherit => ?_⟩
    · rw [← vtags keep, same.tags, tags, replace, Bool.or_true, if_pos rfl]
    · rw [inherit] at vretention vhold
      refine ⟨vhold, ?_⟩
      cases held : src.retention with
      | none => exact .inl rfl
      | some r =>
        rw [held] at vretention
        exact .inr vretention
  · rintro ⟨vsize, lost, noACL, lock⟩
    refine ⟨same.etag.trans etag, vsize, same.headers.trans headers, fun keep => ?_, ?_, ?_, ?_⟩
    · rw [same.tags, tags, keep, Bool.false_or]
      split
      · rename_i replace
        exact (lost replace keep).symm
      · rfl
    · rw [same.acl, acl, noACL]
    · rw [same.retention, retention]
      split
      · rfl
      · rename_i inherit
        rcases (lock (by simpa using inherit)).2 with none_ | default
        · rw [none_]
          rfl
        · rw [default]
          simp
    · rw [same.hold, hold]
      split
      · rfl
      · rename_i inherit
        exact (lock (by simpa using inherit)).1

end Env

/-! ### The copy -/

namespace Site

variable {e : Env} {x : Site e} {s t : Disk} {c : Command} {src : ObjectMeta} {p : FilePath}

/-- A copy that finds its source undisturbed gives every part of the new version its proper origin
exactly when the source has no tags that a replacement of the metadata would lose, the command
supplies no ACL, the source has no lock of its own that the copy would inherit, and its recorded
size is the true one where the copy is the only version. -/
theorem copy_origins_iff (standing : x.Standing s) (addr : x.Addresses c)
    (id : (e.bucketMetaForWrite s x.bucket).versioningEnabled = true → Nameable c.versionID)
    (source : copySource e s c = .ok (src, p)) (copyable : x.Copyable s c)
    (run : e.applyCopyObject c s = .ok () t) :
    (∃ v, (x.versions t).head? = some v ∧
        e.Origins (e.bucketMetaForWrite s x.bucket) c src v ∧ content t x.op = content s p) ↔
      (Env.replaces c "metadata-directive" = true → Env.replaces c "tagging-directive" = false →
        src.tags = []) ∧
      e.suppliedACL c = none ∧
      (Env.replaces c "metadata-directive" = false → src.hold = none ∧
        (src.retention = none ∨
          src.retention = e.defaultRetention (e.bucketMetaForWrite s x.bucket) c)) ∧
      (D9Store.History.displaced (e.bucketMetaForWrite s x.bucket).versioningEnabled
        (x.versions s) = [] → ∀ f, s.file p = some f → src.size = e.size f.content) := by
  obtain ⟨present, apart, stays⟩ := copyable (src, p) (by rw [source]; rfl)
  obtain ⟨g, file⟩ := Option.isSome_iff_exists.mp present
  have kept : p ∉ x.displacedCells (D9Store.History.archivedID
      (e.bucketMetaForWrite s x.bucket).versioningEnabled (x.versions s)) := by
    rintro ⟨id, arch, h | h | h⟩
    · exact (stays id arch).1 h
    · exact (stays id arch).2.1 h
    · exact (stays id arch).2.2 h
  have live := (copySource_ok source).choose_spec.choose_spec.2.2.1
  have installed := wp_ok (applyCopyObject_wp standing.ready standing.sound addr id source file apart
    kept) run
  obtain ⟨v, head, same, size⟩ := installed.recorded.latest (copyMeta_live _ _ live)
    (copyMeta_blobID _ _ _) installed.current
  have bytes : content t x.op = content s p := by
    rw [installed.current, content, file, Option.map_some]
  have only : ∀ f, s.file p = some f → f = g := fun f found => by
    rw [file] at found
    exact (Option.some.inj found).symm
  rw [(Env.copyMeta_fields e _ c src).2.1] at size
  constructor
  · rintro ⟨w, first, origins, -⟩
    rw [head] at first
    cases first
    obtain ⟨vsize, tags, acl, lock⟩ := (Env.origins_iff same).mp origins
    refine ⟨tags, acl, lock, fun sole f found => ?_⟩
    rw [only f found, ← vsize, size, if_pos sole]
  · rintro ⟨tags, acl, lock, sized⟩
    refine ⟨v, head, (Env.origins_iff same).mpr ⟨?_, tags, acl, lock⟩, bytes⟩
    rw [size]
    split
    · rename_i sole
      exact (sized sole g file).symm
    · rfl

end Site

/-! ### Copies of `k` to `l` -/

/-- The object `k`, put with these extras. -/
def putWith (extras : StrMap) : List Input :=
  [.command Small.create, Small.payload 1,
    .command { Small.put "k" 1 with metaMap := (Command.metaMTime, "2024") :: extras }]

def copyToL (directives : StrMap) : Command :=
  { op := .copyObject, bucket := "b", key := "l", versionID := uuid 2,
    metaMap := (Command.metaMTime, "2024") :: directives,
    source := some { bucket := "b", key := "k" } }

/-- An object without tags and locks is copied as it should be. -/
theorem plain_copy_origins :
    let e := smallEnv false
    let s := e.feed (putWith []) (smallDisk false)
    let t := final (e.applyDisk (copyToL [])) s
    ∃ src p v, Site.copySource e s (copyToL []) = .ok (src, p) ∧
      (Small.l.versions t).head? = some v ∧
      e.Origins (e.bucketMetaForWrite s Small.l.bucket) (copyToL []) src v ∧
      content t Small.l.op = content s p := by
  intro e s t
  have apart : Apart [Small.k, Small.l] := by decide +kernel
  have fresh : Fresh e (smallDisk false) := by decide +kernel
  have orderly : e.Along (Orderly [Small.k, Small.l]) (putWith []) (smallDisk false) := by
    decide +kernel
  have standing : Small.l.Standing s :=
    ((fresh.keyspace apart).run apart orderly).1.standing Small.l (by simp)
  have addr : Small.l.Addresses (copyToL []) := by decide
  have off : (e.bucketMetaForWrite s Small.l.bucket).versioningEnabled = false := by decide +kernel
  have copyable : Small.l.Copyable s (copyToL []) := by decide +kernel
  have ran : (outcome (e.applyCopyObject (copyToL [])) s).isOk = true := by decide +kernel
  have found : (Site.copySource e s (copyToL [])).toOption.any (fun (src, p) =>
      src.tags == [] && src.hold.isNone && src.retention.isNone &&
        (s.file p).all fun f => src.size == e.size f.content) = true := by
    decide +kernel
  have noACL : e.suppliedACL (copyToL []) = none := rfl
  have same : t = final (e.applyCopyObject (copyToL [])) s := rfl
  clear_value t s
  cases source : Site.copySource e s (copyToL []) with
  | error err =>
    rw [source] at found
    cases found
  | ok pair =>
    obtain ⟨src, p⟩ := pair
    simp only [source, Except.toOption, Option.any_some, Bool.and_eq_true, beq_iff_eq,
      Option.isNone_iff_eq_none] at found
    obtain ⟨⟨⟨tags, hold⟩, retention⟩, size⟩ := found
    subst same
    have sized : ∀ f, s.file p = some f → src.size = e.size f.content := fun f file => by
      simpa [file] using size
    obtain ⟨v, head, origins, bytes⟩ := (Site.copy_origins_iff standing addr
      (fun on => by rw [off] at on; cases on) source copyable (run_of_isOk ran)).mpr
      ⟨fun _ _ => tags, noACL, fun _ => ⟨hold, .inl retention⟩, fun _ => sized⟩
    exact ⟨src, p, v, rfl, head, origins, bytes⟩

/-- A copy inherits the legal hold of its source, and loses the tags when only the metadata are
replaced. -/
theorem copy_inherits_hold_and_loses_tags :
    let e := smallEnv false
    let copied (extras directives : StrMap) : Option ObjectMeta :=
      (Small.l.versions (final (e.applyDisk (copyToL directives))
        (e.feed (putWith extras) (smallDisk false)))).head?
    (copied [(Command.metaLegalHold, "ON")] []).map (·.hold) = some (some ⟨"ON"⟩) ∧
      (copied [(Command.metaTags, "x")] []).map (·.tags) = some [("tag", "x")] ∧
      (copied [(Command.metaTags, "x")] [("metadata-directive", "REPLACE")]).map (·.tags) = some [] := by
  decide +kernel

end D9Store
