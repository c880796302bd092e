import D9Store.Key.Lookup
import D9Store.Keyspace.Run

/-!
Commands on one key as seen from another.

The reads of a key go by its history, the files its history names and the configuration of its
bucket. None of them is touched by a command on another key that finds what it needs. So along a run
each key has the history that its own commands give.
-/

namespace D9Store

open Posix FilePath Versioned

variable {e : Env} {keys : List (Site e)} {s t : Disk} {c : Command} {bucket : String}

namespace Site

variable {x y : Site e} {bm bm' : BucketMeta} {vid : String}

/-! ### Reads of a key at rest -/

theorem liveVersion_congr {bucket key : String}
    (same : (e.resolveVersion t bucket key vid).map Prod.fst =
      (e.resolveVersion s bucket key vid).map Prod.fst) :
    e.liveVersion t bucket key vid = e.liveVersion s bucket key vid := by
  unfold Env.liveVersion
  cases before : e.resolveVersion s bucket key vid <;>
    cases after : e.resolveVersion t bucket key vid <;>
    simp_all [Except.map]

theorem liveVersion_pick (standing : y.Standing s) (bucket : e.readBucketMeta s y.bucket = .ok bm)
    {v : ObjectMeta} (found : e.liveVersion s y.bucket y.key vid = .ok v) :
    v ∈ y.versions s ∧ v.deleteMarker = false := by
  have resolved : (e.resolveVersion s y.bucket y.key vid).map Prod.fst = _ :=
    resolveVersion_pick standing bucket
  obtain ⟨⟨w, km⟩, run, live⟩ := except_bind_ok found
  rw [run] at resolved
  cases marker : w.deleteMarker with
  | true => simp [marker] at live
  | false =>
    obtain rfl : w = v := by simpa [marker] using live
    refine ⟨?_, marker⟩
    refine mem_of_pickVersion (?_ : y.pickVersion s vid = some w)
    cases picked : y.pickVersion s vid with
    | none => simp [picked, Except.map] at resolved
    | some w' =>
      obtain rfl : w = w' := by simpa [picked, Except.map] using resolved
      rfl

namespace Rests

theorem liveVersion (h : y.Rests s t) (standing : y.Standing s)
    (before : e.readBucketMeta s y.bucket = .ok bm) (after : e.readBucketMeta t y.bucket = .ok bm') :
    e.liveVersion t y.bucket y.key vid = e.liveVersion s y.bucket y.key vid := by
  refine liveVersion_congr ?_
  rw [resolveVersion_pick standing before, resolveVersion_pick (h.standing standing).1 after, h.entries,
    pickVersion, pickVersion, h.versions]

/-- The file of a live version. -/
theorem get_physPath (h : y.Rests s t) (standing : y.Standing s) {v : ObjectMeta}
    (mem : v ∈ y.versions s) (live : v.deleteMarker = false) :
    ∃ p f, e.physPath y.bucket v = .ok p ∧ s.get p = some (.file f) ∧ t.get p = some (.file f) := by
  have body := backed_iff.mp standing.backed v mem live
  rw [bodyAt, live, if_neg Bool.false_ne_true] at body
  by_cases blob : v.blobID = ""
  · rw [if_pos blob, content, Option.isSome_map] at body
    obtain ⟨f, file⟩ := Option.isSome_iff_exists.mp body
    refine ⟨y.op, f, ?_, DirTree.file_eq_some.mp file, DirTree.file_eq_some.mp (h.op.trans file)⟩
    rw [Env.physPath, if_pos blob, standing.sound.shape.own v mem, y.op_eq]
  · rw [if_neg blob, content, Option.isSome_map] at body
    obtain ⟨f, file⟩ := Option.isSome_iff_exists.mp body
    refine ⟨y.blob v.blobID, f, ?_, DirTree.file_eq_some.mp file,
      DirTree.file_eq_some.mp ((h.blob v mem blob).trans file)⟩
    rw [Env.physPath, if_neg blob]
    rfl

theorem getObject (h : y.Rests s t) (standing : y.Standing s)
    (before : e.readBucketMeta s y.bucket = .ok bm) (after : e.readBucketMeta t y.bucket = .ok bm')
    (opt : GetOptions) : e.getObject t y.bucket y.key opt = e.getObject s y.bucket y.key opt := by
  unfold Env.getObject
  rw [h.liveVersion standing before after]
  cases found : e.liveVersion s y.bucket y.key opt.versionID with
  | error err => rfl
  | ok v =>
    obtain ⟨mem, live⟩ := liveVersion_pick standing before found
    obtain ⟨p, f, phys, old, new⟩ := h.get_physPath standing mem live
    simp only [except_ok_bind, phys, old, new]

end Rests

end Site

/-! ### Configurations -/

/-- The bucket has a configuration. -/
def Created (e : Env) (s : Disk) (bucket : String) : Prop :=
  (e.readDoc s (e.bucketMetaPath bucket)).isOk = true

instance (bucket : String) : Decidable (Created e s bucket) := by
  unfold Created; infer_instance

theorem Created.readBucketMeta (h : Created e s bucket)
    (same : t.file (e.bucketMetaPath bucket) = s.file (e.bucketMetaPath bucket)) :
    ∃ bm, e.readBucketMeta t bucket = .ok bm := by
  unfold Created at h
  cases read : e.readDoc s (e.bucketMetaPath bucket) with
  | error err => simp [read, Except.isOk, Except.toBool] at h
  | ok doc =>
    obtain ⟨f, file, found⟩ := readDoc_ok read
    exact ⟨doc.asBucketMeta, by rw [Env.readBucketMeta, readDoc_of_document (same.trans file) found]⟩

theorem Site.Failed.config {x : Site e} (h : x.Failed s t) (noSlash : '/' ∉ bucket.toList) :
    t.file (e.bucketMetaPath bucket) = s.file (e.bucketMetaPath bucket) := by
  have area : e.area "buckets" <:+ e.bucketMetaPath bucket := by
    rw [Env.bucketMetaPath_eq noSlash]
    exact List.suffix_cons _ _
  refine h.frame.file _ ?_
  rintro (eq | staging)
  · exact Env.data_not_area x.root_tmp area eq.symm
  · exact Env.area_ne area staging (by decide) rfl

/-- Every read of the key returns the same. -/
def ReadsAlike (y : Site e) (s t : Disk) : Prop :=
  (∀ vid, e.headObject t y.bucket y.key vid = e.headObject s y.bucket y.key vid) ∧
    ∀ opt, e.getObject t y.bucket y.key opt = e.getObject s y.bucket y.key opt

/-- In every state that a run of fair commands reaches, a fair command on one key, whether it
succeeds or not, leaves the reads of every other key of a created bucket as they are. -/
theorem command_leaves_other_keys {ins : List Input} {x y : Site e} (start : Fresh e s)
    (apart : Apart keys) (ok : e.Along (Orderly keys) ins s) (hx : x ∈ keys) (hy : y ∈ keys)
    (ne : y ≠ x) (addr : x.Addresses c) (object : Site.onKey c.op = true)
    (fair : x.Fair (e.feed ins s) c) (created : Created e (e.feed ins s) y.bucket) :
    ReadsAlike y (e.feed ins s) (final (e.applyDisk c) (e.feed ins s)) := by
  obtain ⟨inv, -⟩ := (start.keyspace apart).run apart ok
  generalize e.feed ins s = u at *
  have standing := inv.standing y hy
  obtain ⟨bm, before⟩ := created.readBucketMeta rfl
  suffices h : y.Rests u (final (e.applyDisk c) u) ∧
      (final (e.applyDisk c) u).file (e.bucketMetaPath y.bucket) =
        u.file (e.bucketMetaPath y.bucket) by
    obtain ⟨rests, config⟩ := h
    obtain ⟨bm', after⟩ := created.readBucketMeta config
    exact ⟨fun vid => rests.liveVersion standing before after,
      fun opt => rests.getObject standing before after opt⟩
  have orderly : Orderly keys u (.command c) := by
    simp only [Orderly, if_pos object]
    exact ⟨x, hx, addr, fair⟩
  have step := inv.stepped apart orderly
  rw [Env.take] at step
  generalize final (e.applyDisk c) u = t at step
  cases step with
  | @acts x' _ hx' addr' object' fair' run h =>
    obtain rfl : x' = x := Site.addresses_unique addr' addr
    have sane := Site.sane_of_fair (inv.standing x' hx') addr fair
    refine ⟨h.rests apart inv hx hy (Ne.symm ne) sane (besides_aside addr fair), ?_⟩
    exact h.frame.file _ fun mem => mem.elim (Site.config_out y.tame.1)
      (Site.config_besides y.tame.1 addr fair)
  | failed hx' addr' no h => exact ⟨h.rests apart inv hx' hy, h.config y.tame.1⟩
  | emptied op plain last =>
    rw [op] at object
    cases object
  | aside plain other frame =>
    rw [other c rfl] at object
    cases object

/-- Two keys, and a payload for the second one. -/
def twoKeys : List Input :=
  [.command Small.create, .command (Small.versioning "Enabled"), Small.payload 1,
   .command (Small.put "k" 1), Small.payload 2, .command (Small.put "l" 2), Small.payload 3]

theorem put_leaves_other_key :
    ReadsAlike Small.k ((smallEnv false).feed twoKeys (smallDisk false))
      (final ((smallEnv false).applyDisk (Small.put "l" 3))
        ((smallEnv false).feed twoKeys (smallDisk false))) :=
  command_leaves_other_keys (x := Small.l) (by decide +kernel)
    (show Apart [Small.k, Small.l] by decide +kernel) (by decide +kernel) (by decide) (by decide)
    (by decide) (by decide) rfl (by decide +kernel) (by decide +kernel)

/-- Two keys written before versioning is on; the object of the first one is filed away since. -/
def filedNull : List Input :=
  [.command Small.create, Small.payload 1, .command (Small.put "k" 1), Small.payload 2,
   .command (Small.put "l" 2), .command (Small.versioning "Enabled"), Small.payload 3,
   .command (Small.put "k" 3), Small.payload 4]

/-- Filing the object of `l` overwrites the unversioned object of `k`. -/
theorem put_overwrites_other_key :
    ((smallEnv false).getObject ((smallEnv false).feed filedNull (smallDisk false)) "b" "k"
        { versionID := "null" }).toOption.map GetResult.body = some [1] ∧
      ((smallEnv false).getObject (final ((smallEnv false).applyDisk (Small.put "l" 4))
        ((smallEnv false).feed filedNull (smallDisk false))) "b" "k"
        { versionID := "null" }).toOption.map GetResult.body = some [2] := by
  decide +kernel

/-! ### Reads along a run -/

/-- In every state that a run of fair commands reaches, the versions of a key are listed, and each
is read, as its ledger has them. -/
theorem reads_follow_ledger {ins : List Input} {x : Site e} (start : Fresh e s) (apart : Apart keys)
    (ok : e.Along (Orderly keys) ins s) (hx : x ∈ keys)
    (created : Created e (e.feed ins s) x.bucket) :
    listed x (e.feed ins s) = (x.ledger ins s []).versions.map (fun v => (v.id, v.marker)) ∧
      ∀ vid, got x (e.feed ins s) vid = e.lookup (x.ledger ins s []).versions vid := by
  obtain ⟨inv, folded⟩ := (start.keyspace apart).run apart ok
  have standing := inv.standing x hx
  have ledger := folded x hx
  rw [Site.entries_nil (start.file _) (start.file _)] at ledger
  rw [← ledger]
  obtain ⟨bm, bucket⟩ := created.readBucketMeta rfl
  exact ⟨listed_eq standing, fun vid => Site.getObject_lookup standing bucket⟩

theorem two_keys_follow_ledger :
    let t := (smallEnv false).feed twoKeys (smallDisk false)
    let ledger := (Small.k.ledger twoKeys (smallDisk false) []).versions
    listed Small.k t = ledger.map (fun v => (v.id, v.marker)) ∧
      ∀ vid, got Small.k t vid = (smallEnv false).lookup ledger vid :=
  reads_follow_ledger (by decide) (show Apart [Small.k, Small.l] by decide) (by decide) (by decide)
    (by decide)

end D9Store
