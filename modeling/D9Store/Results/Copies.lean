import D9Store.Keyspace.Run

/-!
Copies.

A copy resolves the path of its source before it displaces the object file of the destination.
It is right as long as the source is not displaced itself, and no blob is overwritten by what
is displaced.
-/

namespace D9Store

open Posix FilePath Versioned

variable {e : Env} {keys : List (Site e)} {s t : Disk} {c : Command} {bytes : Bytes}

/-! ### The abstract histories -/

section Histories

variable {β : Type} {enabled : Bool} {id vid : String} {body : β} {h : Versioned.History β}

/-- The version a write overwrites: an unversioned object, while versioning is not on. -/
def overwrites (enabled : Bool) : Versioned.History β → Bool
  | [] => false
  | cur :: _ => cur.here && !(enabled || cur.id != "null")

theorem versions_write : (h.put enabled id body).versions =
    ⟨id, false, some body⟩ :: if overwrites enabled h then h.versions.tail else h.versions := by
  rw [Versioned.History.put, Versioned.History.versions_push]
  refine congrArg _ ?_
  cases h with
  | nil => rfl
  | cons cur rest =>
    rw [Versioned.History.displaced, overwrites]
    cases here : cur.here with
    | false => rfl
    | true => cases (enabled || cur.id != "null") <;> rfl

theorem overwrites_null (lost : overwrites enabled h = true) :
    enabled = false ∧ ∃ cur rest, h = cur :: rest ∧ cur.marker = false ∧ cur.id = "null" := by
  cases h with
  | nil => cases lost
  | cons cur rest =>
    simp only [overwrites, Entry.here, Bool.and_eq_true, Bool.not_eq_true', beq_iff_eq,
      Bool.or_eq_false_iff, bne_eq_false_iff_eq] at lost
    exact ⟨lost.2.1, cur, rest, rfl, lost.1.2, lost.2.2⟩

/-- A write hides and overwrites no version of another name. -/
theorem pick_write (named : vid ≠ "") (own : enabled = true ∨ vid ≠ "null") (other : id ≠ vid) :
    pick (h.put enabled id body).versions vid = pick h.versions vid := by
  have front : pick (h.put enabled id body).versions vid =
      pick (if overwrites enabled h then h.versions.tail else h.versions) vid := by
    rw [versions_write]
    unfold pick
    rw [if_neg named, if_neg named, List.find?_cons_of_neg (by simpa using other)]
  rw [front]
  split
  · rename_i lost
    obtain ⟨off, cur, rest, rfl, -, null⟩ := overwrites_null lost
    have unlike : cur.id ≠ vid := fun eq => by
      rcases own with on | own
      · rw [off] at on
        cases on
      · exact own (eq.symm.trans null)
    unfold pick
    rw [if_neg named, if_neg named, Versioned.History.versions, List.map_cons, List.tail_cons,
      List.find?_cons_of_neg (by simpa [Entry.version] using unlike)]
  · rfl

end Histories

/-! ### The copy -/

/-- The bytes of the source of a copy. -/
def sourceBytes (e : Env) (s : Disk) (c : Command) : Except Err Bytes :=
  match c.source with
  | none => .error (.api errInvalidKey)
  | some ref =>
    (e.getObject s ref.bucket ref.key { versionID := ref.versionID }).map GetResult.body

theorem copySource_of_bytes (h : sourceBytes e s c = .ok bytes) :
    ∃ src p g, Site.copySource e s c = .ok (src, p) ∧ s.file p = some g ∧
      e.bytes g.content = bytes := by
  unfold sourceBytes at h
  cases source : c.source with
  | none => simp [source] at h
  | some ref =>
    rw [source] at h
    cases got : e.getObject s ref.bucket ref.key { versionID := ref.versionID } with
    | error err => simp [got, Except.map] at h
    | ok r =>
      simp only [got, Except.map, Except.ok.injEq] at h
      obtain ⟨v, live, got⟩ := except_bind_ok got
      obtain ⟨⟨w, km⟩, found, live⟩ := except_bind_ok live
      obtain ⟨p, phys, got⟩ := except_bind_ok got
      cases marker : w.deleteMarker with
      | true => simp [marker] at live
      | false =>
        obtain rfl : w = v := by simpa [marker] using live
        rcases node : s.get p with _ | _ | g
        · simp [node] at got
        · simp [node] at got
        · obtain rfl : _ = r := by simpa [node] using got
          refine ⟨w, p, g, ?_, DirTree.file_eq_some.mpr node, h⟩
          simp [Site.copySource, source, found, marker, phys]

namespace Site

variable {x : Site e}

/-- The destination takes the copy: reads accept its bucket, no file stands among its parent
directories, its new version has a name of its own and its object file a fresh place, and the
source is neither displaced nor overwritten before it is read. -/
def Receives (x : Site e) (s : Disk) (c : Command) : Prop :=
  (validBucketName x.bucket = true ∨ (e.readBucketMeta s x.bucket).isOk = true) ∧
    (∀ q ∈ x.op.tail.tails, s.file q = none) ∧ x.Writable s c ∧ x.Copyable s c ∧
    ((e.bucketMetaForWrite s x.bucket).versioningEnabled = true →
      ∀ v ∈ x.versions s, v.versionID ≠ c.versionID)

instance : Decidable (x.Receives s c) := by
  unfold Receives; infer_instance

/-- A copy that the destination takes goes through. -/
theorem Receives.runs (receives : x.Receives s c) (standing : x.Standing s) (addr : x.Addresses c)
    (free : s.isDir x.op = false) {bytes : Bytes} (source : sourceBytes e s c = .ok bytes) :
    ∃ t, e.applyCopyObject c s = .ok () t := by
  obtain ⟨-, clear, ⟨id, -⟩, copyable, -⟩ := receives
  obtain ⟨src, p, g, source, file, -⟩ := copySource_of_bytes source
  obtain ⟨-, apart, stays⟩ := copyable (src, p) (by rw [source]; rfl)
  have kept : p ∉ x.displacedCells (D9Store.History.archivedID
      (e.bucketMetaForWrite s x.bucket).versioningEnabled (x.versions s)) := by
    rintro ⟨id, arch, h | h | h⟩
    · exact (stays id arch).1 h
    · exact (stays id arch).2.1 h
    · exact (stays id arch).2.2 h
  have spec := applyCopyObject_wp standing.ready standing.sound addr id source file apart kept
  cases run : e.applyCopyObject c s with
  | ok a t => exact ⟨t, rfl⟩
  | error err t =>
    have left := wp_error spec run
    obtain ⟨q, sub, found⟩ := (left standing.tmp).blocked (not_dir free)
    rw [clear q ((List.mem_tails q _).mpr sub)] at found
    cases found

/-- Where there is an object, reads accept the bucket. -/
theorem Acts.readable {act : Act Content} (h : x.Acts act (besides e c) s t) (proper : x.Proper)
    (addr : x.Addresses c) (fair : x.Fair s c) {f : File} (file : t.file x.op = some f)
    (known : validBucketName x.bucket = true ∨ (e.readBucketMeta s x.bucket).isOk = true) :
    ∃ bm, e.readBucketMeta t x.bucket = .ok bm := by
  have dir : t.isDir (e.bucketDir x.bucket) = true := by
    have above := bucketDir_above proper
    refine DirTree.isDir_iff.mpr (DirTree.get_ancestor (p := x.op)
      (by simp [DirTree.file_eq_some.mp file]) ?_ fun eq => ?_)
    · rw [Env.bucketDir, join_plain proper.1]
      exact above.trans (List.tail_suffix _)
    · rw [← eq, Env.bucketDir, join_plain proper.1] at above
      exact absurd above.length_le (by simp)
  unfold Env.readBucketMeta at *
  cases now : e.readDoc t (e.bucketMetaPath x.bucket) with
  | ok doc => exact ⟨_, rfl⟩
  | error err =>
    cases valid : validBucketName x.bucket with
    | true => exact ⟨_, by simp only [dir]; rfl⟩
    | false =>
      cases before : e.readDoc s (e.bucketMetaPath x.bucket) with
      | error err' => simp [before, valid, Except.isOk, Except.toBool] at known
      | ok doc =>
        obtain ⟨g, config, found⟩ := readDoc_ok before
        have same : t.file (e.bucketMetaPath x.bucket) = some g :=
          (h.frame.file _ fun mem => mem.elim (config_out x.tame.1)
            (config_besides x.tame.1 addr fair)).trans config
        rw [readDoc_of_document same found] at now
        cases now

end Site

/-- The destination has the bytes as its latest version, in front of its earlier ones, which are
listed and served as before apart from an overwritten unversioned one. -/
structure Copied (x : Site e) (id : String) (enabled : Bool) (bytes : Bytes) (s t : Disk) : Prop where
  listed : listed x t = (id, false) :: listed x s ∨
    enabled = false ∧ (listed x s).head? = some ("null", false) ∧
      listed x t = (id, false) :: (listed x s).tail
  latest : got x t "" = .ok bytes
  served : ∀ vid old, vid ≠ "" → (enabled = true ∨ vid ≠ "null") → got x s vid = .ok old →
    got x t vid = .ok old

theorem got_bucket {x : Site e} {vid : String} (h : got x s vid = .ok bytes) :
    ∃ bm, e.readBucketMeta s x.bucket = .ok bm := by
  unfold got at h
  cases bucket : e.readBucketMeta s x.bucket with
  | ok bm => exact ⟨bm, rfl⟩
  | error err =>
    simp [Env.getObject, Env.liveVersion, Env.resolveVersion, bucket, Except.map] at h

/-- In every state that a run of fair commands reaches, a copy of a readable version to a
destination that takes it succeeds and preserves the source's bytes and the destination's
versions. -/
theorem copy_preserves_versions {ins : List Input} {x : Site e} {bytes : Bytes}
    (start : Fresh e s) (apart : Apart keys) (ok : e.Along (Orderly keys) ins s) (hx : x ∈ keys)
    (addr : x.Addresses c) (op : c.op = .copyObject)
    (source : sourceBytes e (e.feed ins s) c = .ok bytes)
    (free : (e.feed ins s).isDir x.op = false) (receives : x.Receives (e.feed ins s) c) :
    ∃ t, e.applyDisk c (e.feed ins s) = .ok () t ∧
      Copied x (Env.writeVersionID (e.bucketMetaForWrite (e.feed ins s) x.bucket) c)
        (e.bucketMetaForWrite (e.feed ins s) x.bucket).versioningEnabled bytes (e.feed ins s) t := by
  obtain ⟨inv, -⟩ := (start.keyspace apart).run apart ok
  generalize e.feed ins s = u at *
  have standing := inv.standing x hx
  obtain ⟨t, run⟩ := receives.runs standing addr free source
  have run : e.applyDisk c u = .ok () t := by rwa [Env.applyDisk, op]
  obtain ⟨known, -, writable, copyable, fresh⟩ := receives
  have fair : x.Fair u c := by
    simp only [Site.Fair, op]
    exact ⟨writable, copyable⟩
  obtain ⟨inv', own, -, acts⟩ := inv.applied apart hx addr (by rw [op]; rfl) fair run
  have standing' := inv'.standing x hx
  obtain ⟨src, p, g, found, file, rfl⟩ := copySource_of_bytes source
  have act : Site.actOf e u c = .put (e.bucketMetaForWrite u x.bucket).versioningEnabled
      (Env.writeVersionID (e.bucketMetaForWrite u x.bucket) c) g.content := by
    simp [Site.actOf, op, found, Except.toOption, content, file, Site.writes, addr.1]
  rw [act] at own
  have versions : (x.entries t).versions = _ := congrArg Versioned.History.versions own
  rw [Act.run, versions_write] at versions
  have object : ∃ f, t.file x.op = some f := by
    refine Option.isSome_iff_exists.mp ?_
    rw [standing'.sound.head]
    cases eq : x.versions t with
    | nil => simp [Site.entries, eq, Versioned.History.versions] at versions
    | cons v rest =>
      rw [Site.entries, eq, Act.run, Versioned.History.put, Versioned.History.push] at own
      have head := (List.cons.inj own).1
      have blob := congrArg Entry.blob head
      have marker := congrArg Entry.marker head
      exact D9Store.History.atKeyPath_iff.mpr ⟨blob, marker⟩
  obtain ⟨f, object⟩ := object
  obtain ⟨bm, bucket'⟩ := acts.readable (apart.proper x hx) addr fair object known
  refine ⟨t, run, ?_, ?_, fun vid old named other h => ?_⟩
  · rw [listed_eq standing, listed_eq standing', versions]
    split
    · rename_i lost
      obtain ⟨off, cur, rest, list, marker, null⟩ := overwrites_null lost
      refine .inr ⟨off, ?_, by rw [List.map_cons, List.map_tail]⟩
      rw [list]
      simp [Versioned.History.versions, Entry.version, marker, null]
    · exact .inl rfl
  · rw [got, Site.getObject_lookup standing' bucket', versions]
    rfl
  · obtain ⟨bm', bucket⟩ := got_bucket h
    rw [got, Site.getObject_lookup standing bucket] at h
    rw [got, Site.getObject_lookup standing' bucket', own]
    refine lookup_congr (pick_write named other fun eq => ?_) h
    obtain ⟨v, mem, name⟩ := Site.named_of_lookup named h
    unfold Env.writeVersionID at eq
    split at eq
    · rename_i enabled
      exact fresh enabled v mem (name.trans eq.symm)
    · rename_i disabled
      exact other.elim disabled fun own' => own' eq.symm

/-- The key `k` with two versions. -/
def copiedKey : List Input :=
  [.command Small.create, .command (Small.versioning "Enabled"), Small.payload 1,
   .command (Small.put "k" 1), Small.payload 2, .command (Small.put "k" 2)]

/-- A copy of a version of `k` to `k` itself. -/
def copyToItself (id : String) : Command :=
  { op := .copyObject, bucket := "b", key := "k", versionID := uuid 3,
    source := some { bucket := "b", key := "k", versionID := id } }

/-- An old version is copied to the front. -/
theorem copy_restores_old_version :
    ∃ t, (smallEnv false).applyDisk (copyToItself (uuid 1))
        ((smallEnv false).feed copiedKey (smallDisk false)) = .ok () t ∧
      Copied Small.k (uuid 3) true [1] ((smallEnv false).feed copiedKey (smallDisk false)) t :=
  copy_preserves_versions (by decide +kernel) (show Apart [Small.k] by decide +kernel)
    (by decide +kernel) (by decide) (by decide) rfl (by decide +kernel) (by decide +kernel)
    (by decide +kernel)

/-- A copy of the latest version to its own key fails, and the key cannot be read any more. -/
theorem copy_of_latest_to_itself_loses_it :
    (sourceBytes (smallEnv false) ((smallEnv false).feed copiedKey (smallDisk false))
        (copyToItself "")).toOption = some [2] ∧
      ((smallEnv false).feed copiedKey (smallDisk false)).isDir Small.k.op = false ∧
      (outcome ((smallEnv false).applyDisk (copyToItself ""))
        ((smallEnv false).feed copiedKey (smallDisk false))).isOk = false ∧
      (got Small.k (final ((smallEnv false).applyDisk (copyToItself ""))
        ((smallEnv false).feed copiedKey (smallDisk false))) "").toOption = none := by
  decide +kernel

end D9Store
