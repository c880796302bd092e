import D9Store.Key.Metadata
import D9Store.Keyspace.Needed
import D9Store.Results.VersionedKey
import D9Store.Uploads.Ledger

/-!
Metadata commands change one field of one version.

The command reads the whole history of the key, edits one version and writes everything back,
either to the history file or to the attributes of the object file. A history file exists only
where the attributes do not suffice, and so what comes from the attributes goes back there. That
holds on every disk that plain names have led to, for every key: also for one whose history was
recorded under another spelling of its name. The time of an object file is written back with the
attributes, so that the file must have one that can be set.
-/

namespace D9Store

open Posix FilePath

namespace Env

variable {e : Env} {c : Command} {f : ObjectMeta → Except Err ObjectMeta} {vid : String}
    {vs : List ObjectMeta}

/-! ### The change -/

/-- The position of the version a metadata command is about: the named one, else the latest. -/
def targetOf (c : Command) (vs : List ObjectMeta) : Option Nat :=
  if c.versionID ≠ "" then vs.findIdx? fun v => v.versionID = c.versionID
  else if vs.head?.any fun v => !v.deleteMarker then some 0 else none

/-- `w` is `v` with the command's field set to the command's value. -/
def Sets (e : Env) (c : Command) (v w : ObjectMeta) : Prop :=
  match c.op with
  | .putObjectAcl => ∃ acl, e.unmarshalACL c.config = some acl ∧ w = { v with acl := some acl }
  | .putObjectTagging => ∃ tags, e.unmarshalTags c.config = some tags ∧ w = { v with tags }
  | .deleteObjectTag => w = { v with tags := [] }
  | .putObjectRetention =>
    ∃ r, e.unmarshalRetention c.config = some r ∧ w = { v with retention := some r }
  | .putObjectLegalHold =>
    ∃ hold, e.unmarshalLegalHold c.config = some hold ∧ w = { v with legalHold := some hold }
  | _ => False

theorem sets_of_mutate (op : c.op ∈ metadataOps) {v w : ObjectMeta} (h : e.mutate c v = .ok w) :
    e.Sets c v w := by
  unfold mutate at h
  unfold Sets
  simp only [metadataOps, List.mem_cons, List.not_mem_nil, or_false] at op
  rcases op with op | op | op | op | op <;> rw [op] at h ⊢ <;> dsimp only at h ⊢
  case inr.inr.inl =>
    cases h
    rfl
  all_goals
    split at h
    · rename_i value found
      cases h
      exact ⟨value, found, rfl⟩
    · cases h

theorem amendVersion_set {vs' : List ObjectMeta} (h : amendVersion f vid vs = .ok vs') :
    ∃ i v w, vs.findIdx? (fun v => v.versionID = vid) = some i ∧ vs[i]? = some v ∧ f v = .ok w ∧
      vs' = vs.set i w := by
  induction vs generalizing vs' with
  | nil => cases h
  | cons v rest ih =>
    rw [amendVersion] at h
    split at h
    · rename_i named
      obtain ⟨w, changed, eq⟩ := except_bind_ok h
      cases eq
      exact ⟨0, v, w, by simp [List.findIdx?_cons, named], rfl, changed, rfl⟩
    · rename_i other
      obtain ⟨rest', amended, eq⟩ := except_bind_ok h
      cases eq
      obtain ⟨i, u, w, found, at_, changed, rfl⟩ := ih amended
      exact ⟨i + 1, u, w, by simp [List.findIdx?_cons, other, found], at_, changed, rfl⟩

theorem amendTarget_set {vs' : List ObjectMeta} (h : e.amendTarget c vs = .ok vs') :
    ∃ i v w, targetOf c vs = some i ∧ vs[i]? = some v ∧ e.mutate c v = .ok w ∧ vs' = vs.set i w := by
  unfold amendTarget at h
  unfold targetOf
  split at h
  · rename_i named
    rw [if_pos named]
    exact amendVersion_set h
  · rename_i unnamed
    rw [if_neg unnamed]
    cases vs with
    | nil => cases h
    | cons v rest =>
      rw [amendLatest] at h
      split at h
      · cases h
      · rename_i live
        obtain ⟨w, changed, eq⟩ := except_bind_ok h
        cases eq
        exact ⟨0, v, w, by simp [live], rfl, changed, rfl⟩

theorem applyDisk_metadata (op : c.op ∈ metadataOps) :
    e.applyDisk c = e.applyObjectMetaMutation c := by
  simp only [metadataOps, List.mem_cons, List.not_mem_nil, or_false] at op
  rcases op with op | op | op | op | op <;> rw [applyDisk, op]

theorem amendVersion_missing (missing : ∀ v ∈ vs, v.versionID ≠ vid) :
    amendVersion f vid vs = .error (.api errNoSuchVersion) := by
  induction vs with
  | nil => rfl
  | cons v rest ih =>
    obtain ⟨other, others⟩ := List.forall_mem_cons.mp missing
    rw [amendVersion, if_neg other, ih others]
    rfl

end Env

/-- The version with a legal hold that has no status taken as absent. -/
def ObjectMeta.effective (v : ObjectMeta) : ObjectMeta := { v with legalHold := v.hold }

namespace Env

variable {e : Env} {s t : Disk} {c : Command}

/-- What an object file says about its version apart from the metadata proper. -/
theorem fileMeta_core (bucket key : String) (f : File) :
    let v := (e.fileMeta bucket key f).1
    v.bucket = bucket ∧ v.key = key ∧ v.blobID = "" ∧ v.size = e.size f.content ∧
      v.lastModified = f.mtime ∧ v.isLatest = true ∧ v.deleteMarker = false := by
  unfold fileMeta
  split <;> exact ⟨rfl, rfl, rfl, rfl, rfl, rfl, rfl⟩

end Env

/-- Setting the file's time to what it is changes nothing. -/
def File.Dated (f : File) : Prop := f.mtime.isZero = false → f.mtime.fileTime = f.mtime

instance (f : File) : Decidable f.Dated := by
  unfold File.Dated; infer_instance

/-- A version that was read from an object file, with other metadata, reads back from there. -/
theorem Site.effective_readBack {e : Env} (x : Site e) {f : File} {w : ObjectMeta}
    (holds : neededInv.Holds f) (dated : f.Dated)
    (core : History.core w = History.core (e.fileMeta x.bucket x.key f).1) :
    (x.readBack f w).effective = w.effective := by
  obtain ⟨bucket, key, blob, size, time, latest, marker⟩ := Env.fileMeta_core (e := e) x.bucket x.key f
  have named := Env.fileMeta_named (e := e) holds x.bucket x.key
  generalize (e.fileMeta x.bucket x.key f).1 = v at *
  have same : w = { v with
      acl := w.acl, tags := w.tags, retention := w.retention, legalHold := w.legalHold } := by
    obtain ⟨⟩ := w
    simp only [History.core, ObjectMeta.mk.injEq] at core ⊢
    simp [core]
  rw [same]
  simp [ObjectMeta.effective, ObjectMeta.hold, Site.readBack, Option.filter_filter, bucket, key, blob,
    size, time, latest, marker, named]
  exact dated

/-! ### The effect -/

/-- The effect of a metadata command: one field of the version it is about is set, all other
versions and their order stay, and so do all bytes. On the disk nothing but the history and the
attributes of the object file changes. -/
structure OneField (e : Env) (c : Command) (s t : Disk) : Prop where
  versions : ∃ i v w, Env.targetOf c (e.versionsOf s c.bucket c.key) = some i ∧
    (e.versionsOf s c.bucket c.key)[i]? = some v ∧ e.Sets c v w ∧
    (e.versionsOf t c.bucket c.key).map ObjectMeta.effective =
      ((e.versionsOf s c.bucket c.key).set i w).map ObjectMeta.effective
  bytes : ∀ p, ¬ e.area "history" <:+ p → content t p = content s p
  others : ∀ p, (∀ hp, e.historyPath c.bucket c.key = .ok hp → p ≠ hp ∧ p ≠ Env.jsonTmp hp) →
    (∀ km, e.readKeyMeta s c.bucket c.key = .ok km → e.objectPath km.bucket km.key ≠ .ok p) →
    t.file p = s.file p

namespace Env

variable {e : Env} {s t : Disk} {c : Command} {km : KeyMeta} {hp : FilePath}

/-- A metadata command in steps. -/
theorem applyObjectMetaMutation_ok (run : e.applyObjectMetaMutation c s = .ok () t) :
    ∃ km vs, e.readKeyMeta s c.bucket c.key = .ok km ∧ e.amendTarget c km.versions = .ok vs ∧
      e.writeKeyMeta { km with versions := vs, synthesized := false } s = .ok () t := by
  obtain ⟨km, s₁, asked, rest⟩ := bind_ok.mp run
  obtain ⟨read, rfl⟩ := reading_ok.mp asked
  obtain ⟨vs, s₂, changed, write⟩ := bind_ok.mp rest
  obtain ⟨amended, rfl⟩ := reading_ok.mp changed
  exact ⟨km, vs, read, amended, write⟩

/-- The history that is read names the path it is read from. -/
theorem Tidy.own_history (tidy : e.Tidy s) (tame : Tame c.bucket)
    (place : e.historyPath c.bucket c.key = .ok hp) (read : e.readKeyMeta s c.bucket c.key = .ok km) :
    e.historyPath km.bucket km.key = .ok hp := by
  have own := tidy.filed.load tame place
  rw [loadKeyMetaOrNew, read] at own
  exact own

/-- Recording a history changes its own file and the attributes of one object file. -/
theorem writeKeyMeta_files {p : FilePath} (place : e.historyPath km.bucket km.key = .ok hp)
    (apart : p ≠ hp) (apartTmp : p ≠ jsonTmp hp) (run : e.writeKeyMeta km s = .ok () t) :
    t.file p = s.file p ∨ e.objectPath km.bucket km.key = .ok p ∧
      ∃ f v, s.file p = some f ∧ t.file p = some (f.stamp v) := by
  obtain ⟨_, s₁, head, history⟩ := bind_ok.mp run
  rw [writeHistory_keeps place apart apartTmp history]
  exact writeHead_files head p

/-- The versions after a metadata command. -/
theorem versionsOf_amended (neat : e.Neat s) (tame : Tame c.bucket)
    (dated : ∀ p f, e.objectPath c.bucket c.key = .ok p → s.file p = some f → f.Dated)
    {vs : List ObjectMeta} (place : e.historyPath c.bucket c.key = .ok hp)
    (read : e.readKeyMeta s c.bucket c.key = .ok km)
    (amended : e.amendTarget c km.versions = .ok vs)
    (write : e.writeKeyMeta { km with versions := vs, synthesized := false } s = .ok () t) :
    (e.versionsOf t c.bucket c.key).map ObjectMeta.effective = vs.map ObjectMeta.effective := by
  have own := neat.tidy.own_history tame place read
  have core := History.amendTarget_core amended
  have reads := writeKeyMeta_reads (by exact own) write
  unfold readKeyMeta at read
  rw [place, except_ok_bind] at read
  split at read
  · rename_i d doc
    cases read
    obtain ⟨f, file, eq⟩ := readDoc_ok doc
    obtain ⟨km, holds, -⟩ := neat.tidy.filed c.bucket c.key hp f tame place file
    have many := ((neat.needed hp f file).1 km holds).2
    rw [holds] at eq
    cases eq
    -- the history needed its file before, and needs it now
    have stays : History.singleLive vs = false := (History.singleLive_of_core core).trans many
    rw [if_neg (Bool.eq_false_iff.mp stays)] at reads
    rw [versionsOf_of_doc place reads]
  · rename_i doc
    obtain ⟨op, object, found⟩ := except_bind_ok read
    cases file : s.file op with
    | none => simp [readCurrentMeta, file] at found
    | some f =>
      simp only [readCurrentMeta, file, Except.ok.injEq] at found
      subst found
      obtain ⟨w, rfl, same⟩ : ∃ w, vs = [w] ∧
          History.core w = History.core (e.fileMeta c.bucket c.key f).1 := by
        simp only [List.map_cons, List.map_nil, List.map_eq_singleton_iff] at core
        exact core
      let x : Site e := ⟨c.bucket, c.key, tame, op, hp, object, place⟩
      have here : atKeyPath w = true := by
        have blob := congrArg ObjectMeta.blobID same
        have marker := congrArg ObjectMeta.deleteMarker same
        simp only [History.core, (fileMeta_core c.bucket c.key f).2.2.1,
          (fileMeta_core c.bucket c.key f).2.2.2.2.2.2] at blob marker
        exact History.atKeyPath_iff.mpr ⟨blob, marker⟩
      have stamped : t.file op = some (f.stamp w) := writeKeyMeta_stamped (by exact own) (by exact object) x.op_ne_hp x.op_ne_hpTmp rfl here
        file write
      rw [if_pos (by simp [History.singleLive, (History.atKeyPath_iff.mp here).2])] at reads
      rw [versionsOf_of_absent place reads, object]
      dsimp only
      rw [stamped, Option.map_some, Option.toList_some, List.map_singleton, List.map_singleton,
        show (e.fileMeta c.bucket c.key (f.stamp w)).1 = x.readBack f w from
          congrArg Prod.fst (x.fileMeta_stamp f w), x.effective_readBack (neat.needed op f file)
            (dated op f object file) same]
  · cases read

theorem oneField_of_run (neat : e.Neat s) (tame : Tame c.bucket)
    (dated : ∀ p f, e.objectPath c.bucket c.key = .ok p → s.file p = some f → f.Dated)
    (op : c.op ∈ metadataOps)
    (run : e.applyObjectMetaMutation c s = .ok () t) : OneField e c s t := by
  obtain ⟨km, vs, read, amended, write⟩ := applyObjectMetaMutation_ok run
  obtain ⟨hp, place, -⟩ := except_bind_ok read
  have own := neat.tidy.own_history tame place read
  have area := area_historyPath tame place
  have areaTmp : e.area "history" <:+ jsonTmp hp :=
    (area_historyDir tame).trans (below_suffixed _ (confine_ok place).2.2)
  refine ⟨?_, fun p out => ?_, fun p apart object => ?_⟩
  · have versions : e.versionsOf s c.bucket c.key = km.versions := by rw [versionsOf, read]
    obtain ⟨i, v, w, target, found, mutated, rfl⟩ := amendTarget_set amended
    rw [versions]
    exact ⟨i, v, w, target, found, sets_of_mutate op mutated,
      versionsOf_amended neat tame dated place read amended write⟩
  · have apart : p ≠ hp := by
      rintro rfl
      exact out area
    have apartTmp : p ≠ jsonTmp hp := by
      rintro rfl
      exact out areaTmp
    rcases writeKeyMeta_files (by exact own) apart apartTmp write with same | ⟨-, f, v, before, after⟩
    · exact content_of_file_eq same
    · rw [content, content, before, after]
      rfl
  · obtain ⟨apart, apartTmp⟩ := apart hp place
    rcases writeKeyMeta_files (by exact own) apart apartTmp write with same | ⟨place, -⟩
    · exact same
    · exact absurd place (object km read)

/-- A metadata command that names a version which does not exist changes nothing. -/
theorem unchanged_of_missing (op : c.op ∈ metadataOps) (named : c.versionID ≠ "")
    (missing : ∀ v ∈ e.versionsOf s c.bucket c.key, v.versionID ≠ c.versionID) :
    final (e.applyDisk c) s = s := by
  have same : e.applyDisk c = e.applyObjectMetaMutation c := applyDisk_metadata op
  have kept : wp (e.applyObjectMetaMutation c) (fun _ t => t = s) (fun _ t => t = s) s := ?_
  · rw [same]
    exact wp_final kept
  unfold applyObjectMetaMutation
  rw [wp_bind, wp_reading]
  cases read : e.readKeyMeta s c.bucket c.key with
  | error err => rfl
  | ok km =>
    rw [versionsOf, read] at missing
    dsimp only
    rw [wp_bind, wp_reading, amendTarget, if_pos named, amendVersion_missing missing]

/-- An object without history is tagged. -/
def tagK : Command :=
  { op := .putObjectTagging, bucket := "b", key := "k", config := "x",
    metaMap := [(Command.metaMTime, "2024")] }

/-- A disk on which somebody put `b/k`, with a time in the year 2262. -/
def lateDisk : Disk :=
  final (do
    sys (mkdirAll ["b", "data"])
    sys (writeFile ["k", "b", "data"] ⟨.raw [1], {}, .time (unixEpoch + 2 ^ 63)⟩ id) : M Unit)
    (smallDisk false)

end Env

end D9Store
