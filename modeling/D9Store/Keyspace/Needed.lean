import D9Store.Keyspace.Served
import D9Store.Uploads.Grounds

/-!
Histories only where they are needed.

A history file is written when the attributes of the object file do not suffice, and removed
otherwise. So a key that has one has more than a single live version, and a write after which the
key has only one version was not made under a history at all: what it read came from the object
file of that very key.
-/

namespace D9Store

open Posix FilePath

/-! ### What the backend writes -/

/-- A history document is one that its key needs, and no version has the empty id. -/
def neededInv : FileInv where
  content c := ∀ km, c = .json (.keyMeta km) →
    km.versions ≠ [] ∧ History.singleLive km.versions = false
  xattrs x := x.versionID ≠ some ""
  raw bytes km eq := by cases eq
  doc doc other km eq := by
    cases eq
    exact absurd rfl (other km)
  bare eq := by cases eq

theorem neededInv_admits {km : KeyMeta} (ne : km.versions ≠ []) : neededInv.Admits km where
  doc many km' eq := by
    cases eq
    exact ⟨ne, many⟩
  head v _ x _ eq := by
    simp only [Xattrs.store, Xattrs.setStr] at eq
    split at eq
    · rename_i named
      exact named (Option.some.inj eq)
    · cases eq

/-- The files were put there by hand: plain bytes without attributes. -/
def ByHand (s : Disk) : Prop :=
  Everywhere (fun f => f.xattrs = {} ∧ ∃ bytes, f.content = .raw bytes) s

theorem ByHand.needed {s : Disk} (h : ByHand s) : Everywhere neededInv.Holds s := by
  refine h.mono fun f hand => ?_
  obtain ⟨attrs, bytes, raw⟩ := hand
  refine ⟨?_, ?_⟩
  · rw [raw]
    exact neededInv.raw bytes
  · rw [attrs]
    exact neededInv.bare

namespace Env

variable {e : Env} {s t s₁ : Disk} {c : Command} {P : FileInv} {i : Input}

theorem amendTarget_ne_nil {vs vs' : List ObjectMeta} (h : e.amendTarget c vs = .ok vs') :
    vs' ≠ [] := by
  rintro rfl
  have core := History.amendTarget_core h
  obtain rfl : vs = [] := by simpa using core.symm
  unfold amendTarget at h
  split at h <;> cases h

/-- An invariant that admits every history is kept by every input. -/
theorem take_everywhere (all : ∀ km : KeyMeta, km.versions ≠ [] → P.Admits km)
    (inv : Everywhere P.Holds s) (ok : i.Tidy) : Everywhere P.Holds (final (e.take i) s) := by
  have extended (km : KeyMeta) (nv : ObjectMeta) : P.Admits (km.prependLatest nv) :=
    all _ (List.cons_ne_nil _ _)
  have thinned (km : KeyMeta) (vs : List ObjectMeta) : Thinned P km vs := by
    refine ⟨fun ne => all _ ?_, fun ne => all _ ?_⟩
    · cases vs with
      | nil => exact absurd rfl ne
      | cons v rest => exact List.cons_ne_nil _ _
    · cases vs with
      | nil => exact absurd rfl ne
      | cons v rest => exact List.cons_ne_nil _ _
  cases i with
  | blob token payload => exact handleBlobPut_guards.final inv
  | part id number payload => exact handlePartPut_guards.final inv
  | command c =>
    have tidy : c.Tidy := ok
    show Everywhere P.Holds (final (e.applyDisk c) s)
    cases op : c.op
    all_goals rw [applyDisk, op]
    case putObject => exact applyPutObject_everywhere inv (extended _ _)
    case copyObject => exact applyCopyObject_everywhere inv fun _ => extended _ _
    case completeMultipart =>
      exact applyCompleteMultipart_everywhere inv
        (tame_of_plain (tidy.bucket (by simp [Command.onDisk, op]))) (tidy.token (.inr op))
        fun _ _ _ => extended _ _
    case deleteObject =>
      exact applyDeleteObject_everywhere inv (fun _ _ _ => thinned _ _)
        (fun _ _ _ _ => extended _ _) (fun _ _ _ _ => extended _ _) fun _ _ => thinned _ _
    case putObjectAcl | putObjectTagging | deleteObjectTag | putObjectRetention | putObjectLegalHold =>
      exact applyObjectMetaMutation_everywhere inv fun _ _ _ amended =>
        all _ (amendTarget_ne_nil amended)
    case createBucket => exact (applyCreateBucket_guards c).final inv
    case deleteBucket => exact (applyDeleteBucket_guards c).final inv
    case createMultipart => exact (applyCreateMultipart_guards c).final inv
    case uploadPart => exact (applyUploadPart_guards c).final inv
    case abortMultipart => exact (applyAbortMultipart_guards c).final inv
    case putAccount => exact inv
    case deleteAccount => exact inv
    case unknown => exact inv
    all_goals exact (applyBucketConfig_guards c).final inv

/-! ### Neat disks -/

/-- The histories on the disk are tidy, and none is there without need. -/
structure Neat (e : Env) (s : Disk) : Prop where
  tidy : e.Tidy s
  needed : Everywhere neededInv.Holds s

theorem Neat.take (neat : e.Neat s) (ok : i.Tidy) : e.Neat (final (e.take i) s) :=
  ⟨take_tidy neat.tidy ok, take_everywhere (fun _ => neededInv_admits) neat.needed ok⟩

theorem Neat.along (neat : e.Neat s) {ins : List Input}
    (run : e.Along (fun _ i => i.Tidy) ins s) : e.Neat (e.feed ins s) := by
  induction ins generalizing s with
  | nil => exact neat
  | cons i rest ih => exact ih (neat.take run.1) run.2

theorem fileMeta_named {f : File} (h : neededInv.Holds f) (bucket key : String) :
    (e.fileMeta bucket key f).1.versionID ≠ "" := by
  unfold fileMeta
  split
  · show f.xattrs.versionID.getD "null" ≠ ""
    cases id : f.xattrs.versionID with
    | none => decide
    | some text =>
      rintro rfl
      exact h.2 id
  · show "null" ≠ ""
    decide

/-- A history that makes way completely was read from the object file of the key, if at all. -/
theorem Neat.alone (neat : e.Neat s) {bucket key : String} (tame : Tame bucket) {enabled : Bool}
    (alone : History.displaced enabled (e.loadKeyMetaOrNew s bucket key).versions = []) :
    (e.loadKeyMetaOrNew s bucket key).bucket = bucket ∧
      (e.loadKeyMetaOrNew s bucket key).key = key := by
  unfold loadKeyMetaOrNew at alone ⊢
  cases read : e.readKeyMeta s bucket key with
  | error err => exact ⟨rfl, rfl⟩
  | ok km =>
    rw [read] at alone
    dsimp only at alone ⊢
    obtain ⟨hp, place, -⟩ := except_bind_ok read
    cases doc : e.readDoc s hp with
    | error err => exact readKeyMeta_own place doc read
    | ok d =>
      rw [readKeyMeta_of_doc place doc] at read
      cases read
      obtain ⟨f, file, eq⟩ := readDoc_ok doc
      obtain ⟨km, holds, -⟩ := neat.tidy.filed bucket key hp f tame place file
      obtain ⟨ne, many⟩ := (neat.needed hp f file).1 km holds
      rw [holds] at eq
      cases eq
      exact absurd alone (History.displaced_ne_nil ne many)

/-- A version recorded on a neat disk is in the history or, alone, on its file. -/
theorem Neat.left (neat : e.Neat s) {x : Site e} {nv : ObjectMeta} {bytes : Bytes}
    (live : nv.deleteMarker = false) (here : nv.blobID = "")
    (payload : content s₁ x.op = some (.raw bytes))
    (run : e.writeKeyMeta ((e.madeWay s x.bucket x.key).prependLatest nv) s₁ = .ok () t) :
    Left x nv bytes t := by
  have own := neat.tidy.filed.load x.tame x.hp_eq
  change e.historyPath ((e.madeWay s x.bucket x.key).prependLatest nv).bucket
    ((e.madeWay s x.bucket x.key).prependLatest nv).key = .ok x.hp at own
  have reads := writeKeyMeta_reads own run
  have current : content t x.op = some (.raw bytes) := by
    rw [writeKeyMeta_content x own run, payload]
  split at reads
  · rename_i single
    have alone := History.alone_of_singleLive single
    obtain ⟨bucket, key⟩ := neat.alone x.tame alone
    obtain ⟨g, there, raw⟩ := Option.map_eq_some_iff.mp payload
    have object : e.objectPath ((e.madeWay s x.bucket x.key).prependLatest nv).bucket
        ((e.madeWay s x.bucket x.key).prependLatest nv).key = .ok x.op := by
      show e.objectPath (e.loadKeyMetaOrNew s x.bucket x.key).bucket
        (e.loadKeyMetaOrNew s x.bucket x.key).key = .ok x.op
      rw [bucket, key, x.op_eq]
    refine .file g reads raw (writeKeyMeta_stamped own object x.op_ne_hp x.op_ne_hpTmp rfl ?_ there run)
    simp [atKeyPath, live, here]
  · exact .doc _ reads current

end Env

end D9Store
