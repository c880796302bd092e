import D9Store.Backend.Written
import D9Store.Key.Put

/-!
Names on the disk.

The paths a command works with come from the command and from the history it reads: the bucket
and the key that the history names, the ids of its versions and of their blobs. When the names in
the commands are plain, so are those on the disk, whichever keys the commands are about.
-/

namespace D9Store

open Posix FilePath

/-! ### Histories -/

/-- A version whose ids are single names. -/
def Slashless (v : ObjectMeta) : Prop := '/' ∉ v.versionID.toList ∧ '/' ∉ v.blobID.toList

namespace Slashless

variable {vs ws : List ObjectMeta}

theorem displaced (h : ∀ v ∈ vs, Slashless v) (enabled : Bool) :
    ∀ v ∈ History.displaced enabled vs, Slashless v := by
  cases vs with
  | nil => exact h
  | cons cur rest =>
    obtain ⟨first, others⟩ := List.forall_mem_cons.mp h
    rw [History.displaced]
    split
    · exact h
    · split
      · exact List.forall_mem_cons.mpr ⟨⟨first.1, first.1⟩, others⟩
      · exact others

theorem prepended {nv : ObjectMeta} (new : Slashless nv) (h : ∀ v ∈ vs, Slashless v) :
    ∀ v ∈ History.prepended nv vs, Slashless v := by
  refine List.forall_mem_cons.mpr ⟨new, fun v mem => ?_⟩
  obtain ⟨w, old, rfl⟩ := List.mem_map.mp mem
  exact h w old

theorem marked (h : ∀ v ∈ vs, Slashless v) : ∀ v ∈ History.marked vs, Slashless v := by
  cases vs with
  | nil => exact h
  | cons cur rest =>
    obtain ⟨first, others⟩ := List.forall_mem_cons.mp h
    exact List.forall_mem_cons.mpr ⟨first, others⟩

theorem promoted (h : ∀ v ∈ vs, Slashless v) : ∀ v ∈ History.promoted vs, Slashless v := by
  cases vs with
  | nil => exact h
  | cons cur rest =>
    obtain ⟨first, others⟩ := List.forall_mem_cons.mp h
    exact List.forall_mem_cons.mpr ⟨⟨first.1, by simp⟩, others⟩

theorem keptBy (h : ∀ v ∈ vs, Slashless v) (id : String) : ∀ v ∈ History.keptBy id vs, Slashless v :=
  fun v mem => h v (List.mem_of_mem_filter mem)

theorem dropped (h : ∀ v ∈ vs, Slashless v) : ∀ v ∈ History.dropped vs, Slashless v := by
  cases vs with
  | nil => exact h
  | cons cur rest =>
    rw [History.dropped]
    split
    · exact h
    · split
      · exact (List.forall_mem_cons.mp h).2
      · exact h

theorem of_core (h : ∀ v ∈ vs, Slashless v) (core : ws.map History.core = vs.map History.core) :
    ∀ v ∈ ws, Slashless v := by
  intro v mem
  have found : History.core v ∈ vs.map History.core := core ▸ List.mem_map_of_mem mem
  obtain ⟨w, old, eq⟩ := List.mem_map.mp found
  have id : v.versionID = w.versionID := (congrArg ObjectMeta.versionID eq).symm
  have blob : v.blobID = w.blobID := (congrArg ObjectMeta.blobID eq).symm
  rw [Slashless, id, blob]
  exact h w old

end Slashless

/-- A history recorded under plain names. -/
structure PlainNames (km : KeyMeta) : Prop where
  bucket : Tame km.bucket
  ids : ∀ v ∈ km.versions, Slashless v

theorem PlainNames.head {km : KeyMeta} (h : PlainNames km) (v : ObjectMeta)
    (first : km.versions.head? = some v) (_ : Env.atKeyPath v = true) : '/' ∉ v.versionID.toList :=
  (h.ids v (List.mem_of_mem_head? first)).1

/-- Every history document has plain names, and so has the version an object file carries. -/
def nameInv : FileInv where
  content c := ∀ km, c = .json (.keyMeta km) → PlainNames km
  xattrs x := ∀ id, x.versionID = some id → '/' ∉ id.toList
  raw bytes km eq := by cases eq
  doc doc plain km eq := by
    cases eq
    exact absurd rfl (plain km)
  bare id eq := by cases eq

theorem PlainNames.admits {km : KeyMeta} (h : PlainNames km) : nameInv.Admits km where
  doc _ km' eq := by
    cases eq
    exact h
  head v head x _ id eq := by
    have mem : v ∈ km.versions := List.mem_of_head? head
    have own : v.versionID = id := by
      simp only [Xattrs.store, Xattrs.setStr] at eq
      split at eq
      · exact Option.some.inj eq
      · cases eq
    rw [← own]
    exact (h.ids v mem).1

/-! ### Commands -/

/-- A command that addresses the disk. -/
def Command.onDisk (c : Command) : Bool :=
  match c.op with
  | .putAccount | .deleteAccount | .unknown _ => false
  | _ => true

/-- A command whose names are plain. Tokens and new version ids are the gateway's own; the bucket
and the id of an upload come from the request as they are. -/
structure Command.Tidy (c : Command) : Prop where
  bucket : c.onDisk = true → Plain c.bucket
  version : '/' ∉ c.versionID.toList
  token : c.op = .putObject ∨ c.op = .completeMultipart → Plain c.blobToken
  upload : c.op = .createMultipart ∨ c.op = .uploadPart ∨ c.op = .completeMultipart ∨
    c.op = .abortMultipart → Plain c.uploadID

instance (c : Command) : Decidable c.Tidy :=
  decidable_of_iff ((c.onDisk = true → Plain c.bucket) ∧ '/' ∉ c.versionID.toList ∧
      (c.op = .putObject ∨ c.op = .completeMultipart → Plain c.blobToken) ∧
      (c.op = .createMultipart ∨ c.op = .uploadPart ∨ c.op = .completeMultipart ∨
        c.op = .abortMultipart → Plain c.uploadID))
    ⟨fun ⟨bucket, version, token, upload⟩ => ⟨bucket, version, token, upload⟩,
      fun h => ⟨h.bucket, h.version, h.token, h.upload⟩⟩

theorem tame_of_plain {bucket : String} (h : Plain bucket) : Tame bucket := ⟨h.2, h.1.2.2⟩

namespace Env

variable {e : Env} {s : Disk} {c : Command} {bucket key : String} {km : KeyMeta}

/-- Under its path a history is a document that names this very path. -/
def Filed (e : Env) (s : Disk) : Prop :=
  ∀ bucket key hp f, Tame bucket → e.historyPath bucket key = .ok hp → s.file hp = some f →
    ∃ km, f.content = .json (.keyMeta km) ∧ e.historyPath km.bucket km.key = .ok hp

/-- The histories on the disk: where they belong, with plain names. -/
structure Tidy (e : Env) (s : Disk) : Prop where
  filed : e.Filed s
  names : Everywhere nameInv.Holds s

theorem slashless_fileMeta {f : File} (h : nameInv.Holds f) (bucket key : String) :
    Slashless (e.fileMeta bucket key f).1 := by
  have null : '/' ∉ "null".toList := by decide
  have none : '/' ∉ "".toList := by decide
  unfold fileMeta
  split
  · refine ⟨?_, none⟩
    cases id : f.xattrs.versionID with
    | none => exact null
    | some id' => exact h.2 id' id
  · exact ⟨null, none⟩

theorem Tidy.read (tidy : e.Tidy s) (tame : Tame bucket) (read : e.readKeyMeta s bucket key = .ok km) :
    PlainNames km := by
  unfold readKeyMeta at read
  cases place : e.historyPath bucket key with
  | error err =>
    rw [place] at read
    cases read
  | ok hp =>
    rw [place, except_ok_bind] at read
    split at read
    · rename_i doc found
      cases read
      obtain ⟨f, file, eq⟩ := readDoc_ok found
      obtain ⟨km, holds, -⟩ := tidy.filed bucket key hp f tame place file
      have names := (tidy.names hp f file).1 km holds
      rw [holds] at eq
      cases eq
      exact names
    · cases object : e.objectPath bucket key with
      | error err =>
        rw [object] at read
        cases read
      | ok op =>
        rw [object, except_ok_bind] at read
        cases file : s.file op with
        | none => simp [readCurrentMeta, file] at read
        | some f =>
          simp only [readCurrentMeta, file, Except.ok.injEq] at read
          rw [← read]
          refine ⟨tame, fun v mem => ?_⟩
          rw [List.mem_singleton.mp mem]
          exact slashless_fileMeta (tidy.names op f file) bucket key
    · cases read

theorem Tidy.load (tidy : e.Tidy s) (tame : Tame bucket) (key : String) :
    PlainNames (e.loadKeyMetaOrNew s bucket key) := by
  unfold loadKeyMetaOrNew
  cases read : e.readKeyMeta s bucket key with
  | ok km =>
    obtain ⟨own, ids⟩ := tidy.read tame read
    exact ⟨own, ids⟩
  | error err => exact ⟨tame, by simp⟩

theorem Tidy.deletable (tidy : e.Tidy s) (tame : Tame c.bucket) (found : e.deletable s c = some km) :
    PlainNames km := by
  unfold Env.deletable at found
  split at found
  · rename_i km' read
    cases found
    obtain ⟨own, ids⟩ := tidy.read tame read
    exact ⟨own, ids⟩
  · split at found
    · cases found
      exact ⟨tame, by simp⟩
    · cases found

theorem slashless_write {nv : ObjectMeta} (version : '/' ∉ c.versionID.toList) {bm : BucketMeta}
    (id : nv.versionID = writeVersionID bm c) (blob : nv.blobID = "") : Slashless nv := by
  refine ⟨?_, by simp [blob]⟩
  rw [id, writeVersionID]
  split
  · exact version
  · decide

/-- A tidy command keeps the names plain. -/
theorem applyDisk_names (tidy : e.Tidy s) (ok : c.Tidy) :
    Everywhere nameInv.Holds (final (e.applyDisk c) s) := by
  have inv := tidy.names
  have kept {x : M Unit} (h : nameInv.Guards (fun _ => True) x) :
      Everywhere nameInv.Holds (final x s) := h.final inv
  have write (tame : Tame c.bucket) {nv : ObjectMeta} {bm : BucketMeta}
      (id : nv.versionID = writeVersionID bm c) (blob : nv.blobID = "") :
      nameInv.Admits (e.extended s c nv) := by
    obtain ⟨own, ids⟩ := tidy.load tame c.key
    exact PlainNames.admits ⟨own, Slashless.prepended (slashless_write ok.version id blob)
      (Slashless.displaced ids _)⟩
  have tame (addressed : c.onDisk = true) : Tame c.bucket := tame_of_plain (ok.bucket addressed)
  cases op : c.op
  case putObject =>
    rw [applyDisk, op]
    exact applyPutObject_everywhere inv
      (write (tame (by simp [Command.onDisk, op])) (putMeta_versionID ..) (putMeta_blobID ..))
  case copyObject =>
    rw [applyDisk, op]
    exact applyCopyObject_everywhere inv fun src =>
      write (tame (by simp [Command.onDisk, op])) (copyMeta_versionID ..) (copyMeta_blobID ..)
  case completeMultipart =>
    rw [applyDisk, op]
    have own := tame (by simp [Command.onDisk, op])
    exact applyCompleteMultipart_everywhere inv own (ok.token (.inr op)) fun mp parts total =>
      write own (completeMeta_versionID ..) (completeMeta_blobID ..)
  case deleteObject =>
    rw [applyDisk, op]
    have own := tame (by simp [Command.onDisk, op])
    have marker (id : String) (plain : '/' ∉ id.toList) : Slashless (e.marker c id) :=
      ⟨plain, by simp [Env.marker]⟩
    refine applyDeleteObject_everywhere inv ?_ ?_ ?_ ?_
    · intro km found _
      obtain ⟨named, ids⟩ := tidy.deletable own found
      exact ⟨fun _ => PlainNames.admits ⟨named, Slashless.marked (Slashless.keptBy ids _)⟩,
        fun _ => PlainNames.admits ⟨named, Slashless.promoted (Slashless.keptBy ids _)⟩⟩
    · intro km found _ _
      obtain ⟨named, ids⟩ := tidy.deletable own found
      exact PlainNames.admits ⟨named, Slashless.prepended (marker _ ok.version)
        (Slashless.displaced ids _)⟩
    · intro km found _ _
      obtain ⟨named, ids⟩ := tidy.deletable own found
      exact PlainNames.admits ⟨named, Slashless.prepended (marker _ (by decide))
        (Slashless.dropped ids)⟩
    · intro km found
      obtain ⟨named, ids⟩ := tidy.deletable own found
      exact ⟨fun _ => PlainNames.admits ⟨named, Slashless.marked (Slashless.dropped ids)⟩,
        fun _ => PlainNames.admits ⟨named, Slashless.promoted (Slashless.dropped ids)⟩⟩
  case putObjectAcl | putObjectTagging | deleteObjectTag | putObjectRetention | putObjectLegalHold =>
    rw [applyDisk, op]
    refine applyObjectMetaMutation_everywhere inv fun km vs read amended => ?_
    obtain ⟨named, ids⟩ := tidy.read (tame (by simp [Command.onDisk, op])) read
    exact PlainNames.admits ⟨named, Slashless.of_core ids (History.amendTarget_core amended)⟩
  all_goals rw [applyDisk, op]
  case createBucket => exact kept (applyCreateBucket_guards c)
  case deleteBucket => exact kept (applyDeleteBucket_guards c)
  case createMultipart => exact kept (applyCreateMultipart_guards c)
  case uploadPart => exact kept (applyUploadPart_guards c)
  case abortMultipart => exact kept (applyAbortMultipart_guards c)
  case putAccount => exact inv
  case deleteAccount => exact inv
  case unknown => exact inv
  all_goals exact kept (applyBucketConfig_guards c)

end Env

end D9Store
