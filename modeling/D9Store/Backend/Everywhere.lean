import D9Store.Backend.Staging
import D9Store.Key.History
import D9Store.Posix.Everywhere

/-!
The engine's helpers under an invariant of every file.

The invariant has two parts, one about contents and one about attributes, so that bytes can
be copied from one file to another. Payloads, documents other than histories and files
without attributes are always in order; the histories a command records have to be.
-/

namespace D9Store

open Posix FilePath

/-- An invariant of contents and an invariant of attributes. -/
structure FileInv where
  content : Content → Prop
  xattrs : Xattrs → Prop
  raw : ∀ bytes, content (.raw bytes)
  doc : ∀ doc, (∀ km, doc ≠ .keyMeta km) → content (.json doc)
  bare : xattrs {}

/-- The file is in order. -/
def FileInv.Holds (P : FileInv) (f : File) : Prop := P.content f.content ∧ P.xattrs f.xattrs

/-- The history, if it needs a file, and the attributes of its head are in order. -/
structure FileInv.Admits (P : FileInv) (km : KeyMeta) : Prop where
  doc : History.singleLive km.versions = false → P.content (.json (.keyMeta km))
  head : ∀ v, km.latest = some v → ∀ x, P.xattrs x → P.xattrs (x.store v)

/-- The program keeps all files in order. -/
abbrev FileInv.Guards {α ε : Type} (P : FileInv) (Q : α → Prop) (x : EStateM ε Disk α) : Prop :=
  Posix.Guards (Everywhere P.Holds) Q x

namespace Env

variable {e : Env} {P : FileInv} {bucket key id token uploadID : String}
    {p src dst stop tmp : FilePath} {doc : Doc} {km : KeyMeta} {payload : Bytes}

theorem written_holds {c : Content} {f : File} (new : P.content c) (old : P.Holds f) :
    P.Holds (written c f) := ⟨new, old.2⟩

/-! ### Moving bytes -/

theorem osRename_guards : P.Guards (fun _ => True) (e.osRename src dst) :=
  Guards.ite (fun _ => Guards.throw _) fun _ => guards_rename src dst

theorem copyFile_guards : P.Guards (fun _ => True) (e.copyFile src dst) := by
  have open_tmp : P.Guards (fun _ => True)
      (writeFile (tmpOf dst) ⟨.raw [], {}, .wall⟩ (written (.raw []))) :=
    guards_writeFile ⟨P.raw _, P.bare⟩ fun f old => written_holds (P.raw _) old
  have read : P.Guards (fun r => ∀ f, r = .ok f → P.Holds f)
      (attempt (reading (DirTree.readFile · src) : Call File File) : Call File _) := by
    refine Guards.attempt (Guards.reading fun s f inv found => inv src f ?_)
    unfold DirTree.readFile at found
    split at found
    · rename_i g node
      cases found
      exact DirTree.file_eq_some.mpr node
    · cases found
    · cases found
  refine Guards.bind (Guards.reading fun _ _ _ _ => trivial) fun _ _ => ?_
  refine Guards.bind open_tmp fun _ _ => Guards.bind read fun r ok => ?_
  cases r with
  | error err => exact Guards.bind (Guards.ignore (guards_remove _)) fun _ _ => Guards.throw _
  | ok f =>
    exact Guards.bind (guards_amend fun g old => written_holds (ok f rfl).1 old)
      fun _ _ => osRename_guards

theorem moveFile_guards : P.Guards (fun _ => True) (e.moveFile src dst) := by
  refine Guards.bind (Guards.attempt osRename_guards) fun r _ => ?_
  cases r with
  | ok _ => exact Guards.pure trivial
  | error err => exact Guards.bind copyFile_guards fun _ _ => guards_remove src

theorem writeJSON_guards (new : ∀ doc', e.marshal doc = .ok doc' → P.content (.json doc')) :
    P.Guards (fun _ => True) (e.writeJSON p doc) := by
  refine Guards.bind (Guards.reading fun _ doc' _ h => new doc' h) fun doc' ok => ?_
  refine Guards.seq (Guards.failing (guards_mkdirAll _)) fun _ => ?_
  refine Guards.seq (Guards.failing ?_) fun _ => Guards.failing (guards_rename _ _)
  exact guards_writeFile ⟨ok, P.bare⟩ fun f old => written_holds ok old

/-! ### The files of a key -/

theorem place_guards {place : Except Err FilePath} {dir src dst : FilePath → FilePath} :
    P.Guards (fun _ => True) (do
      let op ← (reading fun _ => place : M FilePath)
      sys (mkdirAll (dir op))
      sys (e.moveFile (src op) (dst op))) := by
  refine Guards.seq (Guards.reading fun _ _ _ _ => trivial) fun op => ?_
  exact Guards.seq (Guards.failing (guards_mkdirAll _)) fun _ => Guards.failing moveFile_guards

theorem putCurrentBytes_guards : P.Guards (fun _ => True) (e.putCurrentBytes bucket key src) :=
  place_guards

theorem archiveCurrent_guards : P.Guards (fun _ => True) (e.archiveCurrent bucket key id) :=
  place_guards

theorem promoteArchived_guards : P.Guards (fun _ => True) (e.promoteArchived bucket key id) :=
  place_guards

theorem pruneEmptyDirs_guards (dir : FilePath) :
    P.Guards (fun _ => True) (pruneEmptyDirs stop dir) := by
  induction dir with
  | nil => exact Guards.pure trivial
  | cons seg dir ih =>
    refine Guards.ite (fun _ => ?_) fun _ => Guards.pure trivial
    refine Guards.bind (Guards.attempt (guards_remove _)) fun r _ => ?_
    cases r with
    | ok _ => exact ih
    | error _ => exact Guards.pure trivial

theorem removeCurrent_guards : P.Guards (fun _ => True) (e.removeCurrent bucket key) := by
  unfold removeCurrent
  cases e.objectPath bucket key with
  | error _ => exact Guards.pure trivial
  | ok op => exact Guards.bind (Guards.ignore (guards_remove _)) fun _ _ => pruneEmptyDirs_guards _

theorem removeArchivedBlob_guards : P.Guards (fun _ => True) (e.removeArchivedBlob bucket id) :=
  Guards.ite (fun _ => Guards.pure trivial) fun _ => Guards.ignore (guards_remove _)

theorem removeIfPresent_guards : P.Guards (fun _ => True) (removeIfPresent p) := by
  refine Guards.bind (Guards.attempt (guards_remove p)) fun r _ => ?_
  rcases r with err | _
  · cases err with
    | noent => exact Guards.pure trivial
    | _ => exact Guards.throw _
  · exact Guards.pure trivial

/-! ### Its history -/

theorem writeCurrentXattrs_guards {v : ObjectMeta} (new : ∀ x, P.xattrs x → P.xattrs (x.store v)) :
    P.Guards (fun _ => True) (writeCurrentXattrs p v) := by
  refine Guards.bind (Guards.failing (guards_amend fun f old => ⟨old.1, new _ old.2⟩)) fun _ _ => ?_
  exact Guards.ite (fun _ => Guards.pure trivial) fun _ => Guards.ignore (guards_amend fun f old => old)

theorem writeKeyMeta_guards (ok : P.Admits km) : P.Guards (fun _ => True) (e.writeKeyMeta km) := by
  refine Guards.bind (Q := fun _ => True) ?_ fun _ _ => ?_
  · unfold writeHead
    cases latest : km.latest with
    | none => exact Guards.pure trivial
    | some v =>
      refine Guards.ite (fun _ => ?_) fun _ => Guards.pure trivial
      exact Guards.bind (Guards.reading fun _ _ _ _ => trivial) fun op _ =>
        writeCurrentXattrs_guards (ok.head v latest)
  · have write : ∀ hp, History.singleLive km.versions = false →
        P.Guards (fun _ => True) (e.writeJSON hp (.keyMeta km)) := fun hp many =>
      writeJSON_guards fun doc' h => by
        cases h
        exact ok.doc many
    refine Guards.bind (Guards.reading fun _ _ _ _ => trivial) fun hp _ => ?_
    split
    · rename_i v versions
      refine Guards.ite (fun marker => write hp ?_) fun _ => removeIfPresent_guards
      simp [versions, History.singleLive, marker]
    · rename_i many
      refine write hp ?_
      unfold History.singleLive
      split
      · rename_i v versions
        exact absurd versions (many v)
      · rfl

theorem finalizeKey_guards (ok : km.versions ≠ [] → P.Admits km) :
    P.Guards (fun _ => True) (e.finalizeKey km) := by
  refine Guards.ite (fun _ => ?_) fun ne => writeKeyMeta_guards (ok ne)
  refine Guards.bind removeCurrent_guards fun _ _ => ?_
  exact Guards.bind (Guards.reading fun _ _ _ _ => trivial) fun hp _ => removeIfPresent_guards

theorem displaceCurrent_guards {enabled : Bool} :
    P.Guards (fun km' => km' = { km with versions := History.displaced enabled km.versions })
      (e.displaceCurrent km enabled) := by
  obtain ⟨b, k, vs, flag⟩ := km
  unfold displaceCurrent
  cases vs with
  | nil => exact Guards.pure rfl
  | cons cur rest =>
    simp only [History.displaced]
    split
    · exact Guards.pure rfl
    · split
      · exact Guards.bind archiveCurrent_guards fun _ _ => Guards.pure rfl
      · exact Guards.pure rfl

theorem promoteNewLatest_guards :
    P.Guards (fun km' => km' = { km with versions := History.promoted km.versions } ∨
      km' = { km with versions := History.marked km.versions }) (e.promoteNewLatest km) := by
  obtain ⟨b, k, vs, flag⟩ := km
  unfold promoteNewLatest
  cases vs with
  | nil => exact Guards.pure (.inl rfl)
  | cons nl rest =>
    refine Guards.ite (fun _ => ?_) fun _ => Guards.pure (.inr rfl)
    refine Guards.bind (Guards.attempt promoteArchived_guards) fun r _ => ?_
    cases r with
    | ok _ => exact Guards.pure (.inl rfl)
    | error _ => exact Guards.pure (.inr rfl)

theorem removeBlobs_guards (vs : List ObjectMeta) :
    P.Guards (fun _ => True) (e.removeBlobs bucket vs) := by
  induction vs with
  | nil => exact Guards.pure trivial
  | cons v rest ih =>
    rw [removeBlobs]
    exact Guards.ite (fun _ => ih) fun _ => Guards.seq removeArchivedBlob_guards fun _ => ih

theorem dropCurrent_guards {c : Command} :
    P.Guards (fun km' => km' = { km with versions := History.dropped km.versions })
      (e.dropCurrent c km) := by
  obtain ⟨b, k, vs, flag⟩ := km
  unfold dropCurrent
  cases vs with
  | nil => exact Guards.pure rfl
  | cons cur rest =>
    simp only [History.dropped]
    split
    · exact Guards.pure rfl
    · have keep : P.Guards (fun km' : KeyMeta => km' =
            ⟨b, k, if cur.versionID = "null" ∨ cur.blobID = "" then rest else cur :: rest, flag⟩)
          (if cur.versionID = "null" ∨ cur.blobID = "" then pure ⟨b, k, rest, flag⟩
            else pure ⟨b, k, cur :: rest, flag⟩ : M KeyMeta) := by
        split
        · exact Guards.pure rfl
        · exact Guards.pure rfl
      exact Guards.ite (fun _ => Guards.seq removeCurrent_guards fun _ => keep)
        fun _ => Guards.seq removeArchivedBlob_guards fun _ => keep

/-! ### Commands -/

theorem writeJSON_plain (plain : ∀ km, doc ≠ .keyMeta km) :
    P.Guards (fun _ => True) (e.writeJSON p doc) := by
  refine writeJSON_guards fun doc' h => P.doc doc' ?_
  rintro km rfl
  cases doc with
  | keyMeta km' => exact plain km' rfl
  | bucketMeta bm =>
    simp only [marshal] at h
    split at h
    · cases h
    · split at h <;> cases h
  | upload mp => cases h
  | accounts as => cases h

theorem streamTo_guards : P.Guards (fun _ => True) (streamTo p payload) := by
  refine Guards.seq (Guards.failing (guards_mkdirAll _)) fun _ => ?_
  refine Guards.seq (Guards.failing ?_) fun _ => Guards.failing (guards_rename _ _)
  exact guards_writeFile ⟨P.raw _, P.bare⟩ fun f old => written_holds (P.raw _) old

theorem handleBlobPut_guards : P.Guards (fun _ => True) (e.handleBlobPut token payload) :=
  Guards.ite (fun _ => streamTo_guards) fun _ => Guards.pure trivial

theorem handlePartPut_guards {number : Int} :
    P.Guards (fun _ => True) (e.handlePartPut uploadID number payload) :=
  Guards.ite (fun _ => streamTo_guards) fun _ => Guards.pure trivial

theorem applyCreateBucket_guards (c : Command) : P.Guards (fun _ => True) (e.applyCreateBucket c) := by
  have make : ∀ p, P.Guards (fun _ => True) (sys (mkdirAll p)) := fun p =>
    Guards.failing (guards_mkdirAll p)
  refine Guards.ite (fun _ => ?_) fun _ => Guards.throw _
  refine Guards.seq (Guards.reading fun _ _ _ _ => trivial) fun taken => ?_
  refine Guards.ite (fun _ => Guards.throw _) fun _ => ?_
  refine Guards.seq (make _) fun _ => Guards.seq (make _) fun _ => Guards.seq (make _) fun _ =>
    Guards.seq (make _) fun _ => writeJSON_plain ?_
  rintro km ⟨⟩

theorem applyDeleteBucket_guards (c : Command) : P.Guards (fun _ => True) (e.applyDeleteBucket c) := by
  have drop : ∀ p, P.Guards (fun _ => True) (sys (removeAll p)) := fun p =>
    Guards.failing (guards_removeAll p)
  refine Guards.seq (Guards.reading fun _ _ _ _ => trivial) fun empty => ?_
  refine Guards.ite (fun _ => ?_) fun _ => Guards.throw _
  exact Guards.seq (drop _) fun _ => Guards.seq (drop _) fun _ => Guards.seq (drop _) fun _ =>
    Guards.seq (drop _) fun _ => removeIfPresent_guards

theorem applyBucketConfig_guards (c : Command) : P.Guards (fun _ => True) (e.applyBucketConfig c) := by
  refine Guards.seq (Guards.reading fun _ _ _ _ => trivial) fun bm => ?_
  refine Guards.seq (Guards.reading fun _ _ _ _ => trivial) fun bm => writeJSON_plain ?_
  rintro km ⟨⟩

theorem applyCreateMultipart_guards (c : Command) :
    P.Guards (fun _ => True) (e.applyCreateMultipart c) :=
  writeJSON_plain (by rintro km ⟨⟩)

theorem applyUploadPart_guards (c : Command) : P.Guards (fun _ => True) (e.applyUploadPart c) := by
  refine Guards.seq (Guards.reading fun _ _ _ _ => trivial) fun arrived => ?_
  refine Guards.ite (fun _ => ?_) fun _ => Guards.throw _
  refine Guards.seq (Guards.reading fun _ _ _ _ => trivial) fun mp => writeJSON_plain ?_
  rintro km ⟨⟩

theorem removeEach_guards (ps : List FilePath) : P.Guards (fun _ => True) (removeEach ps) := by
  induction ps with
  | nil => exact Guards.pure trivial
  | cons p rest ih => exact Guards.seq (Guards.ignore (guards_remove p)) fun _ => ih

theorem cleanupUpload_guards : P.Guards (fun _ => True) (e.cleanupUpload bucket uploadID) := by
  refine Guards.seq (Guards.reading fun _ _ _ _ => trivial) fun matched => ?_
  exact Guards.seq (removeEach_guards _) fun _ => Guards.ignore (guards_remove _)

theorem applyAbortMultipart_guards (c : Command) :
    P.Guards (fun _ => True) (e.applyAbortMultipart c) := by
  refine Guards.seq (Guards.reading fun _ _ _ _ => trivial) fun found => ?_
  cases found with
  | error err => exact Guards.pure trivial
  | ok mp => exact cleanupUpload_guards

theorem appendParts_guards (parts : List Part) :
    P.Guards (fun _ => True) (e.appendParts uploadID tmp parts) := by
  induction parts with
  | nil => exact Guards.pure trivial
  | cons p rest ih =>
    refine Guards.seq (Guards.mono (Guards.attempt (Guards.reading fun _ _ _ _ => trivial))
      fun _ _ => trivial) fun r => ?_
    cases r with
    | error err => exact Guards.seq (Guards.ignore (guards_remove _)) fun _ => Guards.throw _
    | ok part =>
      refine Guards.seq (Guards.failing (guards_amend fun f old => written_holds (P.raw _) old))
        fun _ => Guards.seq ih fun _ => Guards.pure trivial

/-! ### Object commands

The histories a command may record are those it computes from what it reads first. -/

variable {s : Disk} {c : Command} {vs : List ObjectMeta}

/-- The history of a key with a new version in front. -/
def extended (e : Env) (s : Disk) (c : Command) (nv : ObjectMeta) : KeyMeta :=
  KeyMeta.prependLatest
    { e.loadKeyMetaOrNew s c.bucket c.key with
      versions := History.displaced (e.bucketMetaForWrite s c.bucket).versioningEnabled
        (e.loadKeyMetaOrNew s c.bucket c.key).versions } nv

/-- The current version makes way, a new one is installed and recorded. -/
theorem install_guards {x : M Unit} {nv : ObjectMeta} (hx : P.Guards (fun _ => True) x)
    (ok : P.Admits (e.extended s c nv)) : P.Guards (fun _ => True) (do
      let km ← e.displaceCurrent (e.loadKeyMetaOrNew s c.bucket c.key)
        (e.bucketMetaForWrite s c.bucket).versioningEnabled
      x
      e.writeKeyMeta (km.prependLatest nv)) := by
  refine Guards.bind displaceCurrent_guards fun km eq => ?_
  rw [eq]
  exact Guards.seq hx fun _ => writeKeyMeta_guards ok

theorem applyPutObject_everywhere (inv : Everywhere P.Holds s)
    (ok : P.Admits (e.extended s c (e.putMeta (e.bucketMetaForWrite s c.bucket) c))) :
    Everywhere P.Holds (final (e.applyPutObject c) s) := by
  refine wp_final ?_
  unfold applyPutObject
  rw [wp_bind, wp_get, wp_bind, wp_get, wp_ite]
  refine ⟨fun _ => ?_, fun _ => inv⟩
  rw [wp_bind, wp_get]
  exact wp_mono (install_guards putCurrentBytes_guards ok s inv) (fun _ _ h => h.1) fun _ _ h => h

theorem applyCopyObject_everywhere (inv : Everywhere P.Holds s)
    (ok : ∀ src, P.Admits (e.extended s c (e.copyMeta (e.bucketMetaForWrite s c.bucket) c src))) :
    Everywhere P.Holds (final (e.applyCopyObject c) s) := by
  refine wp_final ?_
  rw [applyCopyObject_steps]
  cases c.source with
  | none => exact inv
  | some ref =>
    simp only
    rw [wp_bind, wp_get, wp_bind, wp_reading]
    cases e.resolveVersion s ref.bucket ref.key ref.versionID with
    | error err => exact inv
    | ok found =>
      obtain ⟨src, km⟩ := found
      simp only
      rw [wp_ite]
      refine ⟨fun _ => inv, fun _ => ?_⟩
      rw [wp_bind, wp_reading]
      cases e.physPath ref.bucket src with
      | error err => exact inv
      | ok srcPath =>
        simp only
        rw [wp_bind, wp_get]
        have copy : P.Guards (fun _ => True) (do
            let dst ← (reading fun _ => e.objectPath c.bucket c.key : M FilePath)
            sys (mkdirAll dst.tail)
            sys (e.copyFile srcPath dst)) := by
          refine Guards.seq (Guards.reading fun _ _ _ _ => trivial) fun dst => ?_
          exact Guards.seq (Guards.failing (guards_mkdirAll _)) fun _ =>
            Guards.failing copyFile_guards
        have rest := install_guards copy (ok src)
        simp only [bind_assoc] at rest
        exact wp_mono (rest s inv) (fun _ _ h => h.1) fun _ _ h => h

/-- A history from which entries were taken. -/
structure Thinned (P : FileInv) (km : KeyMeta) (vs : List ObjectMeta) : Prop where
  marked : vs ≠ [] → P.Admits { km with versions := History.marked vs }
  promoted : vs ≠ [] → P.Admits { km with versions := History.promoted vs }

theorem marked_ne_nil (h : History.marked vs ≠ []) : vs ≠ [] := by
  rintro rfl
  exact h rfl

theorem promoted_ne_nil (h : History.promoted vs ≠ []) : vs ≠ [] := by
  rintro rfl
  exact h rfl

theorem deleteVersion_guards (ok : Thinned P km (History.keptBy c.versionID km.versions)) :
    P.Guards (fun _ => True) (e.deleteVersion c km) := by
  refine Guards.seq (removeBlobs_guards _) fun _ => Guards.ite (fun _ => ?_) fun _ => ?_
  · refine Guards.seq removeCurrent_guards fun _ => Guards.bind promoteNewLatest_guards fun km' eq => ?_
    rcases eq with rfl | rfl
    · exact finalizeKey_guards fun ne => ok.promoted (promoted_ne_nil ne)
    · exact finalizeKey_guards fun ne => ok.marked (marked_ne_nil ne)
  · rw [History.markLatest_eq]
    exact finalizeKey_guards fun ne => ok.marked (marked_ne_nil ne)

theorem deleteToMarker_guards (ok : P.Admits (KeyMeta.prependLatest
      { km with versions := History.displaced true km.versions } (e.marker c c.versionID))) :
    P.Guards (fun _ => True) (e.deleteToMarker c km) := by
  refine Guards.bind displaceCurrent_guards fun km' eq => ?_
  rw [eq]
  exact finalizeKey_guards fun _ => ok

theorem deleteNull_guards {bm : BucketMeta}
    (suspended : bm.versioning = "Suspended" → P.Admits (KeyMeta.prependLatest
      { km with versions := History.dropped km.versions } (e.marker c "null")))
    (off : bm.versioning ≠ "Suspended" → Thinned P km (History.dropped km.versions)) :
    P.Guards (fun _ => True) (e.deleteNull bm c km) := by
  refine Guards.bind dropCurrent_guards fun km' eq => ?_
  rw [eq]
  refine Guards.ite (fun h => finalizeKey_guards fun _ => suspended h) fun h => ?_
  rw [History.markLatest_eq]
  exact finalizeKey_guards fun ne => (off h).marked (marked_ne_nil ne)

/-- The history a deletion works on. -/
def deletable (e : Env) (s : Disk) (c : Command) : Option KeyMeta :=
  match e.readKeyMeta s c.bucket c.key with
  | .ok km => some { km with synthesized := false }
  | .error err =>
    if err = .api errNoSuchKey ∧ (e.bucketMetaForWrite s c.bucket).versioningEnabled ∧
      c.versionID ≠ "" then some { bucket := c.bucket, key := c.key }
    else none

theorem applyDeleteObject_run (s : Disk) :
    e.applyDeleteObject c s =
      match e.deletable s c with
      | none => .ok () s
      | some km =>
        if explicitVersion c then e.deleteVersion c km s
        else if (e.bucketMetaForWrite s c.bucket).versioningEnabled then e.deleteToMarker c km s
        else e.deleteNull (e.bucketMetaForWrite s c.bucket) c km s := by
  unfold applyDeleteObject deletable
  simp only [bind_apply, reading]
  cases e.readKeyMeta s c.bucket c.key with
  | ok km =>
    simp only
    split
    · rfl
    · split
      · rfl
      · rfl
  | error err =>
    simp only
    split
    · simp only
      split
      · rfl
      · split
        · rfl
        · rfl
    · rfl

theorem applyDeleteObject_everywhere (inv : Everywhere P.Holds s)
    (named : ∀ km, e.deletable s c = some km → explicitVersion c = true →
      Thinned P km (History.keptBy c.versionID km.versions))
    (marker : ∀ km, e.deletable s c = some km → explicitVersion c = false →
      (e.bucketMetaForWrite s c.bucket).versioningEnabled = true →
      P.Admits (KeyMeta.prependLatest
        { km with versions := History.displaced true km.versions } (e.marker c c.versionID)))
    (suspended : ∀ km, e.deletable s c = some km → explicitVersion c = false →
      (e.bucketMetaForWrite s c.bucket).versioning = "Suspended" → P.Admits (KeyMeta.prependLatest
        { km with versions := History.dropped km.versions } (e.marker c "null")))
    (off : ∀ km, e.deletable s c = some km → Thinned P km (History.dropped km.versions)) :
    Everywhere P.Holds (final (e.applyDeleteObject c) s) := by
  have run := applyDeleteObject_run (e := e) (c := c) s
  cases found : e.deletable s c with
  | none =>
    rw [found] at run
    rw [final_of_ok run]
    exact inv
  | some km =>
    simp only [found] at run
    have same : ∀ x : M Unit, e.applyDeleteObject c s = x s → P.Guards (fun _ => True) x →
        Everywhere P.Holds (final (e.applyDeleteObject c) s) := fun x eq guards => by
      have kept := guards.final inv
      unfold final at kept ⊢
      rwa [eq]
    split at run
    · rename_i explicit
      exact same _ run (deleteVersion_guards (named km found explicit))
    · rename_i unqualified
      have unqualified := Bool.eq_false_iff.mpr unqualified
      split at run
      · rename_i enabled
        exact same _ run (deleteToMarker_guards (marker km found unqualified enabled))
      · exact same _ run (deleteNull_guards (suspended km found unqualified) fun _ => off km found)

theorem applyObjectMetaMutation_everywhere (inv : Everywhere P.Holds s)
    (ok : ∀ km vs, e.readKeyMeta s c.bucket c.key = .ok km → e.amendTarget c km.versions = .ok vs →
      P.Admits { km with versions := vs, synthesized := false }) :
    Everywhere P.Holds (final (e.applyObjectMetaMutation c) s) := by
  refine wp_final ?_
  unfold applyObjectMetaMutation
  rw [wp_bind, wp_reading]
  cases read : e.readKeyMeta s c.bucket c.key with
  | error err => exact inv
  | ok km =>
    simp only
    rw [wp_bind, wp_reading]
    cases amended : e.amendTarget c km.versions with
    | error err => exact inv
    | ok vs =>
      have write := writeKeyMeta_guards (e := e) (ok km vs read amended)
      exact wp_mono (write s inv) (fun _ _ h => h.1) fun _ _ h => h

/-- Assembly of the payload keeps the files in order and everything else as it is. -/
theorem assemble_wp (area : e.area "staging" <:+ tmp) (inv : Everywhere P.Holds s)
    (parts : List Part) :
    wp (do sys (writeFile tmp ⟨.raw [], {}, .wall⟩ (written (.raw []))); e.appendParts uploadID tmp parts)
      (fun _ t => Everywhere P.Holds t ∧ SameButStaging e s t) (fun _ t => Everywhere P.Holds t) s := by
  have start : P.Guards (fun _ => True)
      (sys (writeFile tmp ⟨.raw [], {}, .wall⟩ (written (.raw [])))) :=
    Guards.failing (guards_writeFile ⟨P.raw _, P.bare⟩ fun f old => written_holds (P.raw _) old)
  rw [wp_bind]
  have first := start s inv
  refine wp_cases (fun _ s₁ run => ?_) fun _ s₁ run => ?_
  swap
  · have kept := wp_error first run
    exact kept
  have inv₁ := (wp_ok first run).1
  have same₁ : SameButStaging e s s₁ := by
    have opened : writeFile tmp ⟨.raw [], {}, .wall⟩ (written (.raw [])) s = .ok () s₁ := by
      cases h : (writeFile tmp ⟨.raw [], {}, .wall⟩ (written (.raw [])) : Call File Unit) s with
      | ok a s' =>
        rw [sys, failing, h] at run
        cases run
        rfl
      | error err s' =>
        rw [sys, failing, h] at run
        cases run
    exact SameButStaging.of_get area fun q ne => by rw [(writeFile_ok opened).2 q, if_neg ne]
  refine wp_mono (wp_and (appendParts_guards (e := e) parts s₁ inv₁) (appendParts_get parts s₁))
    (fun _ t h => ⟨h.1.1, same₁.trans (SameButStaging.of_get area h.2)⟩) fun _ t h => h.1

/-- What follows the assembly of the parts. -/
theorem install_complete_guards {mp : MultipartUpload} {ordered : List Part} {total : Int}
    (ok : P.Admits (e.extended s c
      (e.completeMeta (e.bucketMetaForWrite s c.bucket) mp c ordered total))) :
    P.Guards (fun _ => True) (do
      match ← attempt (e.displaceCurrent (e.loadKeyMetaOrNew s c.bucket c.key)
          (e.bucketMetaForWrite s c.bucket).versioningEnabled) with
      | .error (err : Err) => do
        ignore (remove (e.stagingPath c.blobToken) : Call File Unit)
        throw err
      | .ok km => do
        e.putCurrentBytes c.bucket c.key (e.stagingPath c.blobToken)
        e.writeKeyMeta (km.prependLatest
          (e.completeMeta (e.bucketMetaForWrite s c.bucket) mp c ordered total))
        e.cleanupUpload c.bucket c.uploadID) := by
  refine Guards.bind (Guards.attempt displaceCurrent_guards) fun r eq => ?_
  cases r with
  | error err => exact Guards.seq (Guards.ignore (guards_remove _)) fun _ => Guards.throw _
  | ok km =>
    rw [eq km rfl]
    exact Guards.seq putCurrentBytes_guards fun _ =>
      Guards.seq (writeKeyMeta_guards ok) fun _ => cleanupUpload_guards

theorem applyCompleteMultipart_everywhere (inv : Everywhere P.Holds s) (tame : Tame c.bucket)
    (token : Plain c.blobToken)
    (ok : ∀ mp parts total, P.Admits (e.extended s c
      (e.completeMeta (e.bucketMetaForWrite s c.bucket) mp c parts total))) :
    Everywhere P.Holds (final (e.applyCompleteMultipart c) s) := by
  have area : e.area "staging" <:+ e.stagingPath c.blobToken := by
    rw [stagingPath_eq token]
    exact List.suffix_cons _ _
  refine wp_final ?_
  unfold applyCompleteMultipart
  rw [wp_bind, wp_get, wp_bind, wp_reading]
  cases e.readMPU s c.bucket c.uploadID with
  | error err => exact inv
  | ok mp =>
    simp only
    rw [wp_bind, wp_reading]
    cases orderedParts mp c with
    | error err => exact inv
    | ok ordered =>
      simp only
      rw [wp_bind, wp_get, wp_ite]
      refine ⟨fun _ => ?_, fun _ => inv⟩
      rw [← bind_assoc, wp_bind]
      refine wp_mono (assemble_wp area inv ordered) (fun total t h => ?_) fun _ _ h => h
      obtain ⟨inv₁, same⟩ := h
      rw [wp_bind, wp_get, same.loadKeyMetaOrNew tame]
      exact wp_mono (install_complete_guards (ok mp ordered total) t inv₁) (fun _ _ h => h.1)
        fun _ _ h => h

end Env

end D9Store
