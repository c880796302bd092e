import D9Store.Node.Fsm
import D9Store.Posix.Failures

/-!
The failures of applied commands, and the HTTP status each is reported with (`s3err.From`).

A command that was applied, or that failed while it was, never reports a status a client takes for
a success or for a request sent to the wrong node. A missing payload is reported before anything is
written.
-/

namespace D9Store

open Posix

/-- `From(err).HTTPStatus`. -/
def Err.status : Err → Nat
  | .api a => a.httpStatus
  | _ => 500

/-- A client takes the failure for what it is. -/
def Err.Plain (err : Err) : Prop := 400 ≤ err.status ∧ err.status ≠ 421

instance (err : Err) : Decidable err.Plain := inferInstanceAs (Decidable (_ ∧ _))

/-- A plain failure other than a missing payload. -/
def Err.Ordinary (err : Err) : Prop := err.Plain ∧ err ≠ .blobMissing

instance (err : Err) : Decidable err.Ordinary := inferInstanceAs (Decidable (_ ∧ _))

theorem plain_os (err : Errno) : (Err.os err).Ordinary :=
  ⟨⟨(by decide : 400 ≤ 500), (by decide : 500 ≠ 421)⟩, by simp⟩

variable {σ α β : Type} {err : Err}

/-- All failures of a read are ordinary. -/
def PlainFails (r : Except Err α) : Prop := ∀ err, r = .error err → err.Ordinary

theorem plainFails_ok (a : α) : PlainFails (.ok a : Except Err α) := by
  rintro err ⟨⟩

theorem plainFails_error (h : err.Ordinary) : PlainFails (.error err : Except Err α) := by
  rintro err' ⟨⟩
  exact h

theorem PlainFails.bind {r : Except Err α} {f : α → Except Err β} (hr : PlainFails r)
    (hf : ∀ a, PlainFails (f a)) : PlainFails (r >>= f) := by
  cases r with
  | error err => exact plainFails_error (hr err rfl)
  | ok a => exact hf a

/-- Every failure of the program is ordinary. -/
abbrev Plainly (x : EStateM Err σ α) : Prop := FailsIn Err.Ordinary x

theorem Plainly.read {f : σ → Except Err α} (h : ∀ s, PlainFails (f s)) :
    Plainly (reading f) :=
  FailsIn.reading fun s => h s

theorem Plainly.sys (x : Call File α) : Plainly (sys x) :=
  FailsIn.failing plain_os x

/-- A missing payload is reported before anything is written, every other failure is ordinary. -/
def Announced (x : M α) : Prop :=
  ∀ s err t, x s = .error err t → err.Ordinary ∨ err = .blobMissing ∧ t = s

namespace Announced

theorem of_plainly {x : M α} (h : Plainly x) : Announced x :=
  fun s err t run => .inl (h s err t run)

theorem missing : Announced (throw .blobMissing : M α) := by
  intro s err t run
  cases run
  exact .inr ⟨rfl, rfl⟩

theorem read {f : Disk → Except Err α} {g : α → M β} (hf : ∀ s, PlainFails (f s))
    (hg : ∀ a, Announced (g a)) : Announced (reading f >>= g) := by
  intro s err t run
  rw [bind_apply, reading] at run
  cases result : f s with
  | ok a =>
    simp only [result] at run
    exact hg a s err t run
  | error err' =>
    simp only [result] at run
    cases run
    exact .inl (hf s err result)

theorem get {f : Disk → α} {g : α → M β} (hg : ∀ a, Announced (g a)) :
    Announced (reading (fun s => .ok (f s)) >>= g) :=
  read (fun s => plainFails_ok (f s)) hg

theorem ite {p : Prop} [Decidable p] {x y : M α} (hx : Announced x) (hy : Announced y) :
    Announced (if p then x else y) := by
  split
  · exact hx
  · exact hy

end Announced

namespace Env

variable {e : Env} (s : Disk) (bucket key : String) (c : Command) (km : KeyMeta)

/-! ### Places and documents -/

theorem plain_confine (base full : FilePath) : PlainFails (confine base full) := by
  unfold confine
  split
  · exact plainFails_ok _
  · exact plainFails_error (by decide)

theorem plain_objectPath : PlainFails (e.objectPath bucket key) :=
  plain_confine _ _

theorem plain_historyPath : PlainFails (e.historyPath bucket key) :=
  plain_confine _ _

theorem plain_readDoc (p : FilePath) : PlainFails (e.readDoc s p) := by
  unfold readDoc
  split
  · exact plainFails_error (plain_os _)
  · split
    · exact plainFails_ok _
    · exact plainFails_error (by decide)

theorem plain_marshal (doc : Doc) : PlainFails (e.marshal doc) := by
  unfold marshal
  split
  · split
    · exact plainFails_ok _
    · split
      · exact plainFails_ok _
      · exact plainFails_error (by decide)
  · exact plainFails_ok _

theorem plain_writeJSON (p : FilePath) (doc : Doc) : Plainly (e.writeJSON p doc) := by
  refine FailsIn.bind (Plainly.read fun _ => plain_marshal doc) fun doc => ?_
  exact (Plainly.sys _).bind fun _ => (Plainly.sys _).bind fun _ => Plainly.sys _

theorem plain_removeIfPresent (p : FilePath) : Plainly (removeIfPresent p) := by
  refine FailsIn.bind (FailsIn.attempt _) fun result => ?_
  split
  · exact FailsIn.pure _
  · exact FailsIn.pure _
  · exact FailsIn.throw (plain_os _)

theorem plain_readKeyMeta : PlainFails (e.readKeyMeta s bucket key) := by
  unfold readKeyMeta
  refine (plain_historyPath bucket key).bind fun hp => ?_
  split
  · exact plainFails_ok _
  · refine (plain_objectPath bucket key).bind fun op => ?_
    split
    · exact plainFails_error (by decide)
    · exact plainFails_ok _
  · rename_i err _ failed
    exact plainFails_error (plain_readDoc s hp err failed)

theorem plain_readBucketMeta : PlainFails (e.readBucketMeta s bucket) := by
  unfold readBucketMeta
  split
  · exact plainFails_ok _
  · split
    · exact plainFails_ok _
    · exact plainFails_error (by decide)

theorem plain_readMPU (uploadID : String) : PlainFails (e.readMPU s bucket uploadID) := by
  unfold readMPU
  split
  · exact plainFails_ok _
  · exact plainFails_error (by decide)

/-! ### One key -/

theorem plain_writeCurrentXattrs (p : FilePath) (v : ObjectMeta) :
    Plainly (writeCurrentXattrs p v) := by
  refine (Plainly.sys _).bind fun _ => FailsIn.ite (FailsIn.pure _) (FailsIn.ignore _)

theorem plain_writeKeyMeta : Plainly (e.writeKeyMeta km) := by
  refine FailsIn.bind ?_ fun _ => ?_
  · unfold writeHead
    split
    · refine FailsIn.ite (FailsIn.bind ?_ fun op => plain_writeCurrentXattrs op _) (FailsIn.pure _)
      exact Plainly.read fun _ => plain_objectPath km.bucket km.key
    · exact FailsIn.pure _
  · refine FailsIn.bind (Plainly.read fun _ => plain_historyPath _ _) fun hp => ?_
    split
    · exact FailsIn.ite (plain_writeJSON _ _) (plain_removeIfPresent _)
    · exact plain_writeJSON _ _

theorem plain_putCurrentBytes (src : FilePath) : Plainly (e.putCurrentBytes bucket key src) := by
  refine FailsIn.bind (Plainly.read fun _ => plain_objectPath bucket key) fun op => ?_
  exact (Plainly.sys _).bind fun _ => Plainly.sys _

theorem plain_displaceCurrent (enabled : Bool) : Plainly (e.displaceCurrent km enabled) := by
  unfold displaceCurrent
  split
  · exact FailsIn.pure _
  · refine FailsIn.ite (FailsIn.pure _) (FailsIn.ite (FailsIn.bind ?_ fun _ => FailsIn.pure _)
      (FailsIn.pure _))
    refine FailsIn.bind (Plainly.read fun _ => plain_objectPath _ _) fun op => ?_
    exact (Plainly.sys _).bind fun _ => Plainly.sys _

theorem plain_pruneEmptyDirs (stop dir : FilePath) : Plainly (pruneEmptyDirs stop dir) := by
  induction dir with
  | nil => exact FailsIn.pure _
  | cons seg dir ih =>
    unfold pruneEmptyDirs
    refine FailsIn.ite (FailsIn.bind (FailsIn.attempt _) fun result => ?_) (FailsIn.pure _)
    split
    · exact ih
    · exact FailsIn.pure _

theorem plain_removeCurrent : Plainly (e.removeCurrent bucket key) := by
  unfold removeCurrent
  split
  · exact FailsIn.pure _
  · exact (FailsIn.ignore _).bind fun _ => plain_pruneEmptyDirs _ _

theorem plain_finalizeKey : Plainly (e.finalizeKey km) := by
  refine FailsIn.ite (FailsIn.bind (plain_removeCurrent _ _) fun _ => ?_) (plain_writeKeyMeta km)
  exact FailsIn.bind (Plainly.read fun _ => plain_historyPath _ _) fun hp => plain_removeIfPresent hp

/-! ### Commands -/

theorem plain_createBucket : Plainly (e.applyCreateBucket c) := by
  have name : (Err.api errInvalidBucketName).Ordinary := by decide
  have own : (Err.api errBucketAlreadyOwn).Ordinary := by decide
  refine FailsIn.ite ?_ (FailsIn.throw name)
  refine FailsIn.bind (FailsIn.get _) fun taken => ?_
  refine FailsIn.ite (FailsIn.throw own) ?_
  exact (Plainly.sys _).bind fun _ => (Plainly.sys _).bind fun _ => (Plainly.sys _).bind fun _ =>
    (Plainly.sys _).bind fun _ => plain_writeJSON _ _

theorem plain_deleteBucket : Plainly (e.applyDeleteBucket c) := by
  have full : (Err.api errBucketNotEmpty).Ordinary := by decide
  refine FailsIn.bind (FailsIn.get _) fun empty => ?_
  refine FailsIn.ite ?_ (FailsIn.throw full)
  exact (Plainly.sys _).bind fun _ => (Plainly.sys _).bind fun _ => (Plainly.sys _).bind fun _ =>
    (Plainly.sys _).bind fun _ => plain_removeIfPresent _

theorem plain_configure (bm : BucketMeta) : PlainFails (e.configure c bm) := by
  unfold configure
  split <;> first
    | exact plainFails_ok _
    | (split
       · exact plainFails_ok _
       · exact plainFails_error (by decide))

theorem plain_bucketConfig : Plainly (e.applyBucketConfig c) := by
  refine FailsIn.bind (Plainly.read fun s => plain_readBucketMeta s _) fun bm => ?_
  exact FailsIn.bind (Plainly.read fun _ => plain_configure c bm) fun bm => plain_writeJSON _ _

theorem announced_putObject : Announced (e.applyPutObject c) := by
  refine Announced.get fun bm => Announced.get fun arrived => Announced.ite ?_ Announced.missing
  refine Announced.get fun km => Announced.of_plainly ?_
  refine (plain_displaceCurrent km _).bind fun km => ?_
  exact (plain_putCurrentBytes _ _ _).bind fun _ => plain_writeKeyMeta _

theorem plain_removeBlobs (vs : List ObjectMeta) : Plainly (e.removeBlobs bucket vs) := by
  induction vs with
  | nil => exact FailsIn.pure _
  | cons v vs ih =>
    unfold removeBlobs
    refine FailsIn.ite ih (FailsIn.bind ?_ fun _ => ih)
    exact FailsIn.ite (FailsIn.pure _) (FailsIn.ignore _)

theorem plain_promoteNewLatest : Plainly (e.promoteNewLatest km) := by
  unfold promoteNewLatest
  split
  · exact FailsIn.pure _
  · refine FailsIn.ite (FailsIn.bind (FailsIn.attempt _) fun result => ?_) (FailsIn.pure _)
    split
    · exact FailsIn.pure _
    · exact FailsIn.pure _

theorem plain_deleteVersion : Plainly (e.deleteVersion c km) := by
  refine (plain_removeBlobs _ _).bind fun _ => FailsIn.ite ?_ (plain_finalizeKey _)
  exact (plain_removeCurrent _ _).bind fun _ => (plain_promoteNewLatest _).bind fun _ =>
    plain_finalizeKey _

theorem plain_deleteNull (bm : BucketMeta) (c : Command) (km : KeyMeta) :
    Plainly (e.deleteNull bm c km) := by
  refine FailsIn.bind ?_ fun km => FailsIn.ite (plain_finalizeKey _) (plain_finalizeKey _)
  unfold dropCurrent
  split
  · exact FailsIn.pure _
  · refine FailsIn.ite (FailsIn.pure _) (FailsIn.ite ?_ ?_)
    · exact (plain_removeCurrent _ _).bind fun _ => FailsIn.ite (FailsIn.pure _) (FailsIn.pure _)
    · refine FailsIn.bind (FailsIn.ite (FailsIn.pure _) (FailsIn.ignore _)) fun _ => ?_
      exact FailsIn.ite (FailsIn.pure _) (FailsIn.pure _)

theorem plain_deleteObject : Plainly (e.applyDeleteObject c) := by
  have proceed (bm : BucketMeta) (km : KeyMeta) : Plainly
      (if explicitVersion c then e.deleteVersion c km
       else if bm.versioningEnabled then e.deleteToMarker c km
       else e.deleteNull bm c km) := by
    refine FailsIn.ite (plain_deleteVersion c _) (FailsIn.ite ?_ (plain_deleteNull bm c _))
    exact (plain_displaceCurrent _ _).bind fun km => plain_finalizeKey _
  unfold applyDeleteObject
  refine (FailsIn.get _).bind fun bm => (FailsIn.get _).bind fun found => ?_
  dsimp only
  split
  · exact proceed bm _
  · exact FailsIn.ite (proceed bm _) (FailsIn.pure _)

theorem plain_resolveVersion (versionID : String) :
    PlainFails (e.resolveVersion s bucket key versionID) := by
  unfold resolveVersion
  refine (plain_readBucketMeta s bucket).bind fun _ => (plain_readKeyMeta s bucket key).bind
    fun km => ?_
  split
  · split
    · exact plainFails_ok _
    · exact plainFails_error (by decide)
  · split
    · exact plainFails_ok _
    · exact plainFails_error (by decide)

theorem plain_physPath (v : ObjectMeta) : PlainFails (e.physPath bucket v) := by
  unfold physPath
  split
  · exact plain_objectPath _ _
  · exact plainFails_ok _

theorem plain_copyObject : Plainly (e.applyCopyObject c) := by
  rw [applyCopyObject_steps]
  split
  · exact FailsIn.throw (by decide)
  · refine (FailsIn.get _).bind fun bm => ?_
    refine FailsIn.bind (Plainly.read fun s => plain_resolveVersion s _ _ _) fun src => ?_
    have gone : (Err.api errNoSuchKey).Ordinary := by decide
    refine FailsIn.ite (FailsIn.throw gone) ?_
    refine FailsIn.bind (Plainly.read fun _ => plain_physPath _ _) fun srcPath => ?_
    refine (FailsIn.get _).bind fun km => (plain_displaceCurrent km _).bind fun km => ?_
    refine FailsIn.bind (Plainly.read fun _ => plain_objectPath _ _) fun dst => ?_
    exact (Plainly.sys _).bind fun _ => (Plainly.sys _).bind fun _ => plain_writeKeyMeta _

theorem plain_mutate (v : ObjectMeta) : PlainFails (e.mutate c v) := by
  unfold mutate
  split <;> first
    | exact plainFails_ok _
    | (split
       · exact plainFails_ok _
       · exact plainFails_error (by decide))

theorem plain_amendVersion (vid : String) (vs : List ObjectMeta) :
    PlainFails (amendVersion (e.mutate c) vid vs) := by
  induction vs with
  | nil => exact plainFails_error (by decide)
  | cons v vs ih =>
    unfold amendVersion
    split
    · exact (plain_mutate c v).bind fun _ => plainFails_ok _
    · exact ih.bind fun _ => plainFails_ok _

theorem plain_amendLatest (vs : List ObjectMeta) : PlainFails (amendLatest (e.mutate c) vs) := by
  unfold amendLatest
  split
  · exact plainFails_error (by decide)
  · split
    · exact plainFails_error (by decide)
    · exact (plain_mutate c _).bind fun _ => plainFails_ok _

theorem plain_metaMutation : Plainly (e.applyObjectMetaMutation c) := by
  refine FailsIn.bind (Plainly.read fun s => plain_readKeyMeta s _ _) fun km => ?_
  refine FailsIn.bind (Plainly.read fun _ => ?_) fun versions => plain_writeKeyMeta _
  unfold amendTarget
  split
  · exact plain_amendVersion c _ _
  · exact plain_amendLatest c _

/-! ### Multipart uploads -/

theorem plain_resolveParts (uploaded : List Part) (prev : Int) (wanted : List CompletedPart) :
    PlainFails (resolveParts uploaded prev wanted) := by
  induction wanted generalizing prev with
  | nil => exact plainFails_ok _
  | cons want wanted ih =>
    unfold resolveParts
    split
    · exact plainFails_error (by decide)
    · split
      · exact plainFails_error (by decide)
      · split
        · exact (ih _).bind fun _ => plainFails_ok _
        · exact plainFails_error (by decide)

theorem plain_orderedParts (mp : MultipartUpload) (c : Command) : PlainFails (orderedParts mp c) := by
  unfold orderedParts
  refine (plain_resolveParts _ _ _).bind fun ordered => ?_
  split
  · exact plainFails_error (by decide)
  · split
    · exact plainFails_error (by decide)
    · exact plainFails_ok _

theorem announced_uploadPart : Announced (e.applyUploadPart c) := by
  refine Announced.get fun arrived => Announced.ite ?_ Announced.missing
  refine Announced.read (fun s => plain_readMPU s _ _) fun mp => ?_
  exact Announced.of_plainly (plain_writeJSON _ _)

theorem plain_appendParts (uploadID : String) (tmp : FilePath) (parts : List Part) :
    Plainly (e.appendParts uploadID tmp parts) := by
  induction parts with
  | nil => exact FailsIn.pure _
  | cons p parts ih =>
    unfold appendParts
    refine FailsIn.bind (FailsIn.attempt _) fun result => ?_
    split
    · exact (FailsIn.ignore _).bind fun _ => FailsIn.throw (plain_os _)
    · exact (Plainly.sys _).bind fun _ => ih.bind fun _ => FailsIn.pure _

theorem plain_cleanupUpload (uploadID : String) : Plainly (e.cleanupUpload bucket uploadID) := by
  have each (ps : List FilePath) : Plainly (removeEach ps) := by
    induction ps with
    | nil => exact FailsIn.pure _
    | cons p ps ih => exact (FailsIn.ignore _).bind fun _ => ih
  exact (FailsIn.get _).bind fun matched => (each matched).bind fun _ => FailsIn.ignore _

theorem announced_completeMultipart : Announced (e.applyCompleteMultipart c) := by
  unfold applyCompleteMultipart
  refine Announced.get fun bm => Announced.read (fun s => plain_readMPU s _ _) fun mp => ?_
  refine Announced.read (fun _ => plain_orderedParts mp c) fun ordered => ?_
  refine Announced.get fun arrived => Announced.ite (Announced.of_plainly ?_) Announced.missing
  refine (Plainly.sys _).bind fun _ => (plain_appendParts _ _ _).bind fun total => ?_
  refine (FailsIn.get _).bind fun km => ?_
  refine FailsIn.bind_attempt (plain_displaceCurrent km _) (fun km => ?_) fun err plain => ?_
  · exact (plain_putCurrentBytes _ _ _).bind fun _ => (plain_writeKeyMeta _).bind fun _ =>
      plain_cleanupUpload _ _
  · exact (FailsIn.ignore _).bind fun _ => FailsIn.throw plain

theorem plain_abortMultipart : Plainly (e.applyAbortMultipart c) := by
  refine (FailsIn.get _).bind fun found => ?_
  split
  · exact FailsIn.pure _
  · exact plain_cleanupUpload _ _

theorem announced_applyDisk : Announced (e.applyDisk c) := by
  have unsupported (op : Op) : (Err.unsupportedOp op).Ordinary :=
    ⟨⟨(by decide : 400 ≤ 500), (by decide : 500 ≠ 421)⟩, by simp⟩
  unfold applyDisk
  split
  case h_3 => exact announced_putObject c
  case h_7 => exact announced_uploadPart c
  case h_8 => exact announced_completeMultipart c
  all_goals refine Announced.of_plainly ?_
  · exact plain_createBucket c
  · exact plain_deleteBucket c
  · exact plain_deleteObject c
  · exact plain_copyObject c
  · exact plain_writeJSON _ _
  · exact plain_abortMultipart c
  all_goals first
    | exact plain_metaMutation c
    | exact plain_bucketConfig c
    | exact FailsIn.throw (unsupported _)

/-- Every failure of a command is plain. -/
theorem plain_applyDisk : FailsIn Err.Plain (e.applyDisk c) := by
  intro s err t run
  rcases announced_applyDisk c s err t run with ordinary | ⟨rfl, -⟩
  · exact ordinary.1
  · decide

/-! ### Recovery -/

/-- A command that misses a payload has changed nothing. -/
theorem same_of_missing {s t : Disk} {c : Command} (run : e.applyDisk c s = .error .blobMissing t) :
    t = s := by
  rcases announced_applyDisk c s _ t run with ordinary | ⟨-, same⟩
  · exact absurd rfl ordinary.2
  · exact same

/-- An attempt applies the command to the disk its pull leaves, or passes that disk on to the next
attempt. -/
theorem recover_cons (peers : List Peer) (rest : List (List Peer)) :
    e.recover c (peers :: rest) s = e.recover c rest (final (e.pullBlob c peers) s) ∨
      e.pullBlob c peers s = .ok true (final (e.pullBlob c peers) s) ∧
        e.recover c (peers :: rest) s = e.applyDisk c (final (e.pullBlob c peers) s) := by
  rw [recover, bind_apply, attempt, final]
  cases e.pullBlob c peers s with
  | error err s' => exact .inl rfl
  | ok pulled s' =>
    cases pulled with
    | false => exact .inl rfl
    | true =>
      simp only [bind_apply, attempt]
      cases applied : e.applyDisk c s' with
      | ok a t => exact .inr ⟨trivial, rfl⟩
      | error err t =>
        cases err with
        | blobMissing =>
          cases same_of_missing applied
          exact .inl rfl
        | _ => exact .inr ⟨trivial, rfl⟩

/-- The first application decides, unless it misses a payload that can be pulled. -/
theorem applyWithRecovery_eq (attempts : List (List Peer)) :
    e.applyWithRecovery c attempts s = e.applyDisk c s ∨
      e.applyWithRecovery c attempts s = e.recover c (attempts.take recoveryAttempts) s := by
  rw [applyWithRecovery, bind_apply, attempt]
  cases applied : e.applyDisk c s with
  | ok a t => exact .inl rfl
  | error err t =>
    dsimp only
    split
    · rename_i pulls
      cases pulls.1
      cases same_of_missing applied
      exact .inr rfl
    · exact .inl rfl

theorem plain_recover (attempts : List (List Peer)) : FailsIn Err.Plain (e.recover c attempts) := by
  induction attempts with
  | nil => exact FailsIn.throw (by decide)
  | cons peers rest ih =>
    intro s err t run
    rcases recover_cons s c peers rest with again | ⟨-, applied⟩
    · exact ih _ err t (again ▸ run)
    · exact plain_applyDisk c _ err t (applied ▸ run)

theorem plain_applyWithRecovery (attempts : List (List Peer)) :
    FailsIn Err.Plain (e.applyWithRecovery c attempts) := by
  refine FailsIn.bind_attempt (plain_applyDisk c) (fun _ => FailsIn.pure _) fun err plain => ?_
  exact FailsIn.ite (plain_recover c _) (FailsIn.throw plain)

end Env

/-! ### The state machine -/

theorem Backend.plain_onDisk {x : M α} (h : FailsIn Err.Plain x) : FailsIn Err.Plain (onDisk x) := by
  intro b err b' run
  unfold onDisk at run
  split at run
  · cases run
  · rename_i failed
    cases run
    exact h _ _ _ failed

theorem Backend.plain_persist (e : Env) : FailsIn Err.Plain (persist e) := by
  intro b err b' run
  refine plain_onDisk (fun s err t failed => And.left (b := err ≠ .blobMissing) ?_) b err b' run
  exact FailsIn.bind (Plainly.sys _) (fun _ => Plainly.sys _) s err t failed

theorem Backend.plain_apply (e : Env) (c : Command) : FailsIn Err.Plain (apply e c) := by
  have modified (f : Backend → Backend) : FailsIn Err.Plain (modify f : EStateM Err Backend Unit) := by
    intro b err b' run
    cases run
  have json : Err.json.Plain := by decide
  unfold apply
  split
  · unfold putAccount
    split
    · exact FailsIn.throw json
    · exact (modified _).bind fun _ => plain_persist e
  · exact (modified _).bind fun _ => plain_persist e
  · exact plain_onDisk (Env.plain_applyDisk c)

/-- What the state machine answers for an entry is a success or a plain failure. -/
theorem Fsm.apply_plain {e : Env} {entry : LogEntry} {attempts : List (List Peer)} {f : Fsm}
    (failed : (Fsm.apply e entry attempts f).1 = .error err) : err.Plain := by
  have json : Err.json.Plain := by decide
  refine FailsIn.outcome ?_ failed
  split
  · split
    · exact Backend.plain_apply e _
    · exact Backend.plain_apply e _
    · exact Backend.plain_onDisk (Env.plain_applyWithRecovery _ _)
  · exact FailsIn.throw json
  · exact FailsIn.pure _

end D9Store
