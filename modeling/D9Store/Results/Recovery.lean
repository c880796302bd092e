import D9Store.Backend.Failures
import D9Store.Backend.Written
import D9Store.Posix.Footprint
import D9Store.Runs

/-!
Recovery of payloads that a node missed (`applyWithRecovery`, `pullBlob`, `pullFromPeers`).

The attempts leave payloads only, and one application follows them. The payload of a put is taken only
from a transfer that ended well.
-/

namespace D9Store

open Posix FilePath

namespace Env

variable {e : Env} {s t : Disk} {c : Command} {F D : Set FilePath} {attempts : List (List Peer)}
    {dst : FilePath}

/-! ### What a pull changes -/

/-- The payloads a command is applied with. -/
def payloads (e : Env) (c : Command) : Set FilePath :=
  if c.op = .completeMultipart then {q | ∃ p ∈ c.parts, q = e.mpPartPath c.uploadID p.partNumber}
  else {e.stagingPath c.blobToken}

/-- Nothing but payloads of the command is new, and directories above them. -/
abbrev Staged (e : Env) (c : Command) : Disk → Disk → Prop :=
  Framed (e.payloads c) {q | ∃ p ∈ e.payloads c, q <:+ p.tail}

theorem pullFromPeers_within (mem : dst ∈ F) (dirs : ∀ q, q <:+ dst.tail → q ∈ D)
    (answers : List (Option Answer)) : Within F D (pullFromPeers dst answers) := by
  induction answers with
  | nil => exact Within.pure _
  | cons answer rest ih =>
    cases answer with
    | none => exact ih
    | some answer =>
      refine (Within.mkdirAll dirs).failing.bind fun _ => ?_
      refine (Within.writeFile mem).failing.bind fun _ => ?_
      exact Within.ite (fun _ => Within.pure _) fun _ => ih

theorem pullParts_within (uploadID : String) (peers : List Peer)
    {parts : List CompletedPart} (mem : ∀ p ∈ parts, e.mpPartPath uploadID p.partNumber ∈ F ∧
      ∀ q, q <:+ (e.mpPartPath uploadID p.partNumber).tail → q ∈ D) :
    Within F D (e.pullParts uploadID peers parts) := by
  induction parts with
  | nil => exact Within.pure _
  | cons p rest ih =>
    have next := ih fun p' mem' => mem p' (List.mem_cons_of_mem _ mem')
    have here := mem p List.mem_cons_self
    refine (Within.reading _).bind fun present => Within.ite (fun _ => next) fun _ => ?_
    refine (pullFromPeers_within here.1 here.2 _).bind fun pulled => ?_
    exact Within.ite (fun _ => next) fun _ => Within.pure _

theorem pullBlob_staged (c : Command) (peers : List Peer) (s : Disk) :
    Staged e c s (final (e.pullBlob c peers) s) := by
  refine Within.final ?_ s
  unfold pullBlob
  split
  · rename_i op
    have here (p : CompletedPart) (mem : p ∈ c.parts) :
        e.mpPartPath c.uploadID p.partNumber ∈ e.payloads c := by
      rw [payloads, if_pos op]
      exact ⟨p, mem, rfl⟩
    exact pullParts_within _ _ fun p mem => ⟨here p mem, fun q sub => ⟨_, here p mem, sub⟩⟩
  · rename_i other
    have here : e.stagingPath c.blobToken ∈ e.payloads c := by
      rw [payloads, if_neg other]
      rfl
    refine (Within.reading _).bind fun version => pullFromPeers_within here (fun q sub => ?_) _
    exact ⟨_, here, sub⟩

/-! ### The retry loop -/

/-- Recovery stages payloads and applies the command once, or gives up and has staged payloads
only. -/
theorem recovery_applies_once (c : Command) (attempts : List (List Peer)) (s : Disk) :
    ∃ s', Staged e c s s' ∧ (e.applyWithRecovery c attempts s = e.applyDisk c s' ∨
      e.applyWithRecovery c attempts s = .error .blobMissing s') := by
  have loop (attempts : List (List Peer)) (s : Disk) : ∃ s', Staged e c s s' ∧
      (e.recover c attempts s = e.applyDisk c s' ∨
        e.recover c attempts s = .error .blobMissing s') := by
    induction attempts generalizing s with
    | nil => exact ⟨s, Framed.refl s, .inr rfl⟩
    | cons peers rest ih =>
      have staged := pullBlob_staged (e := e) c peers s
      rcases recover_cons s c peers rest with again | ⟨-, applied⟩
      · obtain ⟨s', more, done⟩ := ih (final (e.pullBlob c peers) s)
        exact ⟨s', staged.trans more, by rwa [again]⟩
      · exact ⟨_, staged, .inl applied⟩
  rcases applyWithRecovery_eq s c attempts with first | retried
  · exact ⟨s, Framed.refl s, .inl first⟩
  · rw [retried]
    exact loop _ s

/-! ### The payload of a put -/

/-- A pull that reports success ends with a transfer that ended well. -/
theorem whole_of_pull {answers : List (Option Answer)}
    (run : pullFromPeers dst answers s = .ok true t) :
    ∃ answer, some answer ∈ answers ∧ answer.whole = true ∧
      content t dst = some (.raw answer.bytes) := by
  induction answers generalizing s with
  | nil => cases run
  | cons answer rest ih =>
    cases answer with
    | none =>
      obtain ⟨answer, mem, ended⟩ := ih run
      exact ⟨answer, List.mem_cons_of_mem _ mem, ended⟩
    | some answer =>
      obtain ⟨_, s₁, -, run⟩ := bind_ok.mp run
      obtain ⟨_, s₂, wrote, run⟩ := bind_ok.mp run
      cases whole : answer.whole with
      | true =>
        simp only [whole, if_true] at run
        cases run
        refine ⟨answer, List.mem_cons_self, whole, ?_⟩
        simp only [content, DirTree.file, (writeFile_ok (sys_ok.mp wrote)).2, if_true]
        cases s₁.get dst with
        | none => rfl
        | some node => cases node <;> rfl
      | false =>
        simp only [whole, Bool.false_eq_true, if_false] at run
        obtain ⟨answer', mem, ended⟩ := ih run
        exact ⟨answer', List.mem_cons_of_mem _ mem, ended⟩

/-- The version asked for depends on the configuration file of the bucket alone. -/
theorem pullVersion_of_file
    (same : t.file (e.bucketMetaPath c.bucket) = s.file (e.bucketMetaPath c.bucket)) :
    e.pullVersion t c = e.pullVersion s c := by
  have docs : (e.readDoc t (e.bucketMetaPath c.bucket)).toOption =
      (e.readDoc s (e.bucketMetaPath c.bucket)).toOption := by
    unfold DirTree.file at same
    unfold Env.readDoc DirTree.readFile
    rcases hs : s.get (e.bucketMetaPath c.bucket) with _ | _ | f <;>
      rcases ht : t.get (e.bucketMetaPath c.bucket) with _ | _ | g <;> simp_all [Except.toOption]
  have told (s : Disk) : e.pullVersion s c =
      ((e.readDoc s (e.bucketMetaPath c.bucket)).toOption.map fun doc =>
        if doc.asBucketMeta.versioningEnabled then c.versionID else "").getD "" := by
    unfold pullVersion readBucketMeta
    cases e.readDoc s (e.bucketMetaPath c.bucket) with
    | ok doc => rfl
    | error err =>
      dsimp only
      cases validBucketName c.bucket && s.isDir (e.bucketDir c.bucket) <;> rfl
  rw [told, told, docs]

/-- What a recovered put is applied with: the bytes of a transfer that ended well, of the version
that is asked for. -/
def Delivered (e : Env) (c : Command) (version : String) (attempts : List (List Peer))
    (s' : Disk) : Prop :=
  ∃ peers ∈ attempts, ∃ peer ∈ peers, ∃ answer,
    e.handleObject peer c.bucket c.key version = some answer ∧ answer.whole = true ∧
      content s' (e.stagingPath c.blobToken) = some (.raw answer.bytes)

theorem recover_put (op : c.op = .putObject) {version : String}
    (asked : ∀ s', Staged e c s s' → e.pullVersion s' c = version)
    (run : e.recover c attempts s = .ok () t) :
    ∃ s', Staged e c s s' ∧ e.Delivered c version attempts s' ∧ e.applyDisk c s' = .ok () t := by
  induction attempts generalizing s with
  | nil => cases run
  | cons peers rest ih =>
    have staged := pullBlob_staged (e := e) c peers s
    rcases recover_cons s c peers rest with again | ⟨pulled, applied⟩
    · obtain ⟨s', more, ⟨others, mem, found⟩, done⟩ :=
        ih (fun s' more => asked s' (staged.trans more)) (again ▸ run)
      exact ⟨s', staged.trans more, ⟨others, List.mem_cons_of_mem _ mem, found⟩, done⟩
    · refine ⟨_, staged, ⟨peers, List.mem_cons_self, ?_⟩, applied ▸ run⟩
      have pull : pullFromPeers (e.stagingPath c.blobToken)
          (peers.map fun peer => e.handleObject peer c.bucket c.key version) s =
            .ok true (final (e.pullBlob c peers) s) := by
        rw [← pulled, pullBlob, op]
        simp only [bind_apply, reading, asked s (Framed.refl s)]
      obtain ⟨answer, mem, ended⟩ := whole_of_pull pull
      obtain ⟨peer, memPeer, answered⟩ := List.mem_map.mp mem
      exact ⟨peer, memPeer, answer, answered, ended⟩

/-- A put that succeeds is applied with the payload that was there, or with one that a peer served
whole in one of the attempts. -/
theorem recovered_put_whole (op : c.op = .putObject) (token : Plain c.blobToken)
    (bucket : '/' ∉ c.bucket.toList)
    (run : e.applyWithRecovery c attempts s = .ok () t) :
    e.applyDisk c s = .ok () t ∨ ∃ s', Staged e c s s' ∧
      e.Delivered c (e.pullVersion s c) (attempts.take recoveryAttempts) s' ∧
      e.applyDisk c s' = .ok () t := by
  rcases applyWithRecovery_eq (e := e) s c attempts with first | retried
  · exact .inl (first ▸ run)
  · refine .inr (recover_put op (fun s' staged => pullVersion_of_file (staged.file _ ?_))
      (retried ▸ run))
    have config : e.area "buckets" <:+ e.bucketMetaPath c.bucket := by
      rw [bucketMetaPath_eq bucket]
      exact List.suffix_cons _ _
    rw [payloads, if_neg (by simp [op]), Set.mem_singleton_iff, stagingPath_eq token]
    exact area_ne config (List.suffix_cons _ _) (by decide)

/-- A peer that has applied a put. -/
def holder : Peer where
  disk := (smallEnv false).feed [Small.payload 1, .command (Small.put "k" 1)] (smallDisk false)

/-- A node that missed the payload of a put recovers it. -/
theorem missed_put_recovered :
    let e := smallEnv false
    let c := Small.put "k" 1
    let t := final (e.applyWithRecovery c [[holder]]) (smallDisk false)
    e.applyDisk c (smallDisk false) = .ok () t ∨ ∃ s', Staged e c (smallDisk false) s' ∧
      e.Delivered c (e.pullVersion (smallDisk false) c) ([[holder]].take recoveryAttempts) s' ∧
      e.applyDisk c s' = .ok () t :=
  recovered_put_whole rfl (by decide) (by decide) (run_of_isOk (by decide))

end Env

end D9Store
