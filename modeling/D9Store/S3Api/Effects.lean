import D9Store.Gateway.Commands
import D9Store.S3Api.Server

/-!
What the handlers of the front end do to the trace.

`Adds e P x` says that every effect of `x`, from any state and whatever its outcome, is one of
`P`, and that the backend is what these effects make of it. It is closed under the ways handlers
are put together, so that a handler is judged by the commands and reads it contains.
-/

namespace D9Store

open Posix

/-! ### The commands of a request -/

/-- Operations whose commands name a payload, a version or an upload. -/
def namingOps : List Op :=
  [.putObject, .copyObject, .deleteObject, .createMultipart, .uploadPart, .completeMultipart,
   .abortMultipart]

/-- The command records a version under its version id. -/
def Command.versions (c : Command) : Bool :=
  c.op == .putObject || c.op == .copyObject || c.op == .completeMultipart ||
    c.op == .deleteObject && !Env.explicitVersion c

/-- A command of a request on a bucket. Payloads, versions and new uploads have ids of the
gateway. -/
structure Command.Issued (c : Command) (ids : Set String) (bucket uploadID : String) : Prop where
  bucket : c.bucket = bucket
  token : c.op = .putObject ∨ c.op = .completeMultipart → c.blobToken ∈ ids
  version : c.versions = true → c.versionID ∈ ids ∨ c.versionID = ""
  upload : c.op = .createMultipart ∨ c.op = .uploadPart ∨ c.op = .completeMultipart ∨
    c.op = .abortMultipart → c.uploadID ∈ ids ∨ c.uploadID = uploadID

namespace Gateway

variable {g : Gateway} {e : Env} {ctx : Ctx} {s : Disk} {c : Command} {res : CallResult}
    {versionID : String}
  {ids : Set String} {bucket uploadID : String}

/-- A command without such names. -/
theorem issued_plain (named : c.bucket = bucket) (plain : c.op ∉ namingOps) :
    c.Issued ids bucket uploadID := by
  simp only [namingOps, List.mem_cons, List.not_mem_nil, or_false, not_or] at plain
  refine ⟨named, ?_, ?_, ?_⟩
  · simp [plain]
  · simp [Command.versions, plain]
  · simp [plain]

theorem issued_config {op : Op} {key version config : String} (plain : op ∉ namingOps) :
    (g.submitConfig ctx op bucket key version config).Issued ids bucket uploadID :=
  issued_plain stamped_bucket (by rwa [submitConfig, stamped_op])

theorem issued_putObject {token : String} {inp : PutObjectInput} {body : Bytes}
    (built : g.putObject e ctx s token versionID inp body = .ok (c, res)) (minted : token ∈ ids)
    (minted' : versionID ∈ ids) : c.Issued ids inp.bucket uploadID := by
  obtain ⟨-, -, -, op, bucket, -, version, blob⟩ := putObject_ok built
  exact ⟨bucket, fun _ => blob ▸ minted, fun _ => .inl (version ▸ minted'), by simp [op]⟩

theorem issued_copyObject {token : String} {inp : CopyObjectInput}
    (built : g.copyObject e ctx s token versionID inp = .ok (c, res)) (minted : versionID ∈ ids) :
    c.Issued ids inp.dstBucket uploadID := by
  obtain ⟨-, -, -, op, bucket, -, version⟩ := copyObject_ok built
  exact ⟨bucket, by simp [op], fun _ => .inl (version ▸ minted), by simp [op]⟩

theorem issued_deleteObject {newID key : String}
    (built : g.deleteObject e ctx s newID bucket key versionID = .ok (c, res))
    (minted : newID ∈ ids) : c.Issued ids bucket uploadID := by
  obtain ⟨enabled, -, op, bucket, -, version⟩ := deleteObject_ok built
  refine ⟨bucket, by simp [op], fun records => ?_, by simp [op]⟩
  split at version
  · simp [Command.versions, op, version.1] at records
  · rw [version.2.2.2]
    cases enabled with
    | true => exact .inl minted
    | false => exact .inr rfl

theorem issued_completeMultipartUpload {token key : String} {parts : List CompletedPart}
    (built : g.completeMultipartUpload e ctx s token versionID bucket key uploadID parts =
      .ok (c, res)) (minted : token ∈ ids) (minted' : versionID ∈ ids) :
    c.Issued ids bucket uploadID := by
  obtain ⟨-, -, -, op, bucket, -, version, blob, upload⟩ := completeMultipartUpload_ok built
  exact ⟨bucket, fun _ => blob ▸ minted, fun _ => .inl (version ▸ minted'), fun _ => .inr upload⟩

end Gateway

/-! ### Effects of a program -/

/-- What an effect makes of the backend. -/
def Effect.act (e : Env) : Effect → Backend → Backend
  | .submit c, b => final (Backend.apply e c) b
  | .stageBlob token payload, b => { b with disk := final (e.handleBlobPut token payload) b.disk }
  | .stagePart id part payload, b =>
    { b with disk := final (e.handlePartPut id part payload) b.disk }
  | .expose .., b => b

namespace Api

variable {α β : Type} {e : Env} {P Q : Effect → Prop} {x : Api α} {f k : α → Api β} {s : Session}
    {a : α} {err : Err}

/-- Every effect of the program is one of `P`, and the backend changes by them alone. -/
def Adds (e : Env) (P : Effect → Prop) (x : Api α) : Prop :=
  ∀ s, ∃ new, (final x s).effects = s.effects ++ new ∧
    (final x s).backend = new.foldl (fun b f => f.act e b) s.backend ∧ ∀ f ∈ new, P f

/-- The program changes nothing and leaves no trace. -/
def Reads (x : Api α) : Prop := ∀ s, final x s = s

theorem Adds.mono (adds : Adds e P x) (h : ∀ f, P f → Q f) : Adds e Q x := fun s => by
  obtain ⟨new, effects, backend, all⟩ := adds s
  exact ⟨new, effects, backend, fun f mem => h f (all f mem)⟩

theorem Reads.adds (reads : Reads x) : Adds e P x := fun s =>
  ⟨[], by simp [reads s], by simp [reads s], by simp⟩

theorem reads_pure (a : α) : Reads (pure a : Api α) := fun _ => rfl

theorem reads_throw (err : Err) : Reads (throw err : Api α) := fun _ => rfl

theorem reads_reading (f : Session → Except Err α) : Reads (reading f) := fun s => by
  cases found : f s <;> simp [final, reading, found]

theorem final_ask_bind {f : Disk → Except Err α} (found : f s.backend.disk = .ok a) :
    final (ask f >>= k) s = final (k a) s := by
  simp [final, ask, bind_apply, reading, found]

theorem final_ask_error {f : Disk → Except Err α} (found : f s.backend.disk = .error err) :
    final (ask f >>= k) s = s := by
  simp [final, ask, bind_apply, reading, found]

theorem reads_ask (f : Disk → Except Err α) : Reads (ask f) := reads_reading _

theorem adds_pure (a : α) : Adds e P (pure a : Api α) := (reads_pure a).adds

theorem adds_throw (err : Err) : Adds e P (throw err : Api α) := (reads_throw err).adds

theorem adds_reading (f : Session → Except Err α) : Adds e P (reading f) := (reads_reading f).adds

theorem adds_ask (f : Disk → Except Err α) : Adds e P (ask f) := (reads_ask f).adds

theorem final_attempt (x : Api α) (s : Session) :
    final (attempt x : Api (Except Err α)) s = final x s := by
  cases run : x s <;> simp [final, attempt, run]

theorem adds_attempt (adds : Adds e P x) : Adds e P (attempt x : Api (Except Err α)) := fun s => by
  rw [final_attempt]
  exact adds s

theorem final_bind_of_ok {t : Session} (run : x s = .ok a t) :
    final (x >>= f) s = final (f a) t := by
  unfold final
  rw [bind_apply, run]

/-- A failed check ends the program, with nothing done. -/
theorem bind_denied {t : Session} (denied : x s = .error err t) : final (x >>= f) s = t := by
  unfold final
  rw [bind_apply, denied]

/-- The second program runs only with values the first one returns. -/
theorem adds_bind_of (first : Adds e P x) (second : ∀ s a t, x s = .ok a t → Adds e P (f a)) :
    Adds e P (x >>= f) := fun s => by
  obtain ⟨new, effects, backend, all⟩ := first s
  cases run : x s with
  | error err t =>
    rw [final_of_error run] at effects backend
    rw [bind_denied run]
    exact ⟨new, effects, backend, all⟩
  | ok a t =>
    rw [final_of_ok run] at effects backend
    obtain ⟨more, effects', backend', all'⟩ := second s a t run t
    refine ⟨new ++ more, ?_, ?_, fun g mem => ?_⟩
    · rw [final_bind_of_ok run, effects', effects, List.append_assoc]
    · rw [final_bind_of_ok run, backend', backend, List.foldl_append]
    · exact (List.mem_append.mp mem).elim (all g) (all' g)

theorem adds_bind (first : Adds e P x) (second : ∀ a, Adds e P (f a)) : Adds e P (x >>= f) :=
  adds_bind_of first fun _ a _ _ => second a

theorem ask_ok {f : Disk → Except Err α} {t : Session} :
    ask f s = .ok a t ↔ f s.backend.disk = .ok a ∧ s = t := by
  unfold ask
  cases found : f s.backend.disk <;> simp [reading, found]

/-- A command built from what a read returns. -/
theorem adds_ask_bind {f : Disk → Except Err α} (each : ∀ s a, f s = .ok a → Adds e P (k a)) :
    Adds e P (ask f >>= k) :=
  adds_bind_of (adds_ask f) fun _ _ _ run => each _ _ (ask_ok.mp run).1

theorem reads_attempt (reads : Reads x) : Reads (attempt x : Api (Except Err α)) :=
  fun s => (final_attempt x s).trans (reads s)

theorem reads_bind (first : Reads x) (second : ∀ a, Reads (f a)) : Reads (x >>= f) := fun s => by
  have same := first s
  cases run : x s with
  | error err t =>
    rw [final_of_error run] at same
    rw [bind_denied run, same]
  | ok a t =>
    rw [final_of_ok run] at same
    subst same
    rw [final_bind_of_ok run, second a]

/-- An effect is recorded and takes place. -/
theorem adds_emit_then {f : Effect} (h : P f)
    (acts : ∀ s, (final x s).effects = s.effects ∧ (final x s).backend = f.act e s.backend) :
    Adds e P (do emit f; x) := fun s => by
  have run : emit f s = .ok () { s with effects := s.effects ++ [f] } := rfl
  obtain ⟨effects, backend⟩ := acts { s with effects := s.effects ++ [f] }
  rw [final_bind_of_ok run]
  exact ⟨[f], effects, backend, by simpa using h⟩

theorem final_onBackend (x : EStateM Err Backend α) (s : Session) :
    final (onBackend x) s = { s with backend := final x s.backend } := by
  cases run : x s.backend <;> simp [final, onBackend, run]

end Api

/-! ### Handlers -/

namespace Server

open Api

variable {sv : Server} {rc : ReqCtx} {P : Effect → Prop} {c : Command} {α : Type} {s : Session}
    {n : Nat} {h : Handler} {uploadID : String} {out : Prop}

/-- The effects of a request on a bucket; bytes may go out only where `out` says so. -/
def Makes (sv : Server) (bucket uploadID : String) (out : Prop) : Effect → Prop
  | .submit c => c.Issued (Set.range sv.newID) bucket uploadID
  | .stageBlob token _ => token ∈ Set.range sv.newID
  | .stagePart id _ _ => id = uploadID
  | .expose .. => out

theorem adds_submit (h : P (.submit c)) : Adds sv.e P (sv.submit c) :=
  adds_emit_then h fun s => by
    rw [final_onBackend]
    exact ⟨rfl, rfl⟩

theorem adds_fanOut {name : String} {f : Effect} {stream : M Unit} (h : P f)
    (acts : ∀ b, f.act sv.e b = { b with disk := final stream b.disk }) :
    Adds sv.e P (fanOut name f stream) := by
  unfold fanOut
  split
  · refine adds_emit_then h fun s => ?_
    rw [final_onBackend, acts]
    refine ⟨rfl, ?_⟩
    cases run : stream s.backend.disk <;> simp [final, Backend.onDisk, run]
  · exact adds_throw _

theorem adds_expose {bucket key : String} {v : ObjectMeta} (h : P (.expose bucket key v)) :
    Adds sv.e P (emit (.expose bucket key v)) := fun s => ⟨[_], rfl, rfl, by simpa using h⟩

/-- Minted identifiers are the gateway's. -/
theorem adds_mint_bind {k : String → Api α} (each : ∀ id ∈ Set.range sv.newID, Adds sv.e P (k id)) :
    Adds sv.e P (sv.mint >>= k) := by
  refine adds_bind_of (fun s => ⟨[], (List.append_nil _).symm, rfl, by simp⟩) fun s id t run => ?_
  cases run
  exact each _ ⟨_, rfl⟩

theorem reads_content (body : RequestBody) : Reads (content body) := by
  unfold content
  split
  · exact reads_pure _
  · exact reads_throw _

theorem reads_readBody : Reads (readBody rc) := by
  unfold readBody
  split
  · exact reads_pure _
  · exact reads_content _

/-- The body of a request, as `readBody` gets it. -/
def bodyRead (rc : ReqCtx) : Option Bytes :=
  if maxConfigBody ≤ rc.r.body.bytes.length then some (rc.r.body.bytes.take maxConfigBody)
  else if rc.r.body.failure = none then some rc.r.body.bytes
  else none

theorem decoded_ok {parse : Bytes → Option α} {t : Session} {a : α} :
    decoded rc parse s = .ok a t ↔ (bodyRead rc).bind parse = some a ∧ s = t := by
  have read : readBody rc s = (bodyRead rc).elim (.error (rc.r.body.failure.getD accessDenied) s)
      (.ok · s) := by
    unfold readBody bodyRead content
    split
    · rfl
    · cases rc.r.body.failure <;> rfl
  unfold decoded
  rw [bind_apply, read]
  cases bodyRead rc with
  | none => simp
  | some body =>
    simp only [Option.elim_some, Option.bind_some]
    cases parse body <;> simp [pure, EStateM.pure, throw, throwThe, MonadExceptOf.throw, EStateM.throw]

theorem reads_decoded {parse : Bytes → Option α} : Reads (decoded rc parse) := by
  refine reads_bind reads_readBody fun body => ?_
  split
  · exact reads_pure _
  · exact reads_throw _

theorem authorize_ok {action : Action} (allowed : sv.allows rc action n s.backend.disk = true) :
    sv.authorize rc action n s = .ok () s := by
  simp [authorize, ask, bind_apply, reading, allowed, pure, EStateM.pure]

/-- The check that does not pass leaves everything as it is. -/
theorem authorize_denied {action : Action} (denied : sv.allows rc action n s.backend.disk = false) :
    sv.authorize rc action n s = .error accessDenied s := by
  simp [authorize, ask, bind_apply, reading, denied, throw, throwThe, MonadExceptOf.throw,
    EStateM.throw]

theorem reads_authorize {action : Action} : Reads (sv.authorize rc action n) := by
  refine reads_bind (reads_ask _) fun allowed => ?_
  split
  · exact reads_pure _
  · exact reads_throw _

theorem reads_resolveACLFromRequest : Reads (sv.resolveACLFromRequest rc) := by
  unfold resolveACLFromRequest resolveACL
  split
  · exact reads_pure _
  · refine reads_bind reads_readBody fun body => ?_
    split
    · exact reads_pure _
    · split
      · exact reads_pure _
      · exact reads_throw _

/-! ### Calls of the gateway

They submit commands on the bucket they are given. -/

section Calls

variable {ctx : Ctx} {bucket key uploadID versionID : String} {out : Prop} {inp : PutObjectInput}
    {body : RequestBody} {partNumber : Int}

theorem adds_gwPutObject :
    Adds sv.e (sv.Makes inp.bucket uploadID out) (sv.gwPutObject ctx inp body) := by
  refine adds_bind (adds_ask _) fun _ => ?_
  refine adds_mint_bind fun token minted => ?_
  refine adds_bind (reads_content _).adds fun bytes => ?_
  refine adds_mint_bind fun versionID minted' => ?_
  refine adds_ask_bind fun s built ok => ?_
  refine adds_bind (adds_fanOut minted fun _ => rfl) fun _ => ?_
  exact adds_bind (adds_submit (Gateway.issued_putObject ok minted minted')) fun _ => adds_pure _

theorem adds_gwDeleteObject :
    Adds sv.e (sv.Makes bucket uploadID out) (sv.gwDeleteObject ctx bucket key versionID) := by
  refine adds_mint_bind fun newID minted => ?_
  refine adds_ask_bind fun s built ok => ?_
  exact adds_bind (adds_submit (Gateway.issued_deleteObject ok minted)) fun _ => adds_pure _

theorem adds_gwCopyObject {inp : CopyObjectInput} :
    Adds sv.e (sv.Makes inp.dstBucket uploadID True) (sv.gwCopyObject ctx inp) := by
  refine adds_mint_bind fun versionID minted => ?_
  refine adds_mint_bind fun token _ => ?_
  refine adds_ask_bind fun s built ok => ?_
  refine adds_bind (adds_ask _) fun src => ?_
  refine adds_bind (adds_ask _) fun lands => ?_
  have submits : Adds sv.e (sv.Makes inp.dstBucket uploadID True)
      (sv.submit built.1 >>= fun _ => pure built.2) :=
    adds_bind (adds_submit (Gateway.issued_copyObject ok minted)) fun _ => adds_pure _
  split
  · exact adds_bind (adds_expose trivial) fun _ => submits
  · exact submits

theorem adds_gwCreateMultipartUpload :
    Adds sv.e (sv.Makes inp.bucket uploadID out) (sv.gwCreateMultipartUpload ctx inp) := by
  refine adds_mint_bind fun id minted => ?_
  refine adds_bind (adds_submit ?_) fun _ => adds_pure _
  refine ⟨Gateway.stamped_bucket, ?_, ?_, fun _ => .inl (by simpa [Gateway.createMultipartUpload])⟩
  · simp [Gateway.createMultipartUpload]
  · simp [Command.versions, Gateway.createMultipartUpload]

theorem adds_gwUploadPart :
    Adds sv.e (sv.Makes bucket uploadID out)
      (sv.gwUploadPart ctx bucket key uploadID partNumber body) := by
  refine adds_bind (reads_content _).adds fun bytes => ?_
  refine adds_bind (adds_fanOut rfl fun _ => rfl) fun _ => ?_
  refine adds_bind (adds_submit ?_) fun _ => adds_pure _
  refine ⟨Gateway.stamped_bucket, ?_, ?_, fun _ => .inr Gateway.stamped_uploadID⟩
  · simp [Gateway.uploadPart]
  · simp [Command.versions, Gateway.uploadPart]

theorem adds_gwUploadPartCopy {src : CopyObjectInput} {range : Option ByteRange} :
    Adds sv.e (sv.Makes bucket uploadID True)
      (sv.gwUploadPartCopy ctx bucket key uploadID partNumber src range) := by
  refine adds_bind (adds_ask _) fun res => adds_bind (adds_ask _) fun lands => ?_
  split
  · exact adds_bind (adds_expose trivial) fun _ => adds_gwUploadPart
  · exact adds_gwUploadPart

theorem adds_gwCompleteMultipartUpload {parts : List CompletedPart} :
    Adds sv.e (sv.Makes bucket uploadID out)
      (sv.gwCompleteMultipartUpload ctx bucket key uploadID parts) := by
  refine adds_mint_bind fun versionID minted => ?_
  refine adds_mint_bind fun token minted' => ?_
  refine adds_ask_bind fun s built ok => ?_
  refine adds_bind (adds_submit ?_) fun _ => adds_pure _
  exact Gateway.issued_completeMultipartUpload ok minted' minted

theorem issued_abort :
    (sv.g.abortMultipartUpload ctx bucket key uploadID).Issued (Set.range sv.newID) bucket
      uploadID := by
  refine ⟨Gateway.stamped_bucket, ?_, ?_, fun _ => .inr Gateway.stamped_uploadID⟩
  · simp [Gateway.abortMultipartUpload]
  · simp [Command.versions, Gateway.abortMultipartUpload]

end Calls

/-! ### All handlers -/

/-- The action that a handler asks `authorize` for before anything else. -/
def action : Handler → Option Action
  | .createBucket => some .createBucket
  | .deleteBucket => some .deleteBucket
  | .headBucket | .listObjects | .listObjectVersions | .listMultipartUploads | .listParts =>
    some .listBucket
  | .getBucketACL => some .getBucketAcl
  | .putBucketACL | .putBucketCORS => some .putBucketAcl
  | .getBucketPolicy => some .getBucketPol
  | .putBucketPolicy | .deleteBucketPolicy => some .bucketPolicy
  | .getObject | .headObject | .getObjectAttributes | .selectObject => some .getObject
  | .putObject | .copyObject | .putObjectRetention | .putObjectLegalHold
  | .createMultipartUpload | .uploadPart | .completeMultipartUpload | .abortMultipartUpload =>
    some .putObject
  | .deleteObject => some .deleteObject
  | .getObjectACL => some .getAcl
  | .putObjectACL => some .putAcl
  | .getObjectTagging => some .getTagging
  | .putObjectTagging | .deleteObjectTagging => some .putTagging
  | _ => none

theorem handle_authorized (sv : Server) (rc : ReqCtx) {a : Action} (asks : action h = some a) :
    ∃ k, sv.handle rc h = sv.authorize rc a >>= k := by
  cases h <;> cases asks <;> exact ⟨_, rfl⟩

/-- Handlers that change nothing and hand out no bytes of objects. -/
def onlyReads : List Handler :=
  [.listBuckets, .getBucketACL, .getBucketPolicy, .getBucketCORS, .getBucketTagging,
   .getBucketVersioning, .getBucketLocation, .getObjectLockConfig, .getOwnership,
   .listMultipartUploads, .listObjectVersions, .listObjects, .headBucket, .getObjectACL,
   .getObjectTagging, .getObjectRetention, .getObjectLegalHold, .getObjectAttributes, .listParts,
   .headObject, .methodNotAllowed]

theorem reads_answer {f : Disk → Except Err α} {k : α → Reply} :
    Reads (ask f >>= fun a => pure (k a)) :=
  reads_bind (reads_ask f) fun _ => reads_pure _

theorem reads_authorized {action : Action} {k : Unit → Api Reply} (h : ∀ a, Reads (k a)) :
    Reads (sv.authorize rc action >>= k) :=
  reads_bind reads_authorize h

/-- A check on what was read, and the answer. -/
theorem reads_unless {f : Disk → Except Err α} {P : α → Prop} [∀ a, Decidable (P a)] {err : Err}
    {answer : α → Reply} :
    Reads (ask f >>= fun a => if P a then throw err >>= fun _ : PUnit => pure (answer a)
      else pure (answer a) : Api Reply) := by
  refine reads_bind (reads_ask _) fun a => ?_
  split
  · exact reads_bind (reads_throw _) fun _ => reads_pure _
  · exact reads_pure _

theorem reads_handleListBuckets : Reads (sv.handleListBuckets rc) := by
  unfold handleListBuckets
  dsimp only
  split
  · exact reads_bind (reads_throw _) fun _ => reads_answer
  · exact reads_answer

theorem reads_handle (reads : h ∈ onlyReads) : Reads (sv.handle rc h) := by
  cases h
  case listBuckets => exact reads_handleListBuckets
  case getBucketACL | listMultipartUploads | listObjectVersions | listObjects | headBucket |
      getObjectTagging | getObjectAttributes | listParts =>
    exact reads_authorized fun _ => reads_answer
  case getBucketPolicy => exact reads_authorized fun _ => reads_unless
  case getBucketCORS | getBucketTagging => exact reads_unless
  case getBucketVersioning | getBucketLocation | getOwnership | getObjectLegalHold =>
    exact reads_answer
  case getObjectLockConfig =>
    refine reads_bind (reads_ask _) fun bm => ?_
    split
    · split
      · exact reads_pure _
      · exact reads_throw _
    · exact reads_throw _
  case getObjectRetention =>
    refine reads_bind (reads_ask _) fun oi => ?_
    split
    · exact reads_pure _
    · exact reads_throw _
  case getObjectACL =>
    refine reads_authorized fun _ => reads_bind (reads_ask _) fun oi => ?_
    exact reads_bind (reads_attempt (reads_ask _)) fun bm => reads_pure _
  case headObject =>
    refine reads_authorized fun _ => reads_bind (reads_ask _) fun oi => ?_
    split
    · exact reads_pure _
    · exact reads_pure _
  case methodNotAllowed => exact reads_throw _
  all_goals simp [onlyReads] at reads

theorem adds_authorized {action : Action} {k : Unit → Api α} (h : ∀ a, Adds sv.e P (k a)) :
    Adds sv.e P (sv.authorize rc action >>= k) :=
  adds_bind reads_authorize.adds h

/-- A submission that ends its handler. -/
theorem adds_submit_done (h : P (.submit c)) :
    Adds sv.e P (sv.submit c >>= fun _ => pure Reply.done) :=
  adds_bind (adds_submit h) fun _ => adds_pure _

/-- A change of a setting, with what is read of the request. -/
theorem adds_config {x : Api α} {op : Op} {key version : String} {config : α → String}
    (reads : Reads x) (plain : op ∉ namingOps) :
    Adds sv.e (sv.Makes rc.bucket uploadID out) (x >>= fun a =>
      sv.submit (sv.g.submitConfig rc.gctx op rc.bucket key version (config a)) >>=
        fun _ => pure Reply.done) :=
  adds_bind reads.adds fun _ => adds_submit_done (Gateway.issued_config plain)

theorem adds_deleteEach (n : Nat) (objects : List (String × String)) :
    Adds sv.e (sv.Makes rc.bucket uploadID out) (sv.deleteEach rc n objects) := by
  induction objects generalizing n with
  | nil => exact adds_pure _
  | cons o rest ih =>
    refine adds_bind ?_ fun first => adds_bind (ih (n + 1)) fun others => adds_pure _
    refine adds_bind (adds_attempt reads_authorize.adds) fun allowed => ?_
    split
    · exact adds_pure _
    · exact adds_bind (adds_attempt adds_gwDeleteObject) fun res => adds_pure _

/-- Handlers that hand out bytes of objects. -/
def exposing : List Handler := [.getObject, .selectObject, .copyObject, .uploadPart]

/-- The handlers of buckets and objects issue commands on the bucket of the request. -/
theorem adds_handle (user : h ≠ .admin) (exposes : h ∈ exposing → out) :
    Adds sv.e (sv.Makes rc.bucket (rc.q "uploadId") out) (sv.handle rc h) := by
  by_cases reads : h ∈ onlyReads
  · exact (reads_handle reads).adds
  have out_of (mem : h ∈ exposing) : (True : Prop) = out := (eq_true (exposes mem)).symm
  cases h
  case admin => exact absurd rfl user
  case createBucket =>
    refine adds_authorized fun _ => adds_submit_done (Gateway.issued_plain Gateway.stamped_bucket ?_)
    simp [Gateway.createBucket, namingOps]
  case deleteBucket =>
    refine adds_authorized fun _ => adds_submit_done (Gateway.issued_plain Gateway.stamped_bucket ?_)
    simp [Gateway.deleteBucket, namingOps]
  case putBucketACL | putObjectACL =>
    exact adds_authorized fun _ => adds_config reads_resolveACLFromRequest (by decide)
  case putBucketPolicy => exact adds_authorized fun _ => adds_config reads_readBody (by decide)
  case putBucketCORS | putObjectTagging | putObjectRetention | putObjectLegalHold =>
    exact adds_authorized fun _ => adds_config reads_decoded (by decide)
  case putBucketTagging | putBucketVersioning | putObjectLockConfig | putOwnership =>
    exact adds_config reads_decoded (by decide)
  case deleteBucketPolicy | deleteObjectTagging =>
    exact adds_authorized fun _ => adds_submit_done (Gateway.issued_config (by decide))
  case deleteBucketCORS | deleteBucketTagging | deleteOwnership =>
    exact adds_submit_done (Gateway.issued_config (by decide))
  case deleteObjects =>
    refine adds_bind reads_decoded.adds fun req => ?_
    exact adds_bind (adds_deleteEach 0 req.objects) fun _ => adds_pure _
  case deleteObject =>
    exact adds_authorized fun _ => adds_bind adds_gwDeleteObject fun _ => adds_pure _
  case putObject => exact adds_authorized fun _ => adds_bind adds_gwPutObject fun _ => adds_pure _
  case createMultipartUpload =>
    exact adds_authorized fun _ => adds_bind adds_gwCreateMultipartUpload fun _ => adds_pure _
  case completeMultipartUpload =>
    refine adds_authorized fun _ => adds_bind reads_decoded.adds fun parts => ?_
    exact adds_bind adds_gwCompleteMultipartUpload fun _ => adds_pure _
  case abortMultipartUpload => exact adds_authorized fun _ => adds_submit_done issued_abort
  case getObject =>
    refine adds_authorized fun _ => adds_bind (adds_ask _) fun res => ?_
    split
    · exact adds_pure _
    · exact adds_bind (adds_expose (exposes (by decide))) fun _ => adds_pure _
  case selectObject =>
    refine adds_authorized fun _ => adds_bind reads_decoded.adds fun query => ?_
    refine adds_bind (adds_ask _) fun res => adds_bind (adds_ask _) fun out => ?_
    exact adds_bind (adds_expose (exposes (by decide))) fun _ => adds_pure _
  case copyObject =>
    rw [← out_of (by decide)]
    refine adds_authorized fun _ => ?_
    split
    · exact adds_throw _
    · exact adds_bind adds_gwCopyObject fun _ => adds_pure _
  case uploadPart =>
    rw [← out_of (by decide)]
    refine adds_authorized fun _ => ?_
    split
    · exact adds_throw _
    · split
      · exact adds_throw _
      · split
        · exact adds_bind adds_gwUploadPart fun _ => adds_pure _
        · split
          · exact adds_throw _
          · exact adds_bind adds_gwUploadPartCopy fun _ => adds_pure _
  all_goals exact absurd (by decide) reads

/-! ### Callers -/

section Callers

variable {b : Backend} {r : HTTPRequest} {who : Caller}

/-- The path of an accepted request is split into its bucket and key. -/
theorem authenticate_ok (ok : sv.authenticate b r = .ok rc) :
    rc.r = r ∧ rc.bucket = (splitPath r.path).1 ∧ rc.key = (splitPath r.path).2 ∧
      rc.gctx.sourceIP = sv.clientIP r ∧ rc.lookups = [] := by
  obtain ⟨id, -, ok⟩ := except_bind_ok ok
  cases ok
  exact ⟨rfl, rfl, rfl, rfl, rfl⟩

theorem isAuth_of_consoleAuth (auth : sv.consoleAuth b r = some who) : who.isAuth = true := by
  unfold consoleAuth at auth
  obtain ⟨⟨ak, sk⟩, -, auth⟩ := Option.bind_eq_some_iff.mp auth
  obtain ⟨a, -, auth⟩ := Option.bind_eq_some_iff.mp auth
  split at auth
  · cases auth
    rfl
  · cases auth

theorem reads_ifOwns {named : String} {lookup : Option (Except Err BucketMeta)} :
    Reads (sv.ifOwns who named lookup) := by
  refine reads_bind (reads_ask _) fun mine => ?_
  split
  · exact reads_pure _
  · exact reads_throw _

theorem reads_handleCORSPreflight : Reads (sv.handleCORSPreflight r) := by
  unfold handleCORSPreflight
  dsimp only
  split
  · exact reads_pure _
  · refine reads_bind (reads_attempt (reads_ask _)) fun found => ?_
    split
    · exact reads_pure _
    · split
      · exact reads_pure _
      · exact reads_pure _

end Callers

end Server

end D9Store
