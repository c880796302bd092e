import D9Store.S3Api.Effects
import D9Store.Runs

/-!
Whose bytes a request hands out.

A plain read is authorised by the access control list of the key's latest version, whichever
version it asks for. A copy is authorised on its destination only.
-/

namespace D9Store

open Posix Api

/-- The caller may read a version with this access control list: as admin, as the bucket's owner,
by its policy, or, without a decision of the policy, by the list or else the bucket's. -/
def Authz.mayRead (az : Authz) (who : Caller) (sourceIP bucket key : String) (bm : BucketMeta)
    (acl : Option ACL) : Bool :=
  who.role == "admin" || (who.isAuth && bm.owner == who.account) ||
    match az.decision bm who sourceIP .getObject bucket key with
    | .allow => true
    | .deny => false
    | .none => az.checkACL (acl.or bm.acl) who "READ"

namespace Server

variable {sv : Server} {b : Backend} {r : HTTPRequest} {rc : ReqCtx} {s : Session}
    {bucket key : String} {disk : Disk} {α : Type} {v : ObjectMeta} {e : Env}

/-- The caller may read the version. -/
def mayReadAs (sv : Server) (disk : Disk) (rc : ReqCtx) (bucket key : String) (v : ObjectMeta) :
    Bool :=
  match sv.e.getBucketMeta disk bucket with
  | .ok bm => sv.toAuthz.mayRead rc.who rc.gctx.sourceIP bucket key bm v.acl
  | .error _ => false

/-- The condition on a request, by its handler. A read passes the check by the latest version and is
served the version it names; a copy is not checked on its source, and has the bytes as soon as they
are in the object or in the part. -/
def Covered (sv : Server) (disk : Disk) (rc : ReqCtx) : Handler → Prop
  | .getObject => ∀ res, sv.allows rc .getObject 0 disk = true →
    sv.e.getObject disk rc.bucket rc.key
      { versionID := rc.q "versionId", range := sv.parseRangeHeader (rc.header "Range") } = .ok res →
    sv.evalConditional rc.r.headers res.info.etag res.info.lastModified = none →
    sv.mayReadAs disk rc rc.bucket rc.key res.info = true
  | .selectObject => ∀ query res out, sv.allows rc .getObject 0 disk = true →
    (bodyRead rc).bind sv.parseSelect = some query →
    sv.e.getObject disk rc.bucket rc.key { versionID := rc.q "versionId" } = .ok res →
    query res.body = .ok out →
    sv.mayReadAs disk rc rc.bucket rc.key res.info = true
  | .copyObject => ∀ src key version versioned v, sv.allows rc .putObject 0 disk = true →
    sv.parseCopySource (rc.header "X-Amz-Copy-Source") = some (src, key, version) →
    Gateway.bucketVersioning sv.e disk rc.bucket = .ok versioned →
    sv.e.headObject disk src key version = .ok v →
    sv.e.copyLands disk ⟨src, key, version⟩ rc.bucket rc.key = true →
    sv.mayReadAs disk rc src key v = true
  | .uploadPart => ∀ number src key version res, sv.allows rc .putObject 0 disk = true →
    sv.atoi (rc.q "partNumber") = some number → 1 ≤ number →
    rc.header "X-Amz-Copy-Source" ≠ "" →
    sv.parseCopySource (rc.header "X-Amz-Copy-Source") = some (src, key, version) →
    sv.e.getObject disk src key
      { versionID := version
        range := sv.parseRangeHeader (rc.header "X-Amz-Copy-Source-Range") } = .ok res →
    sv.e.partLands disk (rc.q "uploadId") number res.body = true →
    sv.mayReadAs disk rc src key res.info = true
  | _ => True

/-- Bytes go only to a caller that may read them. -/
def Allowed (sv : Server) (disk : Disk) (rc : ReqCtx) : Effect → Prop
  | .expose bucket key v => sv.mayReadAs disk rc bucket key v = true
  | _ => True

/-- The trace hands out nothing else. -/
def Discreet (sv : Server) (disk : Disk) (rc : ReqCtx) (t : Session) : Prop :=
  ∀ f ∈ t.effects, sv.Allowed disk rc f

/-! ### What the handlers expose -/

/-- The effect hands out no bytes. -/
def Silent : Effect → Prop
  | .expose .. => False
  | _ => True

theorem silent_of_makes (uploadID : String) (f : Effect) (h : sv.Makes bucket uploadID False f) :
    Silent f := by
  cases f with
  | expose bucket key v => exact h
  | _ => trivial

theorem allowed_of_silent (f : Effect) (h : Silent f) : sv.Allowed disk rc f := by
  cases f with
  | expose bucket key v => exact h.elim
  | _ => trivial

/-- A program that hands out nothing. -/
theorem allowed_after {x : Api α} (adds : Adds sv.e Silent x) :
    sv.Discreet disk rc (final x s) ↔ sv.Discreet disk rc s := by
  obtain ⟨new, effects, -, all⟩ := adds s
  rw [Discreet, effects, List.forall_mem_append]
  exact and_iff_left fun f mem => allowed_of_silent f (all f mem)

/-- The version that is handed out decides. -/
theorem allowed_expose {x : Api α} (fresh : s.effects = []) (adds : Adds sv.e Silent x) :
    sv.Discreet disk rc (final (emit (.expose bucket key v) >>= fun _ => x) s) ↔
      sv.mayReadAs disk rc bucket key v = true := by
  have noted : emit (.expose bucket key v) s =
    .ok () { s with effects := s.effects ++ [.expose bucket key v] } := rfl
  rw [final_bind_of_ok noted, allowed_after adds, Discreet, fresh]
  simp [Allowed]

/-- The answer of a handler hands out nothing. -/
theorem discreet_done {x : Api α} {k : α → Reply} {P : Prop}
    (before : sv.Discreet disk rc (final x s) ↔ P) :
    sv.Discreet disk rc (final (x >>= fun a => pure (k a)) s) ↔ P := by
  have same : final (x >>= fun a => pure (k a)) s = final x s := by
    cases run : x s with
    | ok a t => rw [final_bind_of_ok run, final_of_ok run]; rfl
    | error err t => rw [bind_denied run, final_of_error run]
  rw [same, before]

theorem discreet_of_fresh (fresh : s.effects = []) : sv.Discreet disk rc s := by
  simp [Discreet, fresh]

section Handlers

variable (fresh : s.effects = []) {P : Prop} {ctx : Ctx}
include fresh

/-- Nothing is handed out before the check passes. -/
theorem checked_iff {action : Action} {k : Unit → Api Reply}
    (rest : sv.allows rc action 0 s.backend.disk = true →
      (sv.Discreet s.backend.disk rc (final (k ()) s) ↔ P))
    (vacuous : sv.allows rc action 0 s.backend.disk = false → P) :
    sv.Discreet s.backend.disk rc (final (sv.authorize rc action >>= k) s) ↔ P := by
  cases allowed : sv.allows rc action 0 s.backend.disk with
  | true =>
    rw [final_bind_of_ok (authorize_ok allowed)]
    exact rest allowed
  | false =>
    rw [bind_denied (authorize_denied allowed)]
    exact iff_of_true (discreet_of_fresh fresh) (vacuous allowed)

/-- Nothing is handed out before the read succeeds. -/
theorem asked_iff {α β : Type} {f : Disk → Except Err α} {k : α → Api β}
    (rest : ∀ a, f s.backend.disk = .ok a → (sv.Discreet s.backend.disk rc (final (k a) s) ↔ P))
    (vacuous : (∀ a, f s.backend.disk ≠ .ok a) → P) :
    sv.Discreet s.backend.disk rc (final (ask f >>= k) s) ↔ P := by
  cases found : f s.backend.disk with
  | ok a =>
    rw [final_ask_bind found]
    exact rest a found
  | error err =>
    rw [final_ask_error found]
    exact iff_of_true (discreet_of_fresh fresh) (vacuous (by simp [found]))

/-- Minting an identifier hands out nothing. -/
theorem minted_iff {α : Type} {k : String → Api α} {disk : Disk}
    (rest : ∀ id t, t.backend = s.backend → t.effects = [] →
      (sv.Discreet disk rc (final (k id) t) ↔ P)) :
    sv.Discreet disk rc (final (sv.mint >>= k) s) ↔ P :=
  rest (sv.newID s.minted) { s with minted := s.minted + 1 } rfl fresh

theorem handleGetObject_iff :
    sv.Discreet s.backend.disk rc (final (sv.handleGetObject rc) s) ↔
      sv.Covered s.backend.disk rc .getObject := by
  refine checked_iff fresh (fun allowed => ?_) fun denied res allowed => by simp [denied] at allowed
  refine asked_iff fresh (fun res found => ?_) fun missing => ?_
  on_goal 2 => exact fun res _ found => absurd found (missing res)
  cases plain : sv.evalConditional rc.r.headers res.info.etag res.info.lastModified with
  | some code =>
    refine iff_of_true (discreet_of_fresh fresh) fun res' _ found' out => ?_
    rw [found, Except.ok.injEq] at found'
    rw [← found', plain] at out
    cases out
  | none =>
    rw [allowed_expose fresh (adds_pure _)]
    constructor
    · intro may res' _ found' _
      rw [found, Except.ok.injEq] at found'
      rwa [← found']
    · exact fun covered => covered res allowed found plain

theorem handleSelectObject_iff :
    sv.Discreet s.backend.disk rc (final (sv.handleSelectObject rc) s) ↔
      sv.Covered s.backend.disk rc .selectObject := by
  refine checked_iff fresh (fun allowed => ?_) fun denied _ _ _ allowed => by simp [denied] at allowed
  cases body : (bodyRead rc).bind sv.parseSelect with
  | none =>
    have failed : final (decoded rc sv.parseSelect) s = s := reads_decoded s
    cases run : decoded rc sv.parseSelect s with
    | ok query t => simp [decoded_ok.mp run] at body
    | error err t =>
      rw [final_of_error run] at failed
      rw [bind_denied run, failed]
      exact iff_of_true (discreet_of_fresh fresh) fun query _ _ _ other => by simp [body] at other
  | some query =>
    rw [final_bind_of_ok (decoded_ok.mpr ⟨body, rfl⟩)]
    refine asked_iff fresh (fun res found => ?_) fun missing => ?_
    on_goal 2 => exact fun _ res _ _ _ found => absurd found (missing res)
    refine asked_iff fresh (fun out ran => ?_) fun failed => ?_
    · rw [allowed_expose fresh (adds_pure _)]
      constructor
      · intro may _ res' _ _ _ found' _
        rw [found, Except.ok.injEq] at found'
        rwa [← found']
      · exact fun covered => covered query res out allowed body found ran
    · intro query' res' out _ body' found' ran
      rw [body, Option.some.injEq] at body'
      rw [found, Except.ok.injEq] at found'
      rw [← body', ← found'] at ran
      exact absurd ran (failed out)

theorem gwCopyObject_iff {inp : CopyObjectInput} :
    sv.Discreet s.backend.disk rc (final (sv.gwCopyObject ctx inp) s) ↔
      ∀ versioned v, Gateway.bucketVersioning sv.e s.backend.disk inp.dstBucket = .ok versioned →
        sv.e.headObject s.backend.disk inp.srcBucket inp.srcKey inp.srcVersionID = .ok v →
        sv.e.copyLands s.backend.disk ⟨inp.srcBucket, inp.srcKey, inp.srcVersionID⟩ inp.dstBucket
          inp.dstKey = true →
        sv.mayReadAs s.backend.disk rc inp.srcBucket inp.srcKey v = true := by
  have quiet (built : Command × CallResult) : Adds sv.e Silent
      (sv.submit built.1 >>= fun _ => (pure built.2 : Api CallResult)) :=
    adds_bind (adds_submit trivial) fun _ => adds_pure _
  refine minted_iff fresh fun id₁ s₁ same₁ fresh₁ => minted_iff fresh₁ fun id₂ s₂ same₂ fresh₂ => ?_
  rw [← same₁, ← same₂]
  refine asked_iff fresh₂ (fun built made => ?_) fun refused => ?_
  on_goal 2 =>
    intro enabled v versioned found _
    simp only [Gateway.copyObject, versioned, found, except_ok_bind] at refused
    exact absurd rfl (refused _)
  obtain ⟨enabled, versioned, -⟩ := Gateway.copyObject_ok made
  refine asked_iff fresh₂ (fun v found => ?_) fun missing => ?_
  on_goal 2 => exact fun _ v _ found _ => absurd found (missing v)
  refine asked_iff fresh₂ (fun lands eq => ?_) fun missing => absurd rfl (missing _)
  cases eq
  cases lands : sv.e.copyLands s₂.backend.disk
      ⟨inp.srcBucket, inp.srcKey, inp.srcVersionID⟩ inp.dstBucket inp.dstKey with
  | true =>
    simp only [if_true]
    rw [allowed_expose fresh₂ (quiet built)]
    constructor
    · intro may _ v' _ found' _
      rw [found, Except.ok.injEq] at found'
      rwa [← found']
    · exact fun covered => covered enabled v versioned found trivial
  | false =>
    simp only [Bool.false_eq_true, if_false]
    rw [allowed_after (quiet built)]
    exact iff_of_true (discreet_of_fresh fresh₂) fun _ _ _ _ no => no.elim

theorem handleCopyObject_iff :
    sv.Discreet s.backend.disk rc (final (sv.handleCopyObject rc) s) ↔
      sv.Covered s.backend.disk rc .copyObject := by
  refine checked_iff fresh (fun allowed => ?_) fun denied _ _ _ _ _ allowed => by
    simp [denied] at allowed
  cases source : sv.parseCopySource (rc.header "X-Amz-Copy-Source") with
  | none =>
    exact iff_of_true (discreet_of_fresh fresh) fun _ _ _ _ _ _ other => by simp [source] at other
  | some src =>
    obtain ⟨srcBucket, srcKey, srcVersionID⟩ := src
    rw [discreet_done (gwCopyObject_iff fresh)]
    constructor
    · rintro covered src key version versioned v - source' enabled found lands
      rw [source, Option.some.injEq, Prod.mk.injEq, Prod.mk.injEq] at source'
      obtain ⟨rfl, rfl, rfl⟩ := source'
      exact covered versioned v enabled found lands
    · exact fun covered versioned v enabled found lands =>
        covered _ _ _ versioned v allowed source enabled found lands

theorem gwUploadPartCopy_iff {bucket key uploadID : String} {number : Int} {src : CopyObjectInput}
    {range : Option ByteRange} :
    sv.Discreet s.backend.disk rc
        (final (sv.gwUploadPartCopy ctx bucket key uploadID number src range) s) ↔
      ∀ res, sv.e.getObject s.backend.disk src.srcBucket src.srcKey
          { versionID := src.srcVersionID, range } = .ok res →
        sv.e.partLands s.backend.disk uploadID number res.body = true →
        sv.mayReadAs s.backend.disk rc src.srcBucket src.srcKey res.info = true := by
  have quiet (body : RequestBody) :
      Adds sv.e Silent (sv.gwUploadPart ctx bucket key uploadID number body) :=
    adds_gwUploadPart.mono (silent_of_makes _)
  refine asked_iff fresh (fun res found => ?_) fun missing => ?_
  on_goal 2 => exact fun res found _ => absurd found (missing res)
  refine asked_iff fresh (fun lands eq => ?_) fun missing => absurd rfl (missing _)
  cases eq
  cases lands : sv.e.partLands s.backend.disk uploadID number res.body with
  | true =>
    simp only [if_true]
    rw [allowed_expose fresh (quiet _)]
    constructor
    · intro may res' found' _
      rw [found, Except.ok.injEq] at found'
      rwa [← found']
    · exact fun covered => covered res found lands
  | false =>
    simp only [Bool.false_eq_true, if_false]
    rw [allowed_after (quiet _)]
    refine iff_of_true (discreet_of_fresh fresh) fun res' found' no => ?_
    rw [found, Except.ok.injEq] at found'
    rw [← found', lands] at no
    cases no

theorem handleUploadPart_iff :
    sv.Discreet s.backend.disk rc (final (sv.handleUploadPart rc) s) ↔
      sv.Covered s.backend.disk rc .uploadPart := by
  refine checked_iff fresh (fun allowed => ?_) fun denied _ _ _ _ _ allowed => by
    simp [denied] at allowed
  cases number : sv.atoi (rc.q "partNumber") with
  | none =>
    exact iff_of_true (discreet_of_fresh fresh) fun _ _ _ _ _ _ other => by simp [number] at other
  | some n =>
    dsimp only
    split
    · rename_i low
      refine iff_of_true (discreet_of_fresh fresh) fun n' _ _ _ _ _ same high => ?_
      rw [number, Option.some.injEq] at same
      omega
    rename_i high
    split
    · rename_i plain
      rw [discreet_done (allowed_after (adds_gwUploadPart.mono (silent_of_makes _)))]
      exact iff_of_true (discreet_of_fresh fresh) fun _ _ _ _ _ _ _ _ copies => absurd plain copies
    rename_i copies
    cases source : sv.parseCopySource (rc.header "X-Amz-Copy-Source") with
    | none =>
      exact iff_of_true (discreet_of_fresh fresh) fun _ _ _ _ _ _ _ _ _ other => by
        simp [source] at other
    | some src =>
      obtain ⟨srcBucket, srcKey, srcVersionID⟩ := src
      rw [discreet_done (gwUploadPartCopy_iff fresh)]
      constructor
      · rintro covered n' src key version res - same - - source' found lands
        rw [source, Option.some.injEq, Prod.mk.injEq, Prod.mk.injEq] at source'
        obtain ⟨rfl, rfl, rfl⟩ := source'
        rw [number, Option.some.injEq] at same
        exact covered res found (same ▸ lands)
      · exact fun covered res found lands =>
          covered n _ _ _ res allowed number (not_lt.mp high) copies source found lands

end Handlers

/-! ### All requests -/

theorem silent_handleAdmin : Adds sv.e Silent (sv.handleAdmin rc) := by
  unfold handleAdmin
  split
  · exact adds_throw _
  split
  · split
    · exact adds_throw _
    split
    · exact adds_throw _
    · exact adds_submit_done trivial
  split
  · split
    · exact adds_throw _
    · exact adds_submit_done trivial
  split
  · exact adds_bind (adds_reading _) fun as => adds_pure _
  · exact adds_throw _

theorem covered_of_silent {h : Handler} (silent : h ∉ exposing) : sv.Covered disk rc h := by
  cases h <;> trivial

/-- Requests without a key hand out nothing. -/
theorem silent_of_keyless (keyless : rc.key = "") : dispatch rc ∉ exposing := by
  have chain {c : Prop} [Decidable c] {x y : Handler} (yes : x ∉ exposing) (no : y ∉ exposing) :
      (if c then x else y) ∉ exposing := by
    split
    · exact yes
    · exact no
  rw [dispatch, if_pos keyless]
  refine chain ?_ ?_
  · unfold dispatchService
    cases rc.r.method <;> dsimp only <;>
      repeat first | exact chain (by decide) (by decide) | decide
  · unfold dispatchBucket readBucket
    cases rc.r.method <;> dsimp only <;> repeat first | refine chain (by decide) ?_ | decide

/-- Of the handlers four hand out bytes, under their condition. -/
theorem handle_iff (fresh : s.effects = []) (h : Handler) :
    sv.Discreet s.backend.disk rc (final (sv.handle rc h) s) ↔ sv.Covered s.backend.disk rc h := by
  by_cases exposes : h ∈ exposing
  · simp only [exposing, List.mem_cons, List.not_mem_nil, or_false] at exposes
    rcases exposes with rfl | rfl | rfl | rfl
    · exact handleGetObject_iff fresh
    · exact handleSelectObject_iff fresh
    · exact handleCopyObject_iff fresh
    · exact handleUploadPart_iff fresh
  have quiet : Adds sv.e Silent (sv.handle rc h) := by
    by_cases admin : h = .admin
    · rw [admin]
      exact silent_handleAdmin
    · exact (adds_handle admin fun mem => exposes mem).mono (silent_of_makes _)
  rw [allowed_after quiet]
  exact iff_of_true (discreet_of_fresh fresh) (covered_of_silent exposes)

/-- Bytes of an object go only to a sender that may read it. -/
def Permitted (sv : Server) (b : Backend) (r : HTTPRequest) : Effect → Prop
  | .expose bucket key v =>
    ∃ who bm, sv.sender b r = some who ∧ sv.e.getBucketMeta b.disk bucket = .ok bm ∧
      sv.toAuthz.mayRead who (sv.clientIP r) bucket key bm v.acl = true
  | _ => True

theorem permitted_iff_allowed (accepted : sv.sender b r = some rc.who)
    (address : rc.gctx.sourceIP = sv.clientIP r) (f : Effect) :
    sv.Permitted b r f ↔ sv.Allowed b.disk rc f := by
  cases f with
  | expose bucket key v =>
    simp only [Permitted, Allowed, mayReadAs, accepted, ← address, Option.some.injEq]
    cases sv.e.getBucketMeta b.disk bucket <;> simp
  | _ => exact Iff.rfl

/-- Effects without bytes are permitted. -/
theorem permitted_of_adds {x : Api Reply} (fresh : s.effects = []) (adds : Adds sv.e Silent x) :
    ∀ f ∈ (final x s).effects, sv.Permitted b r f := by
  obtain ⟨new, effects, -, all⟩ := adds s
  rw [effects, fresh, List.nil_append]
  intro f mem
  have silent := all f mem
  cases f with
  | expose bucket key v => exact silent.elim
  | _ => trivial

/-- The version read is the one `HeadObject` finds, in a bucket that exists. -/
theorem getObject_info {opt : GetOptions} {res : GetResult}
    (found : e.getObject disk bucket key opt = .ok res) :
    e.headObject disk bucket key opt.versionID = .ok res.info := by
  obtain ⟨v, live, found⟩ := except_bind_ok found
  obtain ⟨pp, -, found⟩ := except_bind_ok found
  have info : res.info = v := by
    split at found
    · cases found
    · cases found
    · dsimp only at found
      split at found
      · cases found
        rfl
      · split at found
        · cases found
        · cases found
          rfl
  rw [info]
  exact live

theorem bucketMeta_of_head {versionID : String}
    (found : e.headObject disk bucket key versionID = .ok v) :
    ∃ bm, e.getBucketMeta disk bucket = .ok bm := by
  obtain ⟨live, resolved, -⟩ := except_bind_ok found
  obtain ⟨bm, read, -⟩ := except_bind_ok resolved
  exact ⟨bm, read⟩

/-- The console hands out bytes to the bucket's owner and to admins. -/
theorem consoleApi_permitted {who : Caller} (fresh : s.effects = []) (same : s.backend = b)
    (sent : sv.sender b r = some who) (isAuth : who.isAuth = true) :
    ∀ f ∈ (final (sv.consoleApi r who) s).effects, sv.Permitted b r f := by
  unfold consoleApi
  dsimp only
  split
  · exact permitted_of_adds fresh (adds_pure _)
  split
  · exact permitted_of_adds fresh reads_answer.adds
  split
  · exact permitted_of_adds fresh (adds_submit_done trivial)
  split
  · refine permitted_of_adds fresh (adds_bind reads_ifOwns.adds fun _ => ?_)
    exact adds_submit_done trivial
  split
  · refine permitted_of_adds fresh (adds_bind reads_ifOwns.adds fun _ => ?_)
    exact reads_answer.adds
  split
  · cases mine : owns who (sv.e.getBucketMeta s.backend.disk (r.query.get "bucket")) with
    | false =>
      have denied : sv.ifOwns who (r.query.get "bucket") none s = .error accessDenied s := by
        simp [ifOwns, ask, bind_apply, reading, mine, throw, throwThe, MonadExceptOf.throw,
          EStateM.throw]
      rw [bind_denied denied, fresh]
      simp
    | true =>
      have run : sv.ifOwns who (r.query.get "bucket") none s = .ok () s := by
        simp [ifOwns, ask, bind_apply, reading, mine, pure, EStateM.pure]
      rw [final_bind_of_ok run]
      cases found : sv.e.getObject s.backend.disk (r.query.get "bucket") (r.query.get "key") {} with
      | error err =>
        rw [final_ask_error found, fresh]
        simp
      | ok res =>
        obtain ⟨bm, here⟩ := bucketMeta_of_head (getObject_info found)
        rw [here] at mine
        rw [same] at here
        rw [final_ask_bind found]
        refine (?_ : ∀ f ∈ s.effects ++ [_], sv.Permitted b r f)
        rw [fresh]
        simp only [List.nil_append, List.mem_singleton, forall_eq]
        refine ⟨who, bm, sent, here, ?_⟩
        simp only [owns, Bool.or_eq_true, beq_iff_eq] at mine
        rcases mine with admin | owner
        · simp [Authz.mayRead, admin]
        · simp [Authz.mayRead, isAuth, owner]
  split
  · refine permitted_of_adds fresh (adds_bind reads_ifOwns.adds fun _ => ?_)
    exact adds_bind (adds_gwPutObject.mono (silent_of_makes "")) fun res => adds_pure _
  split
  · refine permitted_of_adds fresh (adds_bind reads_ifOwns.adds fun _ => ?_)
    exact adds_bind (adds_gwDeleteObject.mono (silent_of_makes "")) fun res => adds_pure _
  split
  · split
    · refine permitted_of_adds fresh ?_
      unfold consoleAccounts
      split
      · exact adds_bind (adds_reading _) fun as => adds_pure _
      · dsimp only
        split
        · exact adds_pure _
        · exact adds_submit_done trivial
      · exact adds_submit_done trivial
      · exact adds_pure _
    · exact permitted_of_adds fresh (adds_throw _)
  · exact permitted_of_adds fresh (adds_pure _)

theorem console_permitted (fresh : s.effects = []) (same : s.backend = b)
    (console : isConsole r = true) :
    ∀ f ∈ (final (sv.console r) s).effects, sv.Permitted b r f := by
  unfold Server.console
  split
  · have asked : (reading fun s => .ok (sv.consoleAuth s.backend r) : Api (Option Caller)) s =
        .ok (sv.consoleAuth b r) s := same ▸ reading_run rfl
    rw [final_bind_of_ok asked]
    cases auth : sv.consoleAuth b r with
    | none => exact permitted_of_adds fresh (adds_pure _)
    | some who =>
      have sent : sv.sender b r = some who := by rw [sender, if_pos console, auth]
      exact consoleApi_permitted fresh same sent (isAuth_of_consoleAuth auth)
  · exact permitted_of_adds fresh (adds_pure _)

end Server

/-! ### A copy of somebody else's object -/

/-- A private object of `alice`, and a bucket of `mallory`. -/
def twoBuckets : Backend where
  disk := (smallEnv false).feed
    [.command { Small.create with issuedBy := "alice" }, Small.payload 1,
      .command (Small.put "k" 1),
      .command { Small.create with bucket := "m", issuedBy := "mallory" }] (smallDisk false)
  accounts := [("mallory", { accessKeyID := "mallory", secretKey := "", role := "user" })]

/-- A request of `mallory` to copy the object into their own bucket. -/
def malloryCopies : HTTPRequest :=
  { method := .put, path := "/m/x",
    headers := [("Authorization", ["mallory"]), ("X-Amz-Copy-Source", ["/b/k"])] }

/-- The version the copy reads. -/
def aliceObject : ObjectMeta :=
  { bucket := "b", key := "k", versionID := "null", size := 1, lastModified := .time (unixEpoch + 4),
    isLatest := true }

end D9Store
