import D9Store.Runs
import D9Store.S3Api.Effects

/-!
Lookups that fail.

Before a request acts, its guard asks for the metadata of the bucket, in a remote call of its own.
The guards of both front ends take any error for a missing bucket and let the request through, and
the calls that follow may well succeed. Only the anonymous creation of a bucket is refused then.
-/

namespace D9Store

open Posix Api

/-- The lookup fails for another reason than a missing bucket. -/
def lookupFailed : Except Err BucketMeta → Bool
  | .ok _ => false
  | .error err => err != .api errNoSuchBucket

/-- A call of `authorize`: which one of its request, for which key and action. -/
structure Check where
  number : Nat
  key : String
  action : Action

namespace Server

variable {sv : Server} {rc : ReqCtx} {c : Check} {h : Handler} {s : Session} {disk : Disk}
    {answer : Except Err BucketMeta} {who : Caller}

section Definitions

variable (sv : Server) (rc : ReqCtx)

/-- The checks that a handler makes: one before anything else, or one for each object of a batch. -/
def checks (h : Handler) : List Check :=
  match action h with
  | some a => [⟨0, rc.key, a⟩]
  | none =>
    if h = .deleteObjects then
      (((bodyRead rc).bind sv.parseDeletions).map (·.objects)).getD [] |>.zipIdx.map
        fun (object, n) => ⟨n, object.1, .deleteObject⟩
    else []

/-- What `authorize` says in the check. -/
def permits (c : Check) (disk : Disk) : Bool :=
  sv.allows { rc with key := c.key } c.action c.number disk

/-- What entitles a caller, once the bucket is found: to own it, its policy, or an access control
list. -/
def Entitled (c : Check) (bm : BucketMeta) (disk : Disk) : Prop :=
  (rc.who.isAuth = true ∧ bm.owner = rc.who.account) ∨
    sv.decision bm rc.who rc.gctx.sourceIP c.action rc.bucket c.key = .allow ∨
    ∃ acl, (bm.acl = some acl ∨
        ∃ om, sv.e.headObject disk rc.bucket c.key "" = .ok om ∧ om.acl = some acl) ∧
      sv.checkACL (some acl) rc.who c.action.perm = true

/-- The caller is entitled, or there is no bucket. -/
def Justified (c : Check) (answer : Except Err BucketMeta) (disk : Disk) : Prop :=
  match answer with
  | .ok bm => sv.Entitled rc c bm disk
  | .error err => err = .api errNoSuchBucket

/-- The check refuses its part of the request on this disk, with nothing done: the whole of it, or
one object of a batch. -/
def Refused (h : Handler) (c : Check) (disk : Disk) : Prop :=
  ∀ s : Session, s.backend.disk = disk →
    if h = .deleteObjects then
      ∀ versionID,
        sv.deleteOne rc c.number c.key versionID s = .ok (c.key, .error accessDenied) s
    else sv.handle rc h s = .error accessDenied s

/-- The creation of a bucket by nobody in particular. -/
def anonymousCreate (c : Check) : Bool := c.action == .createBucket && !rc.who.isAuth

end Definitions

/-! ### The guards -/

/-- A guard whose lookup fails lets everybody pass but an anonymous creator. -/
theorem permits_of_failed (user : rc.who.role ≠ "admin")
    (failed : lookupFailed (sv.answer rc c.number disk) = true) :
    sv.permits rc c disk = !anonymousCreate rc c := by
  unfold permits allows
  cases told : sv.answer rc c.number disk with
  | ok bm =>
    rw [told] at failed
    cases failed
  | error err =>
    have told' : sv.answer { rc with key := c.key } c.number disk = .error err := told
    rw [told']
    simp [Authz.authorize, user, anonymousCreate]

theorem not_justified_of_failed (failed : lookupFailed answer = true) :
    ¬ sv.Justified rc c answer disk := by
  cases answer with
  | ok bm => cases failed
  | error err => simpa [lookupFailed, Justified] using failed

theorem entitled_of_acl {az : Authz} {bm : BucketMeta} {latest : Except Err ObjectMeta} {own : Bool}
    {perm : String} (granted : az.checkACL
      (if own then
        match latest with
        | .ok om => om.acl.or bm.acl
        | .error _ => bm.acl
      else bm.acl) who perm = true) :
    ∃ acl, (bm.acl = some acl ∨ ∃ om, latest = .ok om ∧ om.acl = some acl) ∧
      az.checkACL (some acl) who perm = true := by
  have pick {acl : Option ACL} (h : az.checkACL acl who perm = true)
      (from_ : ∀ a, acl = some a → bm.acl = some a ∨ ∃ om, latest = .ok om ∧ om.acl = some a) :
      ∃ acl, (bm.acl = some acl ∨ ∃ om, latest = .ok om ∧ om.acl = some acl) ∧
        az.checkACL (some acl) who perm = true := by
    cases acl with
    | none => cases h
    | some acl => exact ⟨acl, from_ acl rfl, h⟩
  split at granted
  · cases latest with
    | error err => exact pick granted fun a eq => .inl eq
    | ok om =>
      refine pick granted fun a eq => ?_
      cases acl : om.acl with
      | none => exact .inl (by simpa [acl] using eq)
      | some _ => exact .inr ⟨om, rfl, by simpa [acl] using eq⟩
  · exact pick granted fun a eq => .inl eq

/-- A guard that is answered permits only what is justified. -/
theorem justified_of_permits (user : rc.who.role ≠ "admin")
    (answered : lookupFailed (sv.answer rc c.number disk) = false)
    (permits : sv.permits rc c disk = true) :
    sv.Justified rc c (sv.answer rc c.number disk) disk := by
  cases told : sv.answer rc c.number disk with
  | error err => simpa [told, lookupFailed, Justified] using answered
  | ok bm =>
    have told' : sv.answer { rc with key := c.key } c.number disk = .ok bm := told
    unfold Server.permits allows at permits
    rw [told'] at permits
    simp only [Authz.authorize, if_neg user] at permits
    split at permits
    · rename_i own
      exact .inl (by simpa using own)
    · cases decided : sv.decision bm rc.who rc.gctx.sourceIP c.action rc.bucket c.key with
      | deny => simp [decided] at permits
      | allow => exact .inr (.inl decided)
      | none =>
        simp only [decided] at permits
        exact .inr (.inr (entitled_of_acl permits))

/-! ### The handlers -/

theorem mem_checks (mem : c ∈ sv.checks rc h) :
    (h = .deleteObjects ∧ c.action = .deleteObject) ∨
      h ≠ .deleteObjects ∧ action h = some c.action ∧ c.number = 0 ∧ c.key = rc.key := by
  unfold checks at mem
  cases asks : action h with
  | some a =>
    simp only [asks, List.mem_singleton] at mem
    subst mem
    exact .inr ⟨fun batch => by simp [batch, action] at asks, rfl, rfl, rfl⟩
  | none =>
    simp only [asks] at mem
    split at mem
    · rename_i batch
      obtain ⟨⟨object, n⟩, -, rfl⟩ := List.mem_map.mp mem
      exact .inl ⟨batch, rfl⟩
    · cases mem

/-- A check that does not permit refuses. -/
theorem refused_of_denied (mem : c ∈ sv.checks rc h) (denied : sv.permits rc c disk = false) :
    sv.Refused rc h c disk := by
  intro s same
  subst same
  have failed := authorize_denied (s := s) denied
  rcases mem_checks mem with ⟨batch, deletes⟩ | ⟨single, asks, number, key⟩
  · rw [if_pos batch]
    intro versionID
    rw [deletes] at failed
    rw [deleteOne, bind_apply, attempt, failed]
    rfl
  · rw [if_neg single]
    obtain ⟨k, handler⟩ := handle_authorized sv rc asks
    rw [number, key] at failed
    rw [handler, bind_apply, failed]

/-! ### The console -/

/-- The calls of the console that ask whose bucket it is. -/
def consoleGuarded (r : HTTPRequest) : Bool :=
  let path := (r.path.drop "/console/api/".length).toString
  path == "buckets" && r.method == .delete || path == "objects" && r.method == .get ||
    path == "object" && (r.method == .get || r.method == .put || r.method == .delete)

/-- The caller owns the bucket, or there is none. -/
def ConsoleJustified (who : Caller) : Except Err BucketMeta → Prop
  | .ok bm => bm.owner = who.account
  | .error err => err = .api errNoSuchBucket

theorem owns_iff (user : who.role ≠ "admin") :
    (owns who answer = true → ConsoleJustified who answer) ↔ lookupFailed answer = false := by
  cases answer <;> simp [owns, user, ConsoleJustified, lookupFailed]

/-- A guarded call to a bucket that is not the caller's is refused. -/
theorem console_refused {r : HTTPRequest} (guarded : consoleGuarded r = true)
    (denied : owns who answer = false) (s : Session) :
    sv.consoleApi r who (some answer) s = .error accessDenied s := by
  have failed (bucket : String) : sv.ifOwns who bucket (some answer) s = .error accessDenied s := by
    simp [ifOwns, ask, bind_apply, reading, denied, throw, throwThe, MonadExceptOf.throw,
      EStateM.throw]
  simp only [consoleGuarded, Bool.or_eq_true, Bool.and_eq_true, beq_iff_eq] at guarded
  unfold consoleApi
  rcases guarded with (⟨path, method⟩ | ⟨path, method⟩) | ⟨path, (method | method) | method⟩ <;>
    rw [path, method] <;> simp [bind_apply, failed]

/-- The guards of both front ends permit only what is justified, and refuse with nothing done when
their lookup fails, exactly when no lookup fails but that of an anonymous creation. -/
theorem refused_when_failed_iff (sv : Server) :
    (∀ rc h disk, rc.who.role ≠ "admin" →
      ((∀ c ∈ sv.checks rc h,
          (sv.permits rc c disk = true → sv.Justified rc c (sv.answer rc c.number disk) disk) ∧
          (lookupFailed (sv.answer rc c.number disk) = true → sv.Refused rc h c disk)) ↔
        ∀ c ∈ sv.checks rc h, lookupFailed (sv.answer rc c.number disk) = true →
          anonymousCreate rc c = true)) ∧
    ∀ r who answer, who.role ≠ "admin" → consoleGuarded r = true →
      ((owns who answer = true → ConsoleJustified who answer) ∧
        (lookupFailed answer = true ∨ owns who answer = false →
          ∀ s, sv.consoleApi r who (some answer) s = .error accessDenied s) ↔
        lookupFailed answer = false) := by
  refine ⟨fun rc h disk user => ⟨fun safe c mem failed => ?_, fun only c mem =>
    ⟨fun allowed => ?_, fun failed => ?_⟩⟩, fun r who answer user guarded =>
    ⟨fun safe => (owns_iff user).mp safe.1, fun answered => ⟨(owns_iff user).mpr answered, ?_⟩⟩⟩
  · by_contra other
    refine not_justified_of_failed failed ((safe c mem).1 ?_)
    rw [permits_of_failed user failed]
    simpa using other
  · refine justified_of_permits user (Bool.eq_false_iff.mpr fun failed => ?_) allowed
    rw [permits_of_failed user failed, only c mem failed] at allowed
    cases allowed
  · refine refused_of_denied mem ?_
    rw [permits_of_failed user failed, only c mem failed]
    rfl
  · rintro (failed | denied)
    · rw [answered] at failed
      cases failed
    · exact console_refused guarded denied

/-! ### A read while there is no leader -/

/-- A private object of `alice`, and an account of `al`. -/
def objectOfAlice : Session where
  backend :=
    { disk := (smallEnv false).feed
        [.command { Small.create with issuedBy := "alice" }, Small.payload 1,
          .command (Small.put "k" 1)] (smallDisk false)
      accounts := [("al", { accessKeyID := "al", secretKey := "", role := "user" })] }

/-- A read of it by `al`. -/
def readByAl : HTTPRequest :=
  { method := .get, path := "/b/k", headers := [("Authorization", ["al"])] }

/-- The read as its handler sees it. -/
def readAsAl (lookups : List (Except Err BucketMeta)) : ReqCtx where
  r := readByAl
  bucket := "b"
  key := "k"
  who := { isAuth := true, account := "al", role := "user" }
  gctx := { account := "al" }
  lookups := lookups

def noLeader : Err := .api ⟨"InternalError", "no leader", 500⟩

/-- The read of a guard that is told about the bucket. -/
def toldRead : ReqCtx := readAsAl [.ok { name := "b", owner := "alice" }]

/-- The guard that is told about the bucket permits only what is justified. -/
theorem told_read_justified :
    ∀ c ∈ (smallServer (smallEnv false)).checks toldRead .getObject,
      (smallServer (smallEnv false)).permits toldRead c (smallDisk false) = true →
        (smallServer (smallEnv false)).Justified toldRead c
          ((smallServer (smallEnv false)).answer toldRead c.number (smallDisk false))
          (smallDisk false) := fun c mem =>
  ((((refused_when_failed_iff (smallServer (smallEnv false))).1 toldRead .getObject
    (smallDisk false) (by decide)).mpr (by decide)) c mem).1

/-- The read is refused, and hands out the bytes when the lookup of its guard fails. -/
theorem failed_lookup_exposes :
    let sv := smallServer (smallEnv false)
    let rc := readAsAl [.error noLeader]
    dispatch rc = .getObject ∧ sv.checks rc .getObject = [⟨0, "k", .getObject⟩] ∧
      ¬ sv.Justified rc ⟨0, "k", .getObject⟩ (sv.answer rc 0 objectOfAlice.backend.disk)
        objectOfAlice.backend.disk ∧
      (final (sv.handle (readAsAl []) .getObject) objectOfAlice).effects = [] ∧
      (final (sv.handle rc .getObject) objectOfAlice).effects ≠ [] ∧
      (final (sv.serve readByAl [.error noLeader]) objectOfAlice).effects ≠ [] :=
  ⟨by decide +kernel, rfl, not_justified_of_failed (by decide), by decide +kernel,
    by decide +kernel, by decide +kernel⟩

end Server

end D9Store
