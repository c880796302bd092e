import D9Store.Key.Clean
import D9Store.Key.Lookup
import D9Store.Keyspace.Invariant

/-!
Runs over all keys: from a fresh backend, as long as every command finds what it needs, the
histories stand and each is the fold of its own commands.
-/

namespace D9Store

open Posix FilePath Versioned

variable {e : Env} {keys : List (Site e)} {s t : Disk} {c : Command} {x : Site e} {i : Input}

/-! ### Conditions -/

/-- Bucket and upload names as the gateway gives them. -/
def Named (c : Command) : Prop :=
  match c.op with
  | .createBucket | .deleteBucket
  | .putBucketAcl | .putBucketPolicy | .deleteBucketPolicy | .putBucketCors | .deleteBucketCors
  | .putBucketTagging | .deleteBucketTag | .putBucketVersioning | .putBucketOwnership
  | .deleteBucketOwner | .putObjectLockConfig => Plain c.bucket
  | .createMultipart | .uploadPart | .abortMultipart => Plain c.bucket ∧ Plain c.uploadID
  | _ => True

instance : Decidable (Named c) := by
  unfold Named
  generalize c.op = op
  induction op using Op.casesOn <;> infer_instance

/-- What an input must find: an object command works on one of the keys and finds what it
needs there. -/
def Orderly (keys : List (Site e)) (s : Disk) : Input → Prop
  | .command c =>
    if Site.onKey c.op = true then ∃ x ∈ keys, x.Addresses c ∧ x.Fair s c else Named c
  | _ => True

instance (x : Site e) : Decidable (x.Addresses c) := by
  unfold Site.Addresses; infer_instance

instance (i : Input) : Decidable (Orderly keys s i) :=
  match i with
  | .command _ => by unfold Orderly; infer_instance
  | .blob .. | .part .. => inferInstanceAs (Decidable True)

/-- A command finds nothing in the way of the act it stands for. -/
theorem Site.sane_of_fair (standing : x.Standing s) (addr : x.Addresses c) (fair : x.Fair s c) :
    x.Sane (actOf e s c) s := by
  have kept : x.Sane .keep s := ⟨fun id h => (by cases h), rfl⟩
  have filed : ∀ {enabled : Bool}, x.Displaceable enabled s → ∀ id,
      (x.entries s).filed enabled = some id → s.file (x.blob id) = none ∧ '/' ∉ id.toList := by
    intro enabled free id files
    rw [filed_entries] at files
    exact ⟨free id files, plain_archivedID standing.sound files⟩
  have written : x.Writable s c → ∀ bytes, x.Sane (writes e s c bytes) s := by
    rintro ⟨-, free⟩ bytes
    cases bytes with
    | none => exact kept
    | some b =>
      rw [← addr.1] at free
      exact ⟨filed free, rfl⟩
  unfold Fair at fair
  unfold actOf
  cases op : c.op <;> simp only [op] at fair ⊢ <;> try exact kept
  case putObject => exact written fair.2 _
  case copyObject => exact written fair.1 _
  case completeMultipart => exact written fair.2.2 _
  case deleteObject =>
    by_cases ahead : goesAhead e s c = true
    swap
    · rw [if_pos (by simpa using ahead)]
      exact kept
    rw [if_neg (by simpa using ahead)]
    have found := fair ahead
    rw [← addr.1] at found
    split
    · exact ⟨fun id h => (by cases h), rfl⟩
    · rename_i implicit
      rw [if_neg implicit] at found
      split
      · rename_i enabled
        rw [if_pos enabled] at found
        exact ⟨filed found.2, rfl⟩
      · rename_i disabled
        rw [if_neg disabled] at found
        exact ⟨fun id h => (by cases h), (Act.spoils_deleteNull _ false _).trans found⟩

/-! ### One command -/

/-- What an input does to the history of a key. -/
def Site.advance (x : Site e) (s : Disk) : Input → Act Content
  | .command c =>
    if Site.onKey c.op = true ∧ x.Addresses c ∧ (outcome (e.applyDisk c) s).isOk = true then
      Site.actOf e s c
    else .keep
  | _ => .keep

theorem Site.advance_other {y : Site e} (hx : x.Addresses c) (ne : y ≠ x) :
    y.advance s (.command c) = .keep :=
  if_neg fun h => ne (addresses_unique h.2.1 hx)

theorem besides_aside (addr : x.Addresses c) (fair : x.Fair s c) :
    Site.besides e c ⊆ e.asideFiles := by
  unfold Site.besides
  split
  · rename_i op
    simp only [Site.Fair, op] at fair
    rintro q (rfl | glob)
    · refine .inl ⟨"mpu", by decide, ?_⟩
      rw [addr.1]
      exact (Env.area_mpu x.tame fair.2.1.2).trans (List.tail_suffix _)
    · exact .inr glob
  · exact Set.empty_subset _

/-- An object command that finds what it needs, and succeeds. -/
theorem Keyspace.applied (apart : Apart keys) (inv : Keyspace keys s) (hx : x ∈ keys)
    (addr : x.Addresses c) (object : Site.onKey c.op = true) (fair : x.Fair s c)
    (run : e.applyDisk c s = .ok () t) :
    Keyspace keys t ∧ x.entries t = (Site.actOf e s c).run (x.entries s) ∧
      (∀ y ∈ keys, y ≠ x → y.entries t = y.entries s) ∧
      x.Acts (Site.actOf e s c) (Site.besides e c) s t := by
  have standing := inv.standing x hx
  have acts := wp_ok (Site.applyDisk_acts standing (apart.proper x hx) addr object fair inv.staging) run
  obtain ⟨inv', own, rest⟩ := inv.acts apart hx (Site.sane_of_fair standing addr fair) acts
    (besides_aside addr fair)
  exact ⟨inv', own, rest, acts⟩

/-! ### One step -/

/-- What an input does to the disk: a command on a key acts on its history or fails, a bucket
goes, or only other places change. -/
inductive Step (keys : List (Site e)) (s t : Disk) : Input → Prop
  | acts {x : Site e} {c : Command} (hx : x ∈ keys) (addr : x.Addresses c)
      (object : Site.onKey c.op = true) (fair : x.Fair s c) (run : e.applyDisk c s = .ok () t)
      (h : x.Acts (Site.actOf e s c) (Site.besides e c) s t) : Step keys s t (.command c)
  | failed {x : Site e} {c : Command} (hx : x ∈ keys) (addr : x.Addresses c)
      (no : (outcome (e.applyDisk c) s).isOk = false) (h : x.Failed s t) : Step keys s t (.command c)
  | emptied {c : Command} (op : c.op = .deleteBucket) (plain : Plain c.bucket)
      (last : t = final (e.applyDeleteBucket c) s) : Step keys s t (.command c)
  | aside {i : Input} {bucket : String} (plain : Plain bucket)
      (other : ∀ c, i = .command c → Site.onKey c.op = false)
      (frame : Framed e.asideFiles (e.asideDirs bucket) s t) : Step keys s t i

theorem Site.advance_bystander (other : ∀ c, i = .command c → Site.onKey c.op = false) :
    x.advance s i = .keep := by
  cases i with
  | blob token payload => rfl
  | part uploadID number payload => rfl
  | command c => exact if_neg fun h => by rw [other c rfl] at h; cases h.1

/-- A command on no key, apart from the deletion of a bucket. -/
theorem applyDisk_within (object : Site.onKey c.op = false) (named : Named c)
    (kept : c.op ≠ .deleteBucket) :
    ∃ bucket, Plain bucket ∧ Within e.asideFiles (e.asideDirs bucket) (e.applyDisk c) := by
  have idle : ∃ bucket, Plain bucket ∧
      Within e.asideFiles (e.asideDirs bucket) (pure () : M Unit) :=
    ⟨"b", by decide, Within.pure ()⟩
  unfold Env.applyDisk
  unfold Named at named
  cases op : c.op <;> simp only [op, Site.onKey, Bool.true_eq_false] at object named kept ⊢
  case createBucket => exact ⟨_, named, Env.applyCreateBucket_within named⟩
  case deleteBucket => exact absurd rfl kept
  case createMultipart => exact ⟨_, named.1, Env.applyCreateMultipart_within named.1 named.2⟩
  case uploadPart => exact ⟨_, named.1, Env.applyUploadPart_within named.1 named.2⟩
  case abortMultipart => exact ⟨_, named.1, Env.applyAbortMultipart_within named.1 named.2⟩
  case putAccount => exact idle
  case deleteAccount => exact idle
  case unknown => exact idle
  all_goals exact ⟨_, named, Env.applyBucketConfig_within named⟩

theorem Keyspace.stepped (apart : Apart keys) (inv : Keyspace keys s) (ok : Orderly keys s i) :
    Step keys s (final (e.take i) s) i := by
  have plain : Plain "b" := by decide
  cases i with
  | blob token payload =>
    exact .aside plain (fun _ h => by cases h) ((Env.handleBlobPut_within token payload).final s)
  | part uploadID number payload =>
    exact .aside plain (fun _ h => by cases h)
      ((Env.handlePartPut_within uploadID number payload).final s)
  | command c =>
    by_cases object : Site.onKey c.op = true
    · obtain ⟨x, hx, addr, fair⟩ : ∃ x ∈ keys, x.Addresses c ∧ x.Fair s c := by
        simpa only [Orderly, if_pos object] using ok
      have spec := Site.applyDisk_acts (inv.standing x hx) (apart.proper x hx) addr object fair
        inv.staging
      cases run : e.applyDisk c s with
      | ok a t =>
        have last : final (e.applyDisk c) s = t := by rw [final, run]
        have acts := wp_ok spec run
        exact .acts hx addr object fair (by rw [Env.take, last, run]) (last ▸ acts)
      | error err t =>
        have last : final (e.applyDisk c) s = t := by rw [final, run]
        have failed := wp_error spec run
        exact .failed hx addr (by rw [outcome, run]; rfl) (last ▸ failed)
    · have named : Named c := by simpa only [Orderly, if_neg object] using ok
      have object := Bool.eq_false_iff.mpr object
      by_cases op : c.op = .deleteBucket
      · refine .emptied op ?_ (by rw [Env.take, Env.applyDisk, op])
        simpa only [Named, op] using named
      · obtain ⟨bucket, plain, within⟩ := applyDisk_within (e := e) object named op
        refine .aside plain (fun c' eq => ?_) (within.final s)
        cases eq
        exact object

/-- Every input keeps the histories in order, and moves each on by its act. -/
theorem Keyspace.step (apart : Apart keys) (inv : Keyspace keys s) (h : Step keys s t i) :
    Keyspace keys t ∧ ∀ x ∈ keys, x.entries t = (x.advance s i).run (x.entries s) := by
  cases h with
  | @acts x c hx addr object fair run h =>
    obtain ⟨inv', own, rest⟩ := inv.acts apart hx (Site.sane_of_fair (inv.standing x hx) addr fair) h
      (besides_aside addr fair)
    refine ⟨inv', fun y hy => ?_⟩
    by_cases eq : y = x
    · have mine : x.advance s (.command c) = Site.actOf e s c :=
        if_pos ⟨object, addr, by rw [outcome, run]; rfl⟩
      rw [eq, mine, own]
    · rw [Site.advance_other addr eq, rest y hy eq]
      rfl
  | @failed x c hx addr no h =>
    have same : ∀ y ∈ keys, y.Standing t ∧ y.entries t = y.entries s := fun y hy =>
      (h.rests apart inv hx hy).standing (inv.standing y hy)
    refine ⟨inv.rests same fun token plain dir => ?_, fun y hy => ?_⟩
    · exact inv.staging token plain (h.frame.dir _ (stagingPath_not_mem_dirs plain) dir)
    · have idle : y.advance s (.command c) = .keep :=
        if_neg fun h => by rw [no] at h; cases h.2.2
      rw [(same y hy).2, idle]
      rfl
  | @emptied c op plain last =>
    have same : ∀ y ∈ keys, y.Standing t ∧ y.entries t = y.entries s := fun y hy => by
      rw [last]
      exact (inv.standing y hy).deleteBucket (apart.proper y hy) plain
    refine ⟨inv.rests same fun token plain => ?_, fun y hy => ?_⟩
    · rcases Env.applyDeleteBucket_final (e := e) s c with eq | ⟨-, -, -, shrinks⟩
      · rw [last, eq]
        exact inv.staging token plain
      · rw [last]
        exact shrinks.notDir (inv.staging token plain)
    · rw [(same y hy).2, Site.advance_bystander fun c' eq => by cases eq; rw [op]; rfl]
      rfl
  | aside plain other frame =>
    obtain ⟨inv', same⟩ := inv.aside apart plain frame
    exact ⟨inv', fun y hy => by rw [same y hy, Site.advance_bystander other]; rfl⟩

/-! ### Whole runs -/

/-- The history of a key after a run, by the commands alone. -/
def Site.ledger (x : Site e) : List Input → Disk → History Content → History Content
  | [], _, h => h
  | i :: rest, s, h => x.ledger rest (final (e.take i) s) ((x.advance s i).run h)

theorem Keyspace.run (apart : Apart keys) {ins : List Input} (inv : Keyspace keys s)
    (ok : e.Along (Orderly keys) ins s) :
    Keyspace keys (e.feed ins s) ∧
      ∀ x ∈ keys, x.entries (e.feed ins s) = x.ledger ins s (x.entries s) := by
  induction ins generalizing s with
  | nil => exact ⟨inv, fun _ _ => rfl⟩
  | cons i rest ih =>
    obtain ⟨inv', moved⟩ := inv.step apart (inv.stepped apart ok.1)
    obtain ⟨inv'', folded⟩ := ih inv' ok.2
    refine ⟨inv'', fun x hx => ?_⟩
    rw [Site.ledger, ← moved x hx]
    exact folded x hx

/-! ### The start -/

/-- A backend that holds nothing yet: directories only, and none below the data root, the
histories, the version blobs and the staging area. -/
def Fresh (e : Env) (s : Disk) : Prop :=
  ∀ q ∈ s.dom, s.file q = none ∧ ¬ Below e.root q ∧ ¬ Below (e.area "history") q ∧
    ¬ Below (e.area "versions") q ∧ ¬ Below (e.area "staging") q

instance : Decidable (Fresh e s) := by
  unfold Fresh; infer_instance

theorem Fresh.file (fresh : Fresh e s) (q : FilePath) : s.file q = none := by
  by_contra found
  obtain ⟨f, file⟩ := Option.ne_none_iff_exists'.mp found
  have mem : q ∈ s.dom := (s.mem_dom q).mpr (by simp [DirTree.file_eq_some.mp file])
  exact found (fresh q mem).1

theorem Fresh.get (fresh : Fresh e s) {q : FilePath} (below : Below e.root q ∨
    Below (e.area "history") q ∨ Below (e.area "versions") q ∨ Below (e.area "staging") q) :
    s.get q = none := by
  refine DirTree.get_none_of_dom (P := fun q => Below e.root q ∨ Below (e.area "history") q ∨
    Below (e.area "versions") q ∨ Below (e.area "staging") q) (fun q mem h => ?_) q below
  obtain ⟨-, data, history, versions, staging⟩ := fresh q mem
  rcases h with h | h | h | h
  · exact data h
  · exact history h
  · exact versions h
  · exact staging h

theorem Fresh.standing (fresh : Fresh e s) (proper : x.Proper) : x.Standing s := by
  have tame := x.tame
  have beneath : ∀ {base p q : FilePath}, base <:+ p → Below p q → Below base q := by
    rintro base p q sub ⟨below, ne⟩
    refine ⟨sub.trans below, ?_⟩
    rintro rfl
    exact ne (sub.eq_of_length_le below.length_le)
  refine Site.standing_of_gone (Site.ready_of_bare (fun q _ => fresh.file q) (fun q _ => fresh.file q)
    fun q below => fresh.get ?_) (fresh.file _) (fresh.file _) ?_
  · exact below.elim (fun h => .inr (.inl (beneath (Env.area_historyDir tame) h)))
      fun h => .inr (.inr (.inl (beneath (Env.area_versionsDir tame) h)))
  · rw [fresh.get (.inl ⟨x.root_tmp, fun eq => ?_⟩)]
    · simp
    · have len := Site.length_tmp proper
      rw [eq] at len
      omega

theorem Fresh.keyspace (fresh : Fresh e s) (apart : Apart keys) : Keyspace keys s := by
  have empty : ∀ x ∈ keys, x.entries s = [] := fun x _ =>
    Site.entries_nil (fresh.file _) (fresh.file _)
  refine ⟨fun x hx => fresh.standing (apart.proper x hx), fun x hx y _ _ id mem => ?_,
    fun token plain dir => ?_⟩
  · rw [empty x hx] at mem
    cases mem
  · rw [fresh.get (.inr (.inr (.inr ⟨Site.area_staging plain, fun eq => ?_⟩)))] at dir
    · cases dir
    · have len := congrArg List.length eq
      rw [Env.stagingPath_eq plain, List.length_cons] at len
      omega

/-! ### Two keys of the small deployment -/

namespace Small

/-- A key of the bucket `b`. -/
def site (key : String) (clean : Clean key) : Site (smallEnv false) :=
  Env.cleanSite (smallEnv false) (show Tame "b" by decide) clean

def k : Site (smallEnv false) := site "k" (by decide)

def l : Site (smallEnv false) := site "l" (by decide)

end Small

end D9Store
