import D9Store.Uploads.Grounds

/-!
Version ids within one key.

Every history document on the disk, and every object file's own version id, is kept in
order by an invariant of files alone, whatever paths they lie at. Under plain names nothing but
documents gets to the path of a history. A command adds at most one entry to a history; the ids
stay distinct as long as that entry has an id of its own.
-/

namespace D9Store

open Posix FilePath

/-! ### Lists of ids -/

/-- The version ids of a history. -/
def ids (vs : List ObjectMeta) : List String := vs.map ObjectMeta.versionID

/-- An id that a version may carry when the ids in `U` have been given out. -/
def Known (U : Set String) (id : String) : Prop := id ≠ "" ∧ (id = "null" ∨ id ∈ U)

/-- Distinct known ids. -/
def IdsFrom (U : Set String) (vs : List ObjectMeta) : Prop :=
  (ids vs).Nodup ∧ ∀ id ∈ ids vs, Known U id

/-- The ids are distinct and none is empty, and exactly the first entry is the latest. -/
structure WellNamed (vs : List ObjectMeta) : Prop where
  distinct : (ids vs).Nodup
  named : ∀ v ∈ vs, v.versionID ≠ ""
  latest : History.Latest vs

namespace IdsFrom

variable {U V : Set String} {vs ws : List ObjectMeta}

theorem nil : IdsFrom U [] := ⟨List.nodup_nil, by simp [ids]⟩

theorem mono (h : IdsFrom U vs) (sub : U ⊆ V) : IdsFrom V vs := by
  refine ⟨h.1, fun id mem => ?_⟩
  obtain ⟨ne, null | used⟩ := h.2 id mem
  · exact ⟨ne, .inl null⟩
  · exact ⟨ne, .inr (sub used)⟩

theorem sublist (h : IdsFrom U vs) (sub : (ids ws).Sublist (ids vs)) : IdsFrom U ws :=
  ⟨h.1.sublist sub, fun id mem => h.2 id (sub.subset mem)⟩

theorem congr (h : IdsFrom U vs) (eq : ids ws = ids vs) : IdsFrom U ws := by
  unfold IdsFrom
  rw [eq]
  exact h

theorem prepended {nv : ObjectMeta} (h : IdsFrom U vs) (known : Known U nv.versionID)
    (new : nv.versionID ∉ ids vs) : IdsFrom U (History.prepended nv vs) := by
  have same : ids (History.prepended nv vs) = nv.versionID :: ids vs := by
    simp [ids, History.prepended, Function.comp_def]
  unfold IdsFrom
  rw [same]
  refine ⟨List.nodup_cons.mpr ⟨new, h.1⟩, fun id mem => ?_⟩
  rcases List.mem_cons.mp mem with rfl | mem
  · exact known
  · exact h.2 id mem

theorem wellNamed (h : IdsFrom U vs) (latest : History.Latest vs) : WellNamed vs :=
  ⟨h.1, fun _ mem => (h.2 _ (List.mem_map_of_mem mem)).1, latest⟩

end IdsFrom

theorem ids_displaced (enabled : Bool) (vs : List ObjectMeta) :
    (ids (History.displaced enabled vs)).Sublist (ids vs) := by
  cases vs with
  | nil => exact List.Sublist.refl _
  | cons cur rest =>
    simp only [History.displaced]
    split
    · exact List.Sublist.refl _
    · split
      · exact List.Sublist.refl _
      · exact List.sublist_cons_self _ _

theorem ids_dropped (vs : List ObjectMeta) : (ids (History.dropped vs)).Sublist (ids vs) := by
  cases vs with
  | nil => exact List.Sublist.refl _
  | cons cur rest =>
    simp only [History.dropped]
    split
    · exact List.Sublist.refl _
    · split
      · exact List.sublist_cons_self _ _
      · exact List.Sublist.refl _

theorem ids_marked (vs : List ObjectMeta) : ids (History.marked vs) = ids vs := by
  cases vs <;> rfl

theorem ids_promoted (vs : List ObjectMeta) : ids (History.promoted vs) = ids vs := by
  cases vs <;> rfl

theorem ids_kept (vid : String) (vs : List ObjectMeta) :
    (ids (History.keptBy vid vs)).Sublist (ids vs) := List.filter_sublist.map _

theorem ids_core {vs ws : List ObjectMeta} (h : ws.map History.core = vs.map History.core) :
    ids ws = ids vs := by
  have through : ∀ vs : List ObjectMeta, ids vs = ids (vs.map History.core) := fun vs => by
    simp [ids, Function.comp_def, History.core]
  rw [through ws, h, ← through vs]

/-! ### The invariant of files -/

/-- History documents are in order, and object files carry known ids. -/
def idInv (U : Set String) : FileInv where
  content c := ∀ km, c = .json (.keyMeta km) → IdsFrom U km.versions ∧ History.Latest km.versions
  xattrs x := ∀ id, x.versionID = some id → Known U id
  raw bytes km eq := by cases eq
  doc doc plain km eq := by
    cases eq
    exact absurd rfl (plain km)
  bare id eq := by cases eq

section Invariant

variable {e : Env} {U V : Set String} {s t : Disk} {c : Command} {f : File} {km : KeyMeta}

theorem idInv_mono (sub : U ⊆ V) (h : (idInv U).Holds f) : (idInv V).Holds f := by
  refine ⟨fun km eq => ⟨(h.1 km eq).1.mono sub, (h.1 km eq).2⟩, fun id eq => ?_⟩
  obtain ⟨ne, null | used⟩ := h.2 id eq
  · exact ⟨ne, .inl null⟩
  · exact ⟨ne, .inr (sub used)⟩

theorem idInv_admits (named : IdsFrom U km.versions) (latest : History.Latest km.versions) :
    (idInv U).Admits km where
  doc _ km' eq := by
    cases eq
    exact ⟨named, latest⟩
  head v head x _ id eq := by
    have mem : v ∈ km.versions := List.mem_of_head? head
    have eq' : v.versionID = id := by
      simp only [Xattrs.store, Xattrs.setStr] at eq
      split at eq
      · exact Option.some.inj eq
      · cases eq
    rw [← eq']
    exact named.2 _ (List.mem_map_of_mem mem)

theorem named_fileMeta (inv : (idInv U).Holds f) (bucket key : String) :
    Known U (e.fileMeta bucket key f).1.versionID ∧ (e.fileMeta bucket key f).1.isLatest = true := by
  have null : Known U "null" := ⟨by decide, .inl rfl⟩
  unfold Env.fileMeta
  split
  · refine ⟨?_, rfl⟩
    cases id : f.xattrs.versionID with
    | none => exact null
    | some id' => exact inv.2 id' id
  · exact ⟨null, rfl⟩

/-- The history a key is read with is in order. -/
theorem named_of_read (inv : Everywhere (idInv U).Holds s) (tidy : e.Tidy s) {bucket key : String}
    (tame : Tame bucket) (read : e.readKeyMeta s bucket key = .ok km) :
    IdsFrom U km.versions ∧ History.Latest km.versions := by
  unfold Env.readKeyMeta at read
  cases hp : e.historyPath bucket key with
  | error err =>
    rw [hp] at read
    cases read
  | ok p =>
    rw [hp, except_ok_bind] at read
    split at read
    · rename_i doc found
      cases read
      obtain ⟨f, file, eq⟩ := readDoc_ok found
      obtain ⟨km, holds, -⟩ := tidy.filed bucket key p f tame hp file
      rw [holds] at eq
      cases eq
      exact (inv p f file).1 km holds
    · cases place : e.objectPath bucket key with
      | error err =>
        rw [place] at read
        cases read
      | ok op =>
        rw [place, except_ok_bind] at read
        cases file : s.file op with
        | none => simp [Env.readCurrentMeta, file] at read
        | some f =>
          simp only [Env.readCurrentMeta, file, Except.ok.injEq] at read
          rw [← read]
          have known := named_fileMeta (e := e) (inv op f file) bucket key
          refine ⟨⟨by simp [ids], by simpa [ids] using known.1⟩, ?_⟩
          rintro v rest ⟨⟩
          exact ⟨known.2, by simp⟩
    · cases read

theorem named_of_load (inv : Everywhere (idInv U).Holds s) (tidy : e.Tidy s) {bucket : String}
    (tame : Tame bucket) (key : String) :
    IdsFrom U (e.loadKeyMetaOrNew s bucket key).versions ∧
      History.Latest (e.loadKeyMetaOrNew s bucket key).versions := by
  unfold Env.loadKeyMetaOrNew
  cases read : e.readKeyMeta s bucket key with
  | ok km =>
    have ok := named_of_read inv tidy tame read
    exact ok
  | error err => exact ⟨IdsFrom.nil, History.Latest.nil⟩

end Invariant

/-! ### What a command adds -/

/-- The command creates an entry. -/
def Command.creates (c : Command) : Bool :=
  match c.op with
  | .putObject | .copyObject | .completeMultipart => true
  | .deleteObject => !Env.explicitVersion c
  | _ => false

/-- The id the gateway gave out for the entry a command creates. -/
def Command.minted (c : Command) : Option String :=
  if c.creates && c.versionID != "" then some c.versionID else none

/-- The id of the entry a command adds, and the entries it is put before. -/
def Env.addition (e : Env) (s : Disk) (c : Command) : Option (String × List ObjectMeta) :=
  let bm := e.bucketMetaForWrite s c.bucket
  match c.op with
  | .putObject | .copyObject | .completeMultipart =>
    some (Env.writeVersionID bm c,
      History.displaced bm.versioningEnabled (e.loadKeyMetaOrNew s c.bucket c.key).versions)
  | .deleteObject =>
    if Env.explicitVersion c then none
    else
      match e.readKeyMeta s c.bucket c.key with
      | .ok km =>
        if bm.versioningEnabled then some (c.versionID, History.displaced true km.versions)
        else if bm.versioning = "Suspended" then some ("null", History.dropped km.versions)
        else none
      | .error _ => if bm.versioningEnabled ∧ c.versionID ≠ "" then some (c.versionID, []) else none
  | _ => none

/-- The entry a command adds is not nameless, and there is no other `null` entry when it is
the `null` one. -/
def Env.Apt (e : Env) (s : Disk) (c : Command) : Prop :=
  ∀ new ∈ e.addition s c, new.1 ≠ "" ∧ (new.1 = "null" → "null" ∉ ids new.2)

instance (e : Env) (s : Disk) (c : Command) : Decidable (e.Apt s c) := by
  unfold Env.Apt
  infer_instance

/-- The condition on one input: its names are plain, and what a command adds is apt. -/
def Env.Distinct (e : Env) (s : Disk) : Input → Prop
  | .command c => e.Apt s c ∧ c.Tidy
  | _ => True

instance (e : Env) (s : Disk) : (i : Input) → Decidable (e.Distinct s i)
  | .command _ => inferInstanceAs (Decidable (_ ∧ _))
  | .blob _ _ => isTrue trivial
  | .part _ _ _ => isTrue trivial

theorem Env.Distinct.tidy {e : Env} {s : Disk} {i : Input} (h : e.Distinct s i) : i.Tidy := by
  cases i with
  | command c => exact h.2
  | blob token payload => trivial
  | part uploadID number payload => trivial

/-- The ids given out in a run, in order. -/
def mintedIn (ins : List Input) : List String := (ins.filterMap Input.command?).filterMap Command.minted

section Commands

variable {e : Env} {U : Set String} {s : Disk} {c : Command} {km : KeyMeta}

/-- The ids given out once `c` is applied. -/
def afterIDs (U : Set String) (c : Command) : Set String := U ∪ {id | c.minted = some id}

/-- The entry a command adds is known and new. -/
theorem known_addition {id : String} {behind : List ObjectMeta} (named : IdsFrom U behind)
    (creates : c.creates = true) (fresh : ∀ id, c.minted = some id → id ≠ "null" ∧ id ∉ U)
    (apt : id ≠ "" ∧ (id = "null" → "null" ∉ ids behind)) (own : id = "null" ∨ id = c.versionID) :
    Known (afterIDs U c) id ∧ id ∉ ids behind := by
  by_cases null : id = "null"
  · exact ⟨⟨apt.1, .inl null⟩, by rw [null]; exact apt.2 null⟩
  · have eq : id = c.versionID := own.resolve_left null
    have minted : c.minted = some id := by
      have ne := apt.1
      rw [eq] at ne
      simp [Command.minted, creates, ne, eq]
    refine ⟨⟨apt.1, .inr (.inr minted)⟩, fun mem => ?_⟩
    obtain ⟨-, null' | used⟩ := named.2 id mem
    · exact null null'
    · exact (fresh id minted).2 used

theorem writeVersionID_own (bm : BucketMeta) (c : Command) :
    Env.writeVersionID bm c = "null" ∨ Env.writeVersionID bm c = c.versionID := by
  unfold Env.writeVersionID
  split
  · exact .inr rfl
  · exact .inl rfl

/-- A write leaves the history it extends in order. -/
theorem admits_extended (inv : Everywhere (idInv U).Holds s) (tidy : e.Tidy s) (tame : Tame c.bucket)
    (creates : c.creates = true)
    (fresh : ∀ id, c.minted = some id → id ≠ "null" ∧ id ∉ U)
    (apt : Env.writeVersionID (e.bucketMetaForWrite s c.bucket) c ≠ "" ∧
      (Env.writeVersionID (e.bucketMetaForWrite s c.bucket) c = "null" →
        "null" ∉ ids (History.displaced (e.bucketMetaForWrite s c.bucket).versioningEnabled
          (e.loadKeyMetaOrNew s c.bucket c.key).versions)))
    {nv : ObjectMeta}
    (id : nv.versionID = Env.writeVersionID (e.bucketMetaForWrite s c.bucket) c) :
    (idInv (afterIDs U c)).Admits (e.extended s c nv) := by
  have named := (named_of_load inv tidy tame c.key).1.sublist (ids_displaced
    (e.bucketMetaForWrite s c.bucket).versioningEnabled _)
  obtain ⟨known, new⟩ := known_addition named creates fresh apt (writeVersionID_own _ c)
  rw [← id] at known new
  exact idInv_admits ((named.mono Set.subset_union_left).prepended known new)
    (History.Latest.prepended _ _)

/-- A history that loses entries stays in order. -/
theorem thinned_of_named {vs : List ObjectMeta} (named : IdsFrom U vs)
    (behind : ∀ w ∈ vs.tail, w.isLatest = false) : Env.Thinned (idInv U) km vs  where
  marked _ := idInv_admits (named.congr (ids_marked vs)) (History.Latest.marked behind)
  promoted _ := idInv_admits (named.congr (ids_promoted vs)) (History.Latest.promoted behind)

theorem named_deletable (inv : Everywhere (idInv U).Holds s) (tidy : e.Tidy s) (tame : Tame c.bucket)
    (found : e.deletable s c = some km) :
    IdsFrom U km.versions ∧ History.Latest km.versions := by
  unfold Env.deletable at found
  split at found
  · rename_i km' read
    cases found
    have ok := named_of_read inv tidy tame read
    exact ok
  · split at found
    · cases found
      exact ⟨IdsFrom.nil, History.Latest.nil⟩
    · cases found

/-- What a deletion without a version adds is the addition of the command. -/
theorem addition_delete (op : c.op = .deleteObject) (found : e.deletable s c = some km)
    (unqualified : Env.explicitVersion c = false) :
    ((e.bucketMetaForWrite s c.bucket).versioningEnabled = true →
      e.addition s c = some (c.versionID, History.displaced true km.versions)) ∧
    ((e.bucketMetaForWrite s c.bucket).versioningEnabled = false →
      (e.bucketMetaForWrite s c.bucket).versioning = "Suspended" →
      e.addition s c = some ("null", History.dropped km.versions)) := by
  unfold Env.deletable at found
  unfold Env.addition
  simp only [op, unqualified, Bool.false_eq_true, if_false]
  cases read : e.readKeyMeta s c.bucket c.key with
  | ok km' =>
    simp only [read, Option.some.injEq] at found
    subst found
    refine ⟨fun enabled => by simp [enabled], fun off suspended => by simp [off, suspended]⟩
  | error err =>
    simp only [read] at found
    split at found
    · rename_i create
      cases found
      refine ⟨fun enabled => by simp [enabled, create.2.2, History.displaced], fun off => ?_⟩
      rw [create.2.1] at off
      cases off
    · cases found

/-- One command keeps every history in order. -/
theorem applyDisk_named (inv : Everywhere (idInv U).Holds s) (tidy : e.Tidy s) (apt : e.Apt s c)
    (fresh : ∀ id, c.minted = some id → id ≠ "null" ∧ id ∉ U) (ok : c.Tidy) :
    Everywhere (idInv (afterIDs U c)).Holds (final (e.applyDisk c) s) := by
  have sub : U ⊆ afterIDs U c := Set.subset_union_left
  have inv' : Everywhere (idInv (afterIDs U c)).Holds s := inv.mono fun f h => idInv_mono sub h
  have tame (addressed : c.onDisk = true) : Tame c.bucket := tame_of_plain (ok.bucket addressed)
  have kept {x : M Unit} (h : (idInv (afterIDs U c)).Guards (fun _ => True) x) :
      Everywhere (idInv (afterIDs U c)).Holds (final x s) := h.final inv'
  -- a write that adds the version `nv`
  have write (own : Tame c.bucket) (creates : c.creates = true)
      (add : e.addition s c = some (Env.writeVersionID (e.bucketMetaForWrite s c.bucket) c,
        History.displaced (e.bucketMetaForWrite s c.bucket).versioningEnabled
          (e.loadKeyMetaOrNew s c.bucket c.key).versions)) {nv : ObjectMeta}
      (id : nv.versionID = Env.writeVersionID (e.bucketMetaForWrite s c.bucket) c) :
      (idInv (afterIDs U c)).Admits (e.extended s c nv) :=
    admits_extended inv tidy own creates fresh (apt _ add) id
  cases op : c.op
  case putObject =>
    rw [Env.applyDisk, op]
    exact Env.applyPutObject_everywhere inv'
      (write (tame (by simp [Command.onDisk, op])) (by simp [Command.creates, op]) (by simp [Env.addition, op]) (putMeta_versionID _ c))
  case copyObject =>
    rw [Env.applyDisk, op]
    exact Env.applyCopyObject_everywhere inv' fun src =>
      write (tame (by simp [Command.onDisk, op])) (by simp [Command.creates, op]) (by simp [Env.addition, op]) (copyMeta_versionID _ c src)
  case completeMultipart =>
    have own := tame (by simp [Command.onDisk, op])
    rw [Env.applyDisk, op]
    exact Env.applyCompleteMultipart_everywhere inv' own (ok.token (.inr op)) fun mp parts total =>
      write own (by simp [Command.creates, op]) (by simp [Env.addition, op])
        (completeMeta_versionID _ c mp parts total)
  case deleteObject =>
    rw [Env.applyDisk, op]
    have own := tame (by simp [Command.onDisk, op])
    have creates (unqualified : Env.explicitVersion c = false) : c.creates = true := by
      simp [Command.creates, op, unqualified]
    refine Env.applyDeleteObject_everywhere inv' ?_ ?_ ?_ ?_
    · intro km found _
      obtain ⟨named, latest⟩ := named_deletable inv tidy own found
      exact thinned_of_named ((named.sublist (ids_kept _ _)).mono sub) latest.kept
    · intro km found unqualified enabled
      have named := (named_deletable inv tidy own found).1.sublist (ids_displaced true _)
      have add := (addition_delete op found unqualified).1 enabled
      obtain ⟨known, new⟩ := known_addition named (creates unqualified) fresh (apt _ add) (.inr rfl)
      exact idInv_admits ((named.mono sub).prepended known new) (History.Latest.prepended _ _)
    · intro km found unqualified suspended
      have named := (named_deletable inv tidy own found).1.sublist (ids_dropped _)
      have off : (e.bucketMetaForWrite s c.bucket).versioningEnabled = false := by
        rw [BucketMeta.versioningEnabled, suspended]
        rfl
      have add := (addition_delete op found unqualified).2 off suspended
      obtain ⟨known, new⟩ := known_addition named (creates unqualified) fresh (apt _ add) (.inl rfl)
      exact idInv_admits ((named.mono sub).prepended known new) (History.Latest.prepended _ _)
    · intro km found
      obtain ⟨named, latest⟩ := named_deletable inv tidy own found
      exact thinned_of_named ((named.sublist (ids_dropped _)).mono sub) latest.dropped
  all_goals rw [Env.applyDisk, op]
  case createBucket => exact kept (Env.applyCreateBucket_guards c)
  case deleteBucket => exact kept (Env.applyDeleteBucket_guards c)
  case createMultipart => exact kept (Env.applyCreateMultipart_guards c)
  case uploadPart => exact kept (Env.applyUploadPart_guards c)
  case abortMultipart => exact kept (Env.applyAbortMultipart_guards c)
  case putAccount => exact inv'
  case deleteAccount => exact inv'
  case unknown => exact inv'
  case putObjectAcl | putObjectTagging | deleteObjectTag | putObjectRetention | putObjectLegalHold =>
    refine Env.applyObjectMetaMutation_everywhere inv' fun km vs read amended => ?_
    have own := tame (by simp [Command.onDisk, op])
    obtain ⟨named, latest⟩ := named_of_read inv tidy own read
    have core := History.amendTarget_core amended
    exact idInv_admits ((named.congr (ids_core core)).mono sub) (latest.of_core core)
  all_goals exact kept (Env.applyBucketConfig_guards c)

end Commands

/-! ### Runs -/

/-- Files as an operator puts them on the disk. -/
def Untouched (f : File) : Prop := (∃ bytes, f.content = .raw bytes) ∧ f.xattrs = {}

/-- A disk before the first command: the files are an operator's, and none is in the state root. -/
structure Env.Unwritten (e : Env) (s : Disk) : Prop where
  files : Everywhere Untouched s
  state : ∀ p, e.state <:+ p → s.file p = none

variable {U : Set String}

theorem Untouched.holds {f : File} (P : FileInv) (h : Untouched f) : P.Holds f := by
  obtain ⟨⟨bytes, eq⟩, bare⟩ := h
  refine ⟨?_, ?_⟩
  · rw [eq]
    exact P.raw bytes
  · rw [bare]
    exact P.bare

theorem Env.Unwritten.tidy {e : Env} {s : Disk} (start : e.Unwritten s) : e.Tidy s where
  filed bucket key hp f tame place file := by
    rw [start.state hp (state_of_area (area_historyPath tame place))] at file
    cases file
  names := start.files.mono fun _ h => h.holds nameInv

theorem take_named {e : Env} {s : Disk} {i : Input} (inv : Everywhere (idInv U).Holds s)
    (tidy : e.Tidy s) (ok : e.Distinct s i) (fresh : ∀ id ∈ mintedIn [i], id ≠ "null" ∧ id ∉ U) :
    Everywhere (idInv (U ∪ {id | id ∈ mintedIn [i]})).Holds (final (e.take i) s) := by
  cases i with
  | blob token payload =>
    exact (Env.handleBlobPut_guards.final inv).mono fun f h => idInv_mono Set.subset_union_left h
  | part uploadID number payload =>
    exact (Env.handlePartPut_guards.final inv).mono fun f h => idInv_mono Set.subset_union_left h
  | command c =>
    have same : ∀ id, id ∈ mintedIn [.command c] ↔ c.minted = some id := by
      intro id
      cases minted : c.minted <;> simp [mintedIn, Input.command?, minted, eq_comm]
    have step := applyDisk_named inv tidy ok.1 (fun id h => fresh id ((same id).mpr h)) ok.2
    refine step.mono fun f h => idInv_mono ?_ h
    rintro id (used | new)
    · exact .inl used
    · exact .inr ((same id).mpr new)

theorem feed_named {e : Env} {ins : List Input} {s : Disk} (inv : Everywhere (idInv U).Holds s)
    (tidy : e.Tidy s) (ok : e.Along e.Distinct ins s) (distinct : (mintedIn ins).Nodup)
    (fresh : ∀ id ∈ mintedIn ins, id ≠ "null" ∧ id ∉ U) :
    e.Tidy (e.feed ins s) ∧ ∃ V, Everywhere (idInv V).Holds (e.feed ins s) := by
  induction ins generalizing s U with
  | nil => exact ⟨tidy, U, inv⟩
  | cons i rest ih =>
    have split : mintedIn (i :: rest) = mintedIn [i] ++ mintedIn rest := by
      simp only [mintedIn, ← List.filterMap_append]
      rw [← List.singleton_append, List.filterMap_append]
    rw [split] at distinct fresh
    obtain ⟨-, later, apart⟩ := List.nodup_append.mp distinct
    refine ih (take_named inv tidy ok.1 fun id mem => fresh id (List.mem_append_left _ mem))
      (Env.take_tidy tidy ok.1.tidy) ok.2 later ?_
    intro id mem
    obtain ⟨ne, out⟩ := fresh id (List.mem_append_right _ mem)
    refine ⟨ne, ?_⟩
    rintro (used | now)
    · exact out used
    · exact apart id now id mem rfl

/-- In a run from operator's files alone, with plain names and distinct version ids, the ids of
every history stay distinct and non-empty and only its first entry is the latest, as long as every
entry added has a name of its own. -/
theorem version_ids_stay_unique {e : Env} {ins : List Input} {s : Disk} {bucket key : String}
    {km : KeyMeta} (start : e.Unwritten s) (distinct : (mintedIn ins).Nodup)
    (minted : ∀ id ∈ mintedIn ins, isUUID id = true) (ok : e.Along e.Distinct ins s)
    (tame : Tame bucket) (read : e.readKeyMeta (e.feed ins s) bucket key = .ok km) : WellNamed km.versions := by
  have inv : Everywhere (idInv ∅).Holds s := start.files.mono fun f h => h.holds _
  obtain ⟨tidy, V, inv'⟩ := feed_named inv start.tidy ok distinct fun id mem =>
    ⟨ne_null_of_isUUID (minted id mem), Set.notMem_empty _⟩
  obtain ⟨named, latest⟩ := named_of_read inv' tidy tame read
  exact named.wellNamed latest

/-- A key that is overwritten before, while and after versioning is on. -/
def rewrittenKey : List Input :=
  [.command Small.create, Small.payload 1, .command (Small.put "k" 1),
   .command (Small.versioning "Enabled"), Small.payload 2, .command (Small.put "k" 2),
   .command (Small.delete "k" (uuid 3)), .command (Small.deleteVersion "k" "null"),
   .command (Small.versioning "Suspended"), Small.payload 4, .command (Small.put "k" 4)]

theorem rewritten_key_has_unique_ids :
    ∃ km, (smallEnv false).readKeyMeta ((smallEnv false).feed rewrittenKey (smallDisk false)) "b" "k" =
        .ok km ∧ ids km.versions = ["null", uuid 3, uuid 2] ∧ WellNamed km.versions := by
  have done : ((smallEnv false).readKeyMeta ((smallEnv false).feed rewrittenKey (smallDisk false))
      "b" "k").toOption.map (fun km => ids km.versions) = some ["null", uuid 3, uuid 2] := by
    decide +kernel
  obtain ⟨km, found, names⟩ := Option.map_eq_some_iff.mp done
  have read : (smallEnv false).readKeyMeta
      ((smallEnv false).feed rewrittenKey (smallDisk false)) "b" "k" = .ok km := by
    cases h : (smallEnv false).readKeyMeta
        ((smallEnv false).feed rewrittenKey (smallDisk false)) "b" "k" with
    | error err =>
      rw [h] at found
      cases found
    | ok km' =>
      rw [h] at found
      cases found
      rfl
  have empty : ∀ p ∈ (smallDisk false).dom, (smallDisk false).file p = none := by decide +kernel
  have start : (smallEnv false).Unwritten (smallDisk false) :=
    ⟨everywhere_of_dom empty, fun p _ => Option.eq_none_iff_forall_not_mem.mpr fun f file =>
      everywhere_of_dom (P := fun _ => False) empty p f file⟩
  exact ⟨km, read, names, version_ids_stay_unique start (by decide) (by decide) (by decide +kernel)
    (by decide) read⟩

/-- In a suspended bucket a put over a `null` delete marker leaves two `null` entries. -/
theorem put_over_null_marker_repeats_null :
    ((smallEnv false).readKeyMeta ((smallEnv false).feed
        [.command Small.create, .command (Small.versioning "Suspended"), Small.payload 1,
         .command (Small.put "k" 1), .command (Small.delete "k" ""), Small.payload 2,
         .command (Small.put "k" 2)] (smallDisk false)) "b" "k").toOption.map
      (fun km => ids km.versions) = some ["null", "null"] := by
  decide +kernel

end D9Store
