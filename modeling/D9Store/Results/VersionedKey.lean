import D9Store.Runs

/-!
No version is lost: runs of puts, deletions and metadata changes on one key of a bucket
whose versioning is on.

The bytes of a version move between the object file and a blob, and its metadata between
attributes and the history file. `VersionedKey` ties these places to the list of versions
and markers the run has created; every step keeps it.
-/

namespace D9Store

open Posix FilePath Versioned

/-! ### Runs on one key -/

/-- The commands that change the metadata of a version. -/
def metadataOps : List Op :=
  [.putObjectAcl, .putObjectTagging, .deleteObjectTag, .putObjectRetention, .putObjectLegalHold]

/-- A put whose token the fan-out accepts, a deletion without an explicit version, or a
metadata command, on the given key. -/
structure KeyCommand (bucket key : String) (c : Command) : Prop where
  bucket : c.bucket = bucket
  key : c.key = key
  op : (c.op = .putObject ∧ Env.safeToken c.blobToken = true) ∨
    (c.op = .deleteObject ∧ Env.explicitVersion c = false) ∨ c.op ∈ metadataOps

/-- The version id a put or a deletion brings along. -/
def Event.newID : Event → Option String
  | .apply c => if c.op = .putObject ∨ c.op = .deleteObject then some c.versionID else none
  | .stage _ _ => none

/-- The version or marker an event creates: a put the payload staged for it, a deletion a
marker. -/
def Env.created (e : Env) (s : Disk) : Event → List (Version Bytes)
  | .apply c =>
    match c.op with
    | .putObject => [{ id := c.versionID, body := e.staged s c.blobToken }]
    | .deleteObject => [{ id := c.versionID, marker := true }]
    | _ => []
  | .stage _ _ => []

/-- A run in which every command succeeds: the disk it ends with and what it creates,
newest first, in front of `h`. -/
def Env.runLogged (e : Env) :
    List Event → Disk → List (Version Bytes) → Option (Disk × List (Version Bytes))
  | [], s, h => some (s, h)
  | ev :: evs, s, h =>
    match e.handle ev s with
    | .ok _ t => e.runLogged evs t (e.created s ev ++ h)
    | .error _ _ => none

/-- A bucket nothing was ever written to. -/
structure EmptyBucket (e : Env) (bucket : String) (s : Disk) : Prop where
  history : s.isDir (e.historyDir bucket) = true
  versions : s.isDir (e.versionsDir bucket) = true
  nothing : ∀ q, Below (e.bucketDir bucket) q ∨ Below (e.historyDir bucket) q ∨
    Below (e.versionsDir bucket) q → s.get q = none

/-! ### The invariant -/

/-- The disk holds the versions `h` of the key and nothing else of it. -/
structure VersionedKey {e : Env} (x : Site e) (bm : BucketMeta) (s : Disk)
    (h : List (Version Bytes)) : Prop where
  ready : x.Ready s
  sound : x.Sound s
  payloads : Payloads e s
  configured : Configured e s x.bucket bm
  entries : (x.entries s).versions = h.map (Version.map Content.raw)
  bodies : ∀ v ∈ h, v.marker = false → v.body.isSome = true

namespace Site

variable {e : Env} {x : Site e} {s t : Disk}

theorem clear_below_dir {p q : FilePath} (dir : s.isDir p = true) (sub : q <:+ p) :
    s.file q = none := by
  have get := DirTree.isDir_iff.mp dir
  rw [DirTree.file_eq_none]
  right
  rcases eq_or_ne q p with rfl | ne
  · exact get
  · exact DirTree.get_ancestor (by simp [get]) sub ne

theorem ready_of_empty (h : EmptyBucket e x.bucket s) : x.Ready s :=
  ready_of_bare (fun _ => clear_below_dir h.history) (fun _ => clear_below_dir h.versions)
    fun q below => h.nothing q (.inr below)

theorem versions_of_empty (h : EmptyBucket e x.bucket s) :
    s.file x.op = none ∧ s.file x.hp = none ∧ x.versions s = [] := by
  have op : s.file x.op = none :=
    DirTree.file_eq_none.mpr (.inl (h.nothing _ (.inl (Env.confine_ok x.op_eq).2.2)))
  have hp : s.file x.hp = none :=
    DirTree.file_eq_none.mpr (.inl (h.nothing _ (.inr (.inl (Env.confine_ok x.hp_eq).2.2))))
  exact ⟨op, hp, by simp [versions, content, op, hp]⟩

theorem sound_of_empty (h : EmptyBucket e x.bucket s) : x.Sound s := by
  obtain ⟨op, hp, none⟩ := versions_of_empty h
  refine ⟨?_, ?_, ?_, ?_⟩
  · simp [content, hp]
  · rw [none]; exact History.Shape.nil
  · rw [none]; exact History.Latest.nil
  · simp [none, op]

/-- When version ids do not repeat, an archived version meets no other blob of the key. -/
theorem fresh_of_nodup (sound : x.Sound s) (nodup : ((x.versions s).map ObjectMeta.versionID).Nodup)
    (enabled : Bool) (id : String) (arch : History.archivedID enabled (x.versions s) = some id) :
    ∀ v ∈ x.versions s, v.blobID ≠ id := by
  obtain ⟨cur, rest, eq, here, rfl, -⟩ := History.archivedID_eq_some arch
  have named := sound.shape.named cur (by rw [eq]; exact List.mem_cons_self)
  intro v mem blob
  have same : v.blobID = v.versionID := by
    rcases sound.shape.blob v mem with empty | same
    · exact absurd (blob.symm.trans empty) named
    · exact same
  rw [eq] at mem nodup
  rcases List.mem_cons.mp mem with rfl | mem
  · exact named (blob.symm.trans (History.atKeyPath_iff.mp here).1)
  · rw [List.map_cons, List.nodup_cons] at nodup
    exact nodup.1 (List.mem_map.mpr ⟨v, mem, same.symm.trans blob⟩)

theorem map_id_entries : ((x.entries s).versions).map Version.id =
    (x.versions s).map ObjectMeta.versionID := by
  simp [entries, Versioned.History.versions, Entry.version, entry]

end Site

namespace VersionedKey

variable {e : Env} {x : Site e} {bm : BucketMeta} {s t : Disk} {h h' : List (Version Bytes)}
  {c : Command}

theorem nodup (inv : VersionedKey x bm s h) (ids : (h.map Version.id).Nodup) :
    ((x.versions s).map ObjectMeta.versionID).Nodup := by
  rw [← Site.map_id_entries, inv.entries, List.map_map]
  exact ids

/-! ### Steps -/

theorem stage (inv : VersionedKey x bm s h) {token : String} {payload : Bytes}
    (run : e.handleBlobPut token payload s = .ok () t) : VersionedKey x bm t h := by
  obtain ⟨frame, written, idle⟩ := wp_ok (handleBlobPut_wp token payload) run
  cases safe : Env.safeToken token with
  | false =>
    rw [idle safe]
    exact inv
  | true =>
    have area := area_stageCells (e := e) safe
    have frame' : Framed (x.cells ∅ (stageCells e token)) x.dirs s t :=
      frame.mono (fun q mem => .inr (.inr (.inr (.inr (.inr ⟨mem, area q mem⟩)))))
        fun q sub => .inr (.inr (.inr sub))
    have op : t.file x.op = s.file x.op :=
      frame.file _ fun mem => Env.data_not_area x.root_op (area _ mem) rfl
    have hp : t.file x.hp = s.file x.hp :=
      frame.file _ fun mem => Env.area_ne x.area_hp (area _ mem) (by decide) rfl
    refine ⟨inv.ready.framed frame', inv.sound.congr op hp,
      inv.payloads.stage safe frame (written safe), Site.Configured.framed inv.configured frame', ?_,
      inv.bodies⟩
    rw [Site.entries_congr op hp, inv.entries]
    intro v mem _
    have plain := inv.sound.shape.plainBlob v mem
    exact frame.file _ fun mem => Env.area_ne (x.area_blob plain) (area _ mem) (by decide) rfl

theorem put (inv : VersionedKey x bm s h) (on : bm.versioningEnabled = true)
    (ids : (h.map Version.id).Nodup) (addr : x.Addresses c)
    (safe : Env.safeToken c.blobToken = true) (id : Nameable c.versionID)
    (run : e.applyPutObject c s = .ok () t) :
    VersionedKey x bm t ({ id := c.versionID, body := e.staged s c.blobToken } :: h) := by
  obtain ⟨g, bytes, file, raw, staged⟩ :=
    inv.payloads.file safe (Site.applyPutObject_arrived run)
  have bucketMeta := inv.configured.bucketMetaForWrite
  have spec := wp_ok (Site.applyPutObject_wp inv.ready inv.sound addr (plain_of_safeToken safe)
    (fun _ => id) file) run
  rw [bucketMeta, on, raw] at spec
  obtain ⟨installed, gone, -⟩ := spec
  have fit := Site.fit_putMeta (e := e) bm addr fun _ => id
  have fresh := Site.fresh_of_nodup inv.sound (inv.nodup ids) true
  refine ⟨inv.ready.framed installed.frame, ?_, inv.payloads.cells installed.frame ?_,
    Site.Configured.framed inv.configured installed.frame, ?_,
    List.forall_mem_cons.mpr ⟨fun _ => by simp [staged], inv.bodies⟩⟩
  · exact installed.recorded.sound (fit.shape inv.sound) (History.Latest.prepended _ _)
      (by simp [History.prepended])
  · rintro q rfl
    exact gone
  · rw [installed.entries inv.sound fit fresh, Versioned.History.versions_put, inv.entries, staged,
      putMeta_versionID, Env.writeVersionID, if_pos on]
    rfl

theorem delete (inv : VersionedKey x bm s h) (on : bm.versioningEnabled = true)
    (ids : (h.map Version.id).Nodup) (addr : x.Addresses c)
    (unnamed : Env.explicitVersion c = false) (id : Nameable c.versionID)
    (run : e.applyDeleteObject c s = .ok () t) :
    VersionedKey x bm t ({ id := c.versionID, marker := true } :: h) := by
  have bucketMeta := inv.configured.bucketMetaForWrite
  rw [Site.applyDeleteObject_eq inv.ready inv.sound addr, bucketMeta, if_neg (by simp [on, id.1]),
    unnamed, if_neg (by simp), if_pos on] at run
  obtain ⟨t', run', marked⟩ := Site.deleteToMarker_spec (c := c) inv.ready inv.sound
  rw [run'] at run
  cases run
  have own : (e.marker c c.versionID).key = x.key := addr.2
  have fresh := Site.fresh_of_nodup inv.sound (inv.nodup ids) true
  refine ⟨inv.ready.framed marked.frame, ?_, inv.payloads.cells marked.frame (by simp),
    Site.Configured.framed inv.configured marked.frame, ?_,
    List.forall_mem_cons.mpr ⟨fun h => by simp at h, inv.bodies⟩⟩
  · exact marked.recorded.sound (Site.marker_shape inv.sound own id rfl)
      (History.Latest.prepended _ _) (by simp [History.prepended])
  · rw [marked.entries inv.sound own id rfl rfl fresh, Versioned.History.versions_mark, inv.entries]
    rfl

theorem amend (inv : VersionedKey x bm s h) (addr : x.Addresses c)
    (run : e.applyObjectMetaMutation c s = .ok () t) : VersionedKey x bm t h := by
  obtain ⟨vs, amended, ne, frame, content, file, recorded⟩ :=
    wp_ok (Site.applyObjectMetaMutation_wp inv.ready inv.sound addr) run
  have same := History.amendTarget_core amended
  have frame' : Framed (x.cells ∅ ∅) x.dirs s t := by
    refine (Site.record_frame frame).mono ?_ subset_rfl
    rintro q (rfl | rfl | rfl)
    · exact .inl rfl
    · exact .inr (.inr (.inl rfl))
    · exact .inr (.inr (.inr (.inl rfl)))
  have shape := inv.sound.shape.of_core same
  have latest := inv.sound.latest.of_core same
  have vs_ne : vs ≠ [] := by
    rintro rfl
    exact ne (List.map_eq_nil_iff.mp same.symm)
  refine ⟨inv.ready.framed frame', recorded.sound shape latest vs_ne,
    inv.payloads.cells frame' (by simp), Site.Configured.framed inv.configured frame', ?_, inv.bodies⟩
  rw [Site.entries_amended inv.sound same frame content recorded, inv.entries]

/-- One event of a successful run. -/
theorem step {ev : Event} (inv : VersionedKey x bm s h) (on : bm.versioningEnabled = true)
    (ids : (h.map Version.id).Nodup)
    (good : ∀ c, ev = .apply c → KeyCommand x.bucket x.key c)
    (id : ∀ i, ev.newID = some i → Nameable i) (run : e.handle ev s = .ok () t) :
    VersionedKey x bm t (e.created s ev ++ h) := by
  cases ev with
  | stage token payload => exact inv.stage run
  | apply c =>
    obtain ⟨bucket, key, op⟩ := good c rfl
    have addr : x.Addresses c := ⟨bucket, key⟩
    rcases op with ⟨op, safe⟩ | ⟨op, unnamed⟩ | op
    · have nameable : Nameable c.versionID := id _ (by simp [Event.newID, op])
      simp only [Env.handle, Env.applyDisk, op] at run
      simpa [Env.created, op] using inv.put on ids addr safe nameable run
    · have nameable : Nameable c.versionID := id _ (by simp [Event.newID, op])
      simp only [Env.handle, Env.applyDisk, op] at run
      simpa [Env.created, op] using inv.delete on ids addr unnamed nameable run
    · simp only [metadataOps, List.mem_cons, List.not_mem_nil, or_false] at op
      rcases op with op | op | op | op | op <;>
        (simp only [Env.handle, Env.applyDisk, op] at run
         simpa [Env.created, op] using inv.amend addr run)

theorem map_id_created (ev : Event) :
    (e.created s ev).map Version.id = ev.newID.toList := by
  cases ev with
  | stage token payload => rfl
  | apply c => cases h : c.op <;> simp [Env.created, Event.newID, h]

/-- A whole run: the ids it brings must be new to the history it starts from. -/
theorem run {evs : List Event} (inv : VersionedKey x bm s h) (on : bm.versioningEnabled = true)
    (good : ∀ c, Event.apply c ∈ evs → KeyCommand x.bucket x.key c)
    (id : ∀ i ∈ evs.filterMap Event.newID, Nameable i)
    (ids : (evs.filterMap Event.newID ++ h.map Version.id).Nodup)
    (done : e.runLogged evs s h = some (t, h')) :
    VersionedKey x bm t h' ∧ (h'.map Version.id).Nodup := by
  induction evs generalizing s h with
  | nil =>
    cases done
    exact ⟨inv, by simpa using ids⟩
  | cons ev evs ih =>
    unfold Env.runLogged at done
    split at done
    · rename_i s' step_run
      have older : (h.map Version.id).Nodup := (List.nodup_append.mp ids).2.1
      have inv' := inv.step on older (fun c eq => good c (by rw [eq]; exact List.mem_cons_self))
        (fun i new => id i (List.mem_filterMap.mpr ⟨ev, List.mem_cons_self, new⟩)) step_run
      refine ih inv' (fun c mem => good c (List.mem_cons_of_mem _ mem)) (fun i mem => ?_) ?_ done
      · obtain ⟨ev', mem', new⟩ := List.mem_filterMap.mp mem
        exact id i (List.mem_filterMap.mpr ⟨ev', List.mem_cons_of_mem _ mem', new⟩)
      · rw [List.map_append, map_id_created]
        cases new : ev.newID with
        | none => simpa [List.filterMap_cons, new] using ids
        | some i =>
          have moved : (evs.filterMap Event.newID ++ ([i] ++ h.map Version.id)).Perm
              ((ev :: evs).filterMap Event.newID ++ h.map Version.id) := by
            simp only [List.filterMap_cons, new, List.cons_append, List.nil_append]
            exact List.perm_middle
          simpa using moved.nodup_iff.mpr ids
    · cases done

/-! ### What the invariant shows -/

theorem map_sig (inv : VersionedKey x bm s h) :
    (x.versions s).map (fun v => (v.versionID, v.deleteMarker)) =
      h.map fun v => (v.id, v.marker) := by
  have := congrArg (List.map fun v : Version Content => (v.id, v.marker)) inv.entries
  simpa [Site.entries, Versioned.History.versions, Entry.version, Site.entry, Version.map,
    Function.comp_def] using this

theorem find_version {vs : List ObjectMeta} (nodup : (vs.map ObjectMeta.versionID).Nodup)
    {v : ObjectMeta} (mem : v ∈ vs) : vs.find? (fun w => w.versionID == v.versionID) = some v := by
  induction vs with
  | nil => cases mem
  | cons w rest ih =>
    rw [List.map_cons, List.nodup_cons] at nodup
    rcases List.mem_cons.mp mem with rfl | mem
    · simp
    · have ne : w.versionID ≠ v.versionID := fun eq =>
        nodup.1 (List.mem_map.mpr ⟨v, mem, eq.symm⟩)
      simp [ne, ih nodup.2 mem]

/-- Every version is served with its own bytes. -/
theorem served (inv : VersionedKey x bm s h) (ids : (h.map Version.id).Nodup) {v : Version Bytes}
    (mem : v ∈ h) (live : v.marker = false) :
    ∃ bytes res, v.body = some bytes ∧
      e.getObject s x.bucket x.key { versionID := v.id } = .ok res ∧ res.body = bytes := by
  obtain ⟨bytes, body⟩ := Option.isSome_iff_exists.mp (inv.bodies v mem live)
  -- the entry on disk that stands for the version
  have found : v.map Content.raw ∈ (x.entries s).versions := by
    rw [inv.entries]
    exact List.mem_map_of_mem mem
  obtain ⟨en, mem', eq⟩ := List.mem_map.mp found
  obtain ⟨w, memw, rfl⟩ := List.mem_map.mp mem'
  have sameID : w.versionID = v.id := congrArg Version.id eq
  have sameMark : w.deleteMarker = false := (congrArg Version.marker eq).trans live
  have sameBody : x.bodyAt s w = some (.raw bytes) := by
    have := congrArg Version.body eq
    simpa [Entry.version, Site.entry, sameMark, Version.map, body] using this
  have named : v.id ≠ "" := sameID ▸ inv.sound.shape.named w memw
  have nonempty : x.versions s ≠ [] := List.ne_nil_of_mem memw
  have resolved := Site.resolveVersion_named inv.ready inv.sound inv.configured.readBucketMeta named
  rw [if_neg nonempty, ← sameID, find_version (inv.nodup ids) memw, sameID] at resolved
  exact ⟨bytes, _, body, Site.getObject_of_resolve inv.sound resolved memw sameMark sameBody, rfl⟩

end VersionedKey

/-- The key reads as exactly the versions and markers `h`, newest first, each version with
its bytes. -/
structure Shows (e : Env) (s : Disk) (bucket key : String) (h : List (Version Bytes)) : Prop where
  absent : h = [] → e.readKeyMeta s bucket key = .error (.api errNoSuchKey)
  listed : h ≠ [] → ∃ km, e.readKeyMeta s bucket key = .ok km ∧
    km.versions.map (fun v => (v.versionID, v.deleteMarker)) = h.map (fun v => (v.id, v.marker)) ∧
    History.Latest km.versions
  once : (h.map Version.id).Nodup
  served : ∀ v ∈ h, v.marker = false → ∃ bytes res, v.body = some bytes ∧
    e.getObject s bucket key { versionID := v.id } = .ok res ∧ res.body = bytes

theorem VersionedKey.shows {e : Env} {x : Site e} {bm : BucketMeta} {s : Disk}
    {h : List (Version Bytes)} (inv : VersionedKey x bm s h) (ids : (h.map Version.id).Nodup) :
    Shows e s x.bucket x.key h := by
  have len : (x.versions s).length = h.length := by
    simpa using congrArg List.length inv.map_sig
  refine ⟨fun empty => ?_, fun ne => ?_, ids, fun v mem live => inv.served ids mem live⟩
  · refine Site.readKeyMeta_nil inv.ready inv.sound (List.eq_nil_of_length_eq_zero ?_)
    rw [len, empty, List.length_nil]
  · have nonempty : x.versions s ≠ [] := fun empty => by
      rw [empty] at len
      exact ne (List.eq_nil_of_length_eq_zero len.symm)
    obtain ⟨flag, read⟩ := Site.readKeyMeta_some inv.ready inv.sound nonempty
    exact ⟨_, read, inv.map_sig, inv.sound.latest⟩

/-- No version is lost. After any successful run of puts, deletions and metadata changes on
one key of a bucket that had versioning on from the start, the key shows every version and
marker the run created, provided the history check accepts the key like the object check
does and the bucket is not the parent directory. -/
theorem versioned_key_keeps_every_version {e : Env} {bucket key : String} {bm : BucketMeta}
    {s t : Disk} {evs : List Event} {h : List (Version Bytes)}
    (tame : Tame bucket) (object : ∃ op, e.objectPath bucket key = .ok op)
    (history : ∃ hp, e.historyPath bucket key = .ok hp)
    (configured : Configured e s bucket bm) (on : bm.versioningEnabled = true)
    (empty : EmptyBucket e bucket s) (payloads : Payloads e s)
    (commands : ∀ c, Event.apply c ∈ evs → KeyCommand bucket key c)
    (uuids : ∀ id ∈ evs.filterMap Event.newID, isUUID id = true)
    (distinct : (evs.filterMap Event.newID).Nodup)
    (run : e.runLogged evs s [] = some (t, h)) : Shows e t bucket key h := by
  obtain ⟨op, op_eq⟩ := object
  obtain ⟨hp, hp_eq⟩ := history
  let x : Site e := ⟨bucket, key, tame, op, hp, op_eq, hp_eq⟩
  have start : VersionedKey x bm s [] :=
    ⟨Site.ready_of_empty empty, Site.sound_of_empty empty, payloads, configured,
      by simp [Site.entries, (Site.versions_of_empty (x := x) empty).2.2, Versioned.History.versions],
      by simp⟩
  obtain ⟨inv, ids⟩ := start.run on commands (fun i mem => nameable_of_isUUID (uuids i mem))
    (by simpa using distinct) run
  exact inv.shows ids

/-- A bucket of the small deployment that has versioning on from its creation. -/
def lockedDisk : Disk :=
  final ((smallEnv false).applyDisk
    { op := .createBucket, bucket := "b", metaMap := [("object-lock", "true")] }) (smallDisk false)

def lockedMeta : BucketMeta :=
  (smallEnv false).newBucketMeta
    { op := .createBucket, bucket := "b", metaMap := [("object-lock", "true")] }

/-- A put, a deletion and a second put. -/
def putDeletePut : List Event :=
  [.stage "t1" [1], .stage "t2" [2],
   .apply { op := .putObject, bucket := "b", key := "k", versionID := uuid 1, blobToken := "t1" },
   .apply { op := .deleteObject, bucket := "b", key := "k", versionID := uuid 2 },
   .apply { op := .putObject, bucket := "b", key := "k", versionID := uuid 3, blobToken := "t2" }]

theorem versioned_key_keeps_put_delete_put :
    ∃ t, (smallEnv false).runLogged putDeletePut lockedDisk [] =
        some (t, [{ id := uuid 3, body := some [2] }, { id := uuid 2, marker := true },
          { id := uuid 1, body := some [1] }]) ∧
      Shows (smallEnv false) t "b" "k" [{ id := uuid 3, body := some [2] },
        { id := uuid 2, marker := true }, { id := uuid 1, body := some [1] }] := by
  refine ⟨_, rfl, @versioned_key_keeps_every_version (smallEnv false) "b" "k" lockedMeta lockedDisk
    _ putDeletePut _ (by decide) ⟨_, rfl⟩ ⟨_, rfl⟩ rfl (by decide)
    ⟨by decide +kernel, by decide +kernel, DirTree.get_none_of_dom (by decide +kernel)⟩
    (payloads_of_empty (by decide +kernel)) ?_ (by decide) (by decide) rfl⟩
  intro c mem
  simp only [putDeletePut, List.mem_cons, Event.apply.injEq, reduceCtorEq, List.not_mem_nil,
    or_false, false_or] at mem
  rcases mem with rfl | rfl | rfl
  · exact ⟨rfl, rfl, .inl ⟨rfl, by decide⟩⟩
  · exact ⟨rfl, rfl, .inr (.inl ⟨rfl, by decide⟩)⟩
  · exact ⟨rfl, rfl, .inl ⟨rfl, by decide⟩⟩

/-- The bucket `..`, with versioning on from its creation. -/
def parentDisk : Disk :=
  final (do
    sys (mkdirAll siblingEnv.root)
    Env.mkdirEach (Env.stateDirs.map fun d => siblingEnv.state.join d)
    siblingEnv.applyDisk
      { op := .createBucket, bucket := "..", metaMap := [("object-lock", "true")] } : M Unit)
    DirTree.bare

/-- Two puts to the file that has the configuration of `..`. -/
def putsOverConfig : List Event :=
  [.stage (uuid 1) [1], .apply { Small.put "state/buckets/...json" 1 with bucket := ".." },
   .stage (uuid 2) [2], .apply { Small.put "state/buckets/...json" 2 with bucket := ".." }]

/-- A key that leaves the bucket and comes back passes the object check only. Deleting it
under versioning succeeds and records no marker. In the bucket `..` a key can be the configuration
of the bucket: putting it turns versioning off. -/
theorem delete_of_unrecordable_key_leaves_no_marker :
    (((smallEnv false).objectPath "b" "../../data/b/x").toOption = some ["x", "b", "data"] ∧
      Configured (smallEnv false) lockedDisk "b" lockedMeta ∧ lockedMeta.versioningEnabled = true ∧
      ((smallEnv false).runLogged
          [.apply { op := .deleteObject, bucket := "b", key := "../../data/b/x", versionID := uuid 1 }]
          lockedDisk []).map
        (fun r => (r.2, (smallEnv false).readKeyMeta r.1 "b" "../../data/b/x")) =
        some ([{ id := uuid 1, marker := true }], .error (.api errInvalidKey))) ∧
    (siblingEnv.bucketMetaForWrite parentDisk "..").versioningEnabled = true ∧
    (siblingEnv.runLogged putsOverConfig parentDisk []).map (fun r => (r.2.map Version.id,
      (siblingEnv.readKeyMeta r.1 ".." "state/buckets/...json").toOption.map fun km =>
        km.versions.map ObjectMeta.versionID)) =
      some ([uuid 2, uuid 1], some ["null", uuid 1, "null"]) :=
  ⟨⟨by decide, rfl, by decide, by decide +kernel⟩, by decide +kernel, by decide +kernel⟩

end D9Store
