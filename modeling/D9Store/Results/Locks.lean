import D9Store.Keyspace.Run

/-!
Object lock.

No command looks at retention or legal hold before it takes a version away. `lost` is what a
command takes: the versions it removes, the null version it overwrites, and a last archived
version whose record disappears with the history file. A run in which no lost version is locked,
and in which no retention command weakens a compliance retention, keeps every locked version.
-/

namespace D9Store

open Posix FilePath

/-! ### Locks -/

/-- `t` is before `u`; the wall clock of an unstamped file is later than any recorded time. -/
def Stamp.before (t u : Stamp) : Bool :=
  match t, u with
  | .time t, .time u => decide (t < u)
  | .time _, .wall => true
  | .wall, _ => false

/-- Legal hold is on. -/
def ObjectMeta.onHold (v : ObjectMeta) : Bool := v.legalHold.any fun hold => hold.status == "ON"

/-- The version is locked at the time `m`. -/
def ObjectMeta.lockedAt (v : ObjectMeta) (m : Stamp) : Bool :=
  v.onHold || v.retention.any fun r => m.before r.retainUntil

/-- A compliance retention is in force at the time `m`. -/
def Retention.inForce (r : Retention) (m : Stamp) : Bool :=
  r.mode == "COMPLIANCE" && m.before r.retainUntil

/-- The retention `r'` keeps what `r` promises. -/
def Retention.keeps (r r' : Retention) : Bool :=
  r'.mode == "COMPLIANCE" && !r'.retainUntil.before r.retainUntil

/-- An entry without the fields that follow from where its bytes lie. -/
def ObjectMeta.record (v : ObjectMeta) : ObjectMeta :=
  { v with
    bucket := "", key := "", blobID := "", size := 0, lastModified := .time 0, isLatest := false
    legalHold := v.legalHold.filter fun hold => hold.status ≠ "" }

theorem lockedAt_of_record {v w : ObjectMeta} (same : w.record = v.record) (m : Stamp) :
    w.lockedAt m = v.lockedAt m := by
  have hold : ∀ v : ObjectMeta, v.onHold = v.record.legalHold.any fun hold => hold.status == "ON" := by
    intro v
    cases h : v.legalHold with
    | none => simp [ObjectMeta.onHold, ObjectMeta.record, h]
    | some hold =>
      by_cases empty : hold.status = "" <;>
        simp [ObjectMeta.onHold, ObjectMeta.record, h, Option.filter, empty]
  have retention : ∀ v : ObjectMeta, v.retention = v.record.retention := fun _ => rfl
  unfold ObjectMeta.lockedAt
  rw [hold v, hold w, retention v, retention w, same]

namespace History

/-! ### What a command takes away -/

/-- The version a write replaces without filing it. -/
def overwritten (enabled : Bool) : List ObjectMeta → List ObjectMeta
  | [] => []
  | cur :: _ => if Env.atKeyPath cur && !(enabled || cur.versionID != "null") then [cur] else []

/-- A single archived version: it needs no history file, and no object file tells of it. -/
def orphan : List ObjectMeta → List ObjectMeta
  | [v] => if !v.deleteMarker && v.blobID != "" then [v] else []
  | _ => []

/-- The live version at the head. -/
def liveHead : List ObjectMeta → List ObjectMeta
  | [] => []
  | cur :: _ => if cur.deleteMarker then [] else [cur]

/-- The version a metadata command changes. -/
def target (c : Command) (vs : List ObjectMeta) : Option ObjectMeta :=
  if c.versionID ≠ "" then vs.find? fun v => v.versionID == c.versionID else vs.head?

end History

/-- The versions a command removes or overwrites. -/
def Env.lost (e : Env) (s : Disk) (c : Command) (vs : List ObjectMeta) : List ObjectMeta :=
  match c.op with
  | .putObject | .copyObject | .completeMultipart =>
    History.overwritten (e.bucketMetaForWrite s c.bucket).versioningEnabled vs
  | .deleteObject =>
    if !Site.goesAhead e s c then []
    else if Env.explicitVersion c then
      History.removedBy c.versionID vs ++ History.orphan (History.taken c.versionID vs)
    else if (e.bucketMetaForWrite s c.bucket).versioningEnabled then []
    else if (e.bucketMetaForWrite s c.bucket).versioning = "Suspended" then History.liveHead vs
    else History.liveHead vs ++ History.orphan (History.marked (History.dropped vs))
  | _ => []

/-- A retention command changes `v` for the worse. -/
def Env.weakens (e : Env) (c : Command) (v : ObjectMeta) : Bool :=
  c.op == .putObjectRetention && v.retention.any fun r =>
    r.inForce (e.mtime c) && (e.unmarshalRetention c.config).any fun r' => !r.keeps r'

/-- The command changes metadata only. -/
def Op.amends : Op → Bool
  | .putObjectAcl | .putObjectTagging | .deleteObjectTag | .putObjectRetention
  | .putObjectLegalHold => true
  | _ => false

namespace Site

variable {e : Env} {x : Site e} {s t u : Disk} {c c' : Command} {v nv : ObjectMeta}
    {vs ds vs' : List ObjectMeta} {enabled suspended : Bool} {vid : String}

/-- The command takes no locked version away and weakens no compliance retention. -/
def Lawful (x : Site e) (s : Disk) (c : Command) : Prop :=
  (∀ v ∈ e.lost s c (x.versions s), v.lockedAt (e.mtime c) = false) ∧
    ∀ v ∈ History.target c (x.versions s), e.weakens c v = false

instance : Decidable (x.Lawful s c) := by
  unfold Lawful; infer_instance

/-- The step leaves the version `v` its bytes, its entry and its compliance retention. -/
def Holds (x : Site e) (s t : Disk) (c : Command) (v : ObjectMeta) : Prop :=
  ∃ w ∈ x.versions t, w.versionID = v.versionID ∧ w.deleteMarker = false ∧
    x.bodyAt t w = x.bodyAt s v ∧ (c.op.amends = false → w.record = v.record) ∧
    ∀ r ∈ v.retention, r.inForce (e.mtime c) = true → ∃ r' ∈ w.retention, r.keeps r' = true

/-- Every locked version is left alone. -/
def LocksHold (x : Site e) (s t : Disk) (c : Command) : Prop :=
  ∀ v ∈ x.versions s, v.deleteMarker = false → v.lockedAt (e.mtime c) = true → x.Holds s t c v

/-! ### Entries that stay -/

theorem before_irrefl (m : Stamp) : m.before m = false := by
  cases m <;> simp [Stamp.before]

/-- An entry with the same record and bytes will do. -/
theorem holds_of_record {w : ObjectMeta} (mem : w ∈ x.versions t) (same : w.record = v.record)
    (live : v.deleteMarker = false) (body : x.bodyAt t w = x.bodyAt s v) : x.Holds s t c v := by
  have marker : w.record.deleteMarker = v.record.deleteMarker := by rw [same]
  have id : w.record.versionID = v.record.versionID := by rw [same]
  have retention : w.record.retention = v.record.retention := by rw [same]
  refine ⟨w, mem, id, marker.trans live, body, fun _ => same, fun r mem force => ?_⟩
  refine ⟨r, retention.trans mem, ?_⟩
  simp only [Retention.inForce, Bool.and_eq_true] at force
  simp [Retention.keeps, before_irrefl, force.1]

theorem record_readBack (f : File) (named : v.versionID ≠ "") (live : v.deleteMarker = false) :
    (x.readBack f v).record = v.record := by
  simp [ObjectMeta.record, readBack, named, live, Option.filter_filter]

/-- A recorded entry is found again, unless it is the last one and archived. -/
theorem Recorded.found (h : x.Recorded vs t) (mem : v ∈ vs) (named : v.versionID ≠ "")
    (kept : v ∉ History.orphan vs) :
    ∃ w ∈ x.versions t, w.record = v.record ∧ x.bodyAt t w = x.bodyAt t v := by
  rcases h.cases with ⟨-, eq⟩ | ⟨u, f, rfl, here, file, eq⟩ | ⟨u, rfl, live, blob, eq⟩
  · exact ⟨v, by rwa [eq], rfl, rfl⟩
  · obtain rfl := List.mem_singleton.mp mem
    obtain ⟨blob, live⟩ := History.atKeyPath_iff.mp here
    refine ⟨x.readBack f v, by rw [eq]; exact List.mem_singleton_self _,
      record_readBack f named live, ?_⟩
    simp [bodyAt, readBack, live, blob]
  · obtain rfl := List.mem_singleton.mp mem
    exact absurd (by simp [History.orphan, live, blob]) kept

/-- The entries of a history stay what they are when it makes way for a new one. -/
theorem displaced_image (mem : v ∈ x.versions s)
    (kept : v ∉ History.overwritten enabled (x.versions s))
    (bodies : (History.displaced enabled (x.versions s)).map (x.entry t) =
      Versioned.History.displaced enabled (x.entries s)) :
    ∃ d ∈ History.displaced enabled (x.versions s), d.record = v.record ∧
      d.versionID = v.versionID ∧ x.bodyAt t d = x.bodyAt s v := by
  unfold entries at bodies
  cases list : x.versions s with
  | nil =>
    rw [list] at mem
    cases mem
  | cons cur rest =>
    rw [list] at mem kept bodies
    have guard : (cur.deleteMarker || cur.blobID != "") = !Env.atKeyPath cur := by
      simp [Env.atKeyPath, Bool.or_comm, bne]
    have id : (x.entry s cur).id = cur.versionID := rfl
    simp only [History.displaced, guard, List.map_cons, Versioned.History.displaced,
      entry_here, id] at bodies ⊢
    by_cases here : Env.atKeyPath cur = true
    · simp only [here, Bool.not_true, Bool.false_eq_true, if_false] at bodies ⊢
      split
      · rename_i files
        rw [if_pos files, if_pos files] at bodies
        simp only [List.map_cons, List.cons.injEq, List.map_inj_left] at bodies
        rcases List.mem_cons.mp mem with rfl | behind
        · exact ⟨_, List.mem_cons_self, rfl, rfl, congrArg Versioned.Entry.body bodies.1⟩
        · exact ⟨v, List.mem_cons_of_mem _ behind, rfl, rfl,
            congrArg Versioned.Entry.body (bodies.2 v behind)⟩
      · rename_i drops
        rw [if_neg drops, if_neg drops] at bodies
        rw [List.map_inj_left] at bodies
        rcases List.mem_cons.mp mem with rfl | behind
        · exact absurd (by simp_all [History.overwritten]) kept
        · exact ⟨v, behind, rfl, rfl, congrArg Versioned.Entry.body (bodies v behind)⟩
    · simp only [here, Bool.not_false, if_true, List.map_cons, List.cons.injEq,
        List.map_inj_left] at bodies ⊢
      rcases List.mem_cons.mp mem with rfl | behind
      · exact ⟨v, List.mem_cons_self, rfl, rfl, congrArg Versioned.Entry.body bodies.1⟩
      · exact ⟨v, List.mem_cons_of_mem _ behind, rfl, rfl,
          congrArg Versioned.Entry.body (bodies.2 v behind)⟩

theorem record_named {w : ObjectMeta} (same : w.record = v.record) : w.versionID = v.versionID := by
  have eq : w.record.versionID = v.record.versionID := by rw [same]
  exact eq

/-- A recorded entry with the record and the bytes of `v` leaves `v` alone. -/
theorem Recorded.holds {d : ObjectMeta} (h : x.Recorded vs t) (mem : d ∈ vs)
    (same : d.record = v.record) (body : x.bodyAt t d = x.bodyAt s v) (named : v.versionID ≠ "")
    (live : v.deleteMarker = false) (kept : d ∉ History.orphan vs) : x.Holds s t c v := by
  obtain ⟨w, found, eq, bodies⟩ := h.found mem (by rwa [record_named same]) kept
  exact holds_of_record found (eq.trans same) live (bodies.trans body)

/-- What comes in front of a history leaves its entries alone. -/
theorem holds_of_prepended {d : ObjectMeta} (recorded : x.Recorded (History.prepended nv ds) t)
    (mem : d ∈ ds) (same : d.record = v.record) (body : x.bodyAt t d = x.bodyAt s v)
    (named : v.versionID ≠ "") (live : v.deleteMarker = false) : x.Holds s t c v := by
  have behind : { d with isLatest := false } ∈ History.prepended nv ds :=
    List.mem_cons_of_mem _ (List.mem_map.mpr ⟨d, mem, rfl⟩)
  refine recorded.holds behind same body named live ?_
  obtain ⟨first, rest, rfl⟩ := List.exists_cons_of_ne_nil (List.ne_nil_of_mem mem)
  simp [History.prepended, History.orphan]

theorem Installed.holds {bytes : Content} {S : Set FilePath}
    (h : x.Installed enabled nv bytes S s t) (standing : x.Standing s)
    (free : x.Displaceable enabled s) (mem : v ∈ x.versions s) (live : v.deleteMarker = false)
    (kept : v ∉ History.overwritten enabled (x.versions s)) : x.Holds s t c v := by
  have bodies := map_entry_displaced standing.sound h.frame h.archived (fresh_of_free standing free)
  obtain ⟨d, found, same, -, body⟩ := displaced_image mem kept bodies
  exact holds_of_prepended h.recorded found same body (standing.sound.shape.named v mem) live

theorem Marked.holds (h : x.Marked true nv s t) (standing : x.Standing s)
    (free : x.Displaceable true s) (mem : v ∈ x.versions s) (live : v.deleteMarker = false) :
    x.Holds s t c v := by
  have bodies := map_entry_displaced standing.sound h.frame h.archived (fresh_of_free standing free)
  have kept : v ∉ History.overwritten true (x.versions s) := by
    cases x.versions s <;> simp [History.overwritten]
  obtain ⟨d, found, same, -, body⟩ := displaced_image mem kept bodies
  exact holds_of_prepended h.recorded found same body (standing.sound.shape.named v mem) live

/-- Files that stay keep what holds. -/
theorem Holds.congr (h : x.Holds s u c v) (op : t.file x.op = u.file x.op)
    (hp : t.file x.hp = u.file x.hp) (blob : ∀ w ∈ x.versions u, w.blobID ≠ "" →
      t.file (x.blob w.blobID) = u.file (x.blob w.blobID)) : x.Holds s t c v := by
  obtain ⟨w, mem, id, live, body, same, force⟩ := h
  refine ⟨w, by rwa [versions_congr op hp], id, live, ?_, same, force⟩
  rw [bodyAt_congr op (blob w mem), body]

/-! ### Deletions -/

theorem Taken.holds (h : x.Taken vid s t) (sound : x.Sound s) (mem : v ∈ x.versions s)
    (live : v.deleteMarker = false) (other : v.versionID ≠ vid)
    (kept : ∀ d ∈ History.orphan (History.taken vid (x.versions s)), d.record ≠ v.record) :
    x.Holds s t c v := by
  have named := sound.shape.named v mem
  have left : v ∈ History.keptBy vid (x.versions s) :=
    List.mem_filter.mpr ⟨mem, by simpa using other⟩
  obtain ⟨first, rest, list⟩ := List.exists_cons_of_ne_nil (List.ne_nil_of_mem left)
  -- Either way the list that is recorded differs from the kept one in its head's place only.
  obtain ⟨head, taken, same⟩ : ∃ head, History.taken vid (x.versions s) = head :: rest ∧
      head.record = first.record := by
    unfold History.taken
    rw [list]
    split
    · exact ⟨_, rfl, rfl⟩
    · exact ⟨_, rfl, rfl⟩
  have spared : ∀ d, d.record = v.record → d ∉ History.orphan (History.taken vid (x.versions s)) :=
    fun d eq mem => kept d mem eq
  rw [list] at left
  rcases List.mem_cons.mp left with rfl | behind
  · exact h.recorded.holds (by rw [taken]; exact List.mem_cons_self) same
      (h.head v rest list head rest taken) named live (spared head same)
  · refine h.recorded.holds (by rw [taken]; exact List.mem_cons_of_mem _ behind) rfl
      (h.tail v ?_) named live (spared v rfl)
    rw [list]
    exact behind

/-- Only the live head can be dropped. -/
theorem mem_dropped (mem : v ∈ vs) (live : v.deleteMarker = false) (kept : v ∉ History.liveHead vs) :
    v ∈ History.dropped vs := by
  cases vs with
  | nil => cases mem
  | cons cur rest =>
    have behind : v ∈ rest := by
      rcases List.mem_cons.mp mem with rfl | behind
      · exact absurd (by simp [History.liveHead, live]) kept
      · exact behind
    simp only [History.dropped]
    split
    · exact List.mem_cons_of_mem _ behind
    · split
      · exact behind
      · exact List.mem_cons_of_mem _ behind

theorem deleteNull_holds (standing : x.Standing s)
    (safe : (Versioned.Act.deleteNull (β := Content) false).spoils (x.entries s) = false)
    (frame : Framed (x.cells {id | History.droppedBlob (x.versions s) = some id} ∅) x.dirs s t)
    (recorded : x.Recorded (History.nulled suspended (e.marker c "null") (x.versions s)) t)
    (mem : v ∈ x.versions s) (live : v.deleteMarker = false)
    (kept : v ∉ History.liveHead (x.versions s))
    (spared : suspended = false → ∀ d ∈ History.orphan (History.marked
      (History.dropped (x.versions s))), d.record ≠ v.record) : x.Holds s t c v := by
  have sound := standing.sound
  have named := sound.shape.named v mem
  have left := mem_dropped mem live kept
  have safe : ∀ suspended, (Versioned.Act.deleteNull (β := Content) suspended).spoils
      (x.entries s) = false :=
    fun suspended => (Versioned.Act.spoils_deleteNull suspended false _).trans safe
  obtain ⟨away, out⟩ := droppedBlob_out sound standing.nodup safe left
  have body := bodyAt_framed frame (sound.shape.plainBlob v mem) away out
  cases suspended with
  | true => exact holds_of_prepended recorded left rfl body named live
  | false =>
    have spared := spared rfl
    obtain ⟨first, rest, list⟩ := List.exists_cons_of_ne_nil (List.ne_nil_of_mem left)
    simp only [History.nulled, Bool.false_eq_true, if_false] at recorded
    rw [list] at recorded left spared
    rcases List.mem_cons.mp left with rfl | behind
    · exact recorded.holds (d := { v with isLatest := true }) List.mem_cons_self rfl body named live
        fun mem => spared _ mem rfl
    · exact recorded.holds (List.mem_cons_of_mem _ behind) rfl body named live
        fun mem => spared v mem rfl

/-! ### Metadata -/

/-- `w` is `v` after the command, and only a retention command on its target changes the
retention. -/
structure Amended (e : Env) (c : Command) (aim : Option ObjectMeta) (v w : ObjectMeta) : Prop where
  core : History.core w = History.core v
  retention : w.retention = v.retention ∨
    (c.op = .putObjectRetention ∧ v ∈ aim ∧ w.retention = e.unmarshalRetention c.config ∧
      w.retention ≠ none)

theorem Amended.refl (aim : Option ObjectMeta) (v : ObjectMeta) : Amended e c aim v v :=
  ⟨rfl, .inl rfl⟩

theorem amended_mutate {w : ObjectMeta} (h : e.mutate c v = .ok w) : Amended e c (some v) v w := by
  refine ⟨History.mutate_core h, ?_⟩
  unfold Env.mutate at h
  split at h
  all_goals first
    | (rename_i op
       split at h
       · rename_i r found
         cases h
         first
           | exact .inl rfl
           | exact .inr ⟨op, rfl, found.symm, by simp⟩
       · cases h)
    | (cases h; exact .inl rfl)

theorem amended_version (h : Env.amendVersion (e.mutate c) vid vs = .ok vs') (mem : v ∈ vs) :
    ∃ w ∈ vs', Amended e c (vs.find? fun u => u.versionID == vid) v w := by
  induction vs generalizing vs' with
  | nil => cases mem
  | cons u rest ih =>
    simp only [Env.amendVersion] at h
    split at h
    · rename_i named
      obtain ⟨w, mutated, eq⟩ := except_bind_ok h
      cases eq
      rw [List.find?_cons_of_pos (by simpa using named)]
      rcases List.mem_cons.mp mem with rfl | behind
      · exact ⟨w, List.mem_cons_self, amended_mutate mutated⟩
      · exact ⟨v, List.mem_cons_of_mem _ behind, Amended.refl _ v⟩
    · rename_i other
      obtain ⟨rest', amended, eq⟩ := except_bind_ok h
      cases eq
      rw [List.find?_cons_of_neg (by simpa using other)]
      rcases List.mem_cons.mp mem with rfl | behind
      · exact ⟨v, List.mem_cons_self, Amended.refl _ v⟩
      · obtain ⟨w, found, image⟩ := ih amended behind
        exact ⟨w, List.mem_cons_of_mem _ found, image⟩

theorem amended_target (h : e.amendTarget c vs = .ok vs') (mem : v ∈ vs) :
    ∃ w ∈ vs', Amended e c (History.target c vs) v w := by
  unfold Env.amendTarget at h
  unfold History.target
  split at h
  · rename_i named
    rw [if_pos named]
    exact amended_version h mem
  · rename_i unnamed
    rw [if_neg unnamed]
    cases vs with
    | nil => cases mem
    | cons u rest =>
      simp only [Env.amendLatest] at h
      split at h
      · cases h
      · obtain ⟨w, mutated, eq⟩ := except_bind_ok h
        cases eq
        rcases List.mem_cons.mp mem with rfl | behind
        · exact ⟨w, List.mem_cons_self, amended_mutate mutated⟩
        · exact ⟨v, List.mem_cons_of_mem _ behind, Amended.refl _ v⟩

/-- A sound history is no single archived version. -/
theorem orphan_nil (sound : x.Sound s) : History.orphan (x.versions s) = [] := by
  have settled := settle_entries sound
  unfold entries at settled
  unfold History.orphan
  split
  · rename_i v list
    rw [list] at settled
    split
    · rename_i archived
      simp [Versioned.History.settle, entry, archived] at settled
    · rfl
  · rfl

theorem orphan_of_core (same : vs'.map History.core = vs.map History.core)
    (none : History.orphan vs = []) : History.orphan vs' = [] := by
  have long : vs'.length = vs.length := by
    have lengths := congrArg List.length same
    simpa using lengths
  by_cases single : vs'.length = 1
  · obtain ⟨w, rfl⟩ := List.length_eq_one_iff.mp single
    obtain ⟨v, rfl⟩ := List.length_eq_one_iff.mp (long.symm.trans single)
    have eq : History.core w = History.core v := by simpa using same
    have blob : (History.core w).blobID = (History.core v).blobID := by rw [eq]
    have marker : (History.core w).deleteMarker = (History.core v).deleteMarker := by rw [eq]
    simp only [History.core] at blob marker
    simp only [History.orphan] at none ⊢
    rw [blob, marker]
    split at none
    · cases none
    · rename_i here
      rw [if_neg here]
  · unfold History.orphan
    split
    · exact absurd rfl single
    · rfl

theorem meta_holds (standing : x.Standing s) (addr : x.Addresses c) (amends : c.op.amends = true)
    (run : e.applyObjectMetaMutation c s = .ok () t) (mem : v ∈ x.versions s)
    (live : v.deleteMarker = false)
    (lawful : ∀ v ∈ History.target c (x.versions s), e.weakens c v = false) : x.Holds s t c v := by
  have sound := standing.sound
  obtain ⟨vs, amended, -, frame, op, -, recorded⟩ :=
    wp_ok (applyObjectMetaMutation_wp standing.ready sound addr) run
  have same := History.amendTarget_core amended
  obtain ⟨w, found, image⟩ := amended_target amended mem
  have id : (History.core w).versionID = (History.core v).versionID := by rw [image.core]
  have marker : (History.core w).deleteMarker = (History.core v).deleteMarker := by rw [image.core]
  have named : w.versionID ≠ "" := by
    rw [show w.versionID = v.versionID from id]
    exact sound.shape.named v mem
  obtain ⟨u, there, eq, bodies⟩ := recorded.found found named
    (by rw [orphan_of_core same (orphan_nil sound)]; exact List.not_mem_nil)
  have plain := sound.shape.plainBlob v mem
  have body : x.bodyAt t v = x.bodyAt s v := by
    have out : x.blob v.blobID ∉ ({x.op, x.hp, Env.jsonTmp x.hp} : Set FilePath) := by
      simp [Ne.symm (x.op_ne_blob plain), Ne.symm (x.hp_ne_blob plain),
        Env.area_ne (x.area_blob plain) x.area_hpTmp (by decide)]
    simp only [bodyAt, op, content_of_file_eq ((record_frame frame).file _ out)]
  have retention : u.record.retention = w.record.retention := by rw [eq]
  have live' : u.record.deleteMarker = w.record.deleteMarker := by rw [eq]
  refine ⟨u, there, (record_named eq).trans id, live'.trans (marker.trans live), ?_, ?_, ?_⟩
  · rw [bodies, ← body]
    exact congrArg Versioned.Entry.body (entry_of_core (x := x) (s := t) image.core)
  · simp [amends]
  · intro r held force
    rw [show u.retention = w.retention from retention]
    rcases image.retention with same | ⟨op, aim, new, some⟩
    · refine ⟨r, same.trans held, ?_⟩
      simp only [Retention.inForce, Bool.and_eq_true] at force
      simp [Retention.keeps, before_irrefl, force.1]
    · obtain ⟨r', eq'⟩ := Option.ne_none_iff_exists'.mp some
      refine ⟨r', eq', ?_⟩
      have weak := lawful v aim
      have config : e.unmarshalRetention c.config = Option.some r' := new.symm.trans eq'
      have held : v.retention = Option.some r := held
      simpa [Env.weakens, op, held, force, config] using weak

/-! ### Commands -/

/-- A locked version is not among the lost ones. -/
theorem Lawful.spares (lawful : x.Lawful s c) {d : ObjectMeta}
    (locked : v.lockedAt (e.mtime c) = true) (same : d.record = v.record) :
    d ∉ e.lost s c (x.versions s) := by
  intro mem
  have free := lawful.1 d mem
  rw [lockedAt_of_record same, locked] at free
  cases free

section Applied

variable (standing : x.Standing s) (addr : x.Addresses c) (lawful : x.Lawful s c)
include standing addr lawful

theorem put_locks (fair : x.Fair s c) (op : c.op = .putObject)
    (staging : ∀ token, Plain token → s.get (e.stagingPath token) ≠ some .dir)
    (run : e.applyPutObject c s = .ok () t) : x.LocksHold s t c := by
  intro v mem live locked
  simp only [Fair, op] at fair
  have spared := lawful.spares locked rfl
  rw [Env.lost, op, addr.1] at spared
  cases staged : s.get (e.stagingPath c.blobToken) with
  | none =>
    rw [applyPutObject_missing staged] at run
    cases run
  | some node =>
    cases node with
    | dir => exact absurd staged (staging _ fair.1)
    | file g =>
      have installed := (wp_ok (applyPutObject_wp standing.ready standing.sound addr fair.1
        fair.2.1 (DirTree.file_eq_some.mpr staged)) run).1
      exact installed.holds standing fair.2.2 mem live spared

theorem copy_locks (fair : x.Fair s c) (op : c.op = .copyObject)
    (run : e.applyCopyObject c s = .ok () t) : x.LocksHold s t c := by
  intro v mem live locked
  simp only [Fair, op] at fair
  obtain ⟨writable, copyable⟩ := fair
  have spared := lawful.spares locked rfl
  rw [Env.lost, op, addr.1] at spared
  cases source : copySource e s c with
  | error err => exact (wp_ok (applyCopyObject_refused source) run).elim
  | ok pair =>
    obtain ⟨src, p⟩ := pair
    obtain ⟨file, apart, stays⟩ := copyable (src, p) (by rw [source]; rfl)
    obtain ⟨g, file⟩ := Option.isSome_iff_exists.mp file
    have kept : p ∉ x.displacedCells (History.archivedID
        (e.bucketMetaForWrite s x.bucket).versioningEnabled (x.versions s)) := by
      rintro ⟨id, arch, h | h | h⟩
      · exact (stays id arch).1 h
      · exact (stays id arch).2.1 h
      · exact (stays id arch).2.2 h
    have installed := wp_ok (applyCopyObject_wp standing.ready standing.sound addr writable.1
      source file apart kept) run
    exact installed.holds standing writable.2 mem live spared

theorem complete_locks (proper : x.Proper) (fair : x.Fair s c) (op : c.op = .completeMultipart)
    (run : e.applyCompleteMultipart c s = .ok () t) : x.LocksHold s t c := by
  intro v mem live locked
  simp only [Fair, op] at fair
  obtain ⟨token, upload, writable⟩ := fair
  have spared := lawful.spares locked rfl
  rw [Env.lost, op, addr.1] at spared
  obtain ⟨mp, parts, total, u, -, installed, cleanup, -⟩ :=
    wp_ok (applyCompleteMultipart_wp standing.ready standing.sound addr writable.1 token
      (parts_apart token upload)) run
  have cleaned := wp_ok (Env.cleanupUpload_wp x.bucket upload) cleanup
  have sound := (installed.acts standing.sound (fit_completeMeta _ mp parts total addr writable.1)
    (fresh_of_free standing writable.2)).sound
  have out : ∀ q ∈ e.cleanupCells x.bucket c.uploadID, x.Safe q ∧ q ≠ Env.tmpOf x.op ∧
      ∀ id, '/' ∉ id.toList → x.blob id ≠ q := fun q mem => cleanup_out proper upload.2 mem
  refine (installed.holds standing writable.2 mem live spared).congr
    (cleaned.file _ fun mem => (out _ mem).1.1 rfl) (cleaned.file _ fun mem => (out _ mem).1.2.1 rfl)
    fun w found _ => cleaned.file _ fun mem => ?_
  exact (out _ mem).2.2 _ (sound.shape.plainBlob w found) rfl

theorem delete_locks (fair : x.Fair s c) (op : c.op = .deleteObject)
    (run : e.applyDeleteObject c s = .ok () t) : x.LocksHold s t c := by
  intro v mem live locked
  have sound := standing.sound
  have spares : ∀ d : ObjectMeta, d.record = v.record → d ∉ e.lost s c (x.versions s) :=
    fun d same => lawful.spares locked same
  simp only [Fair, op] at fair
  have known : x.versions s ≠ [] := List.ne_nil_of_mem mem
  have ahead : goesAhead e s c = true :=
    (goesAhead_iff standing addr).mpr fun h => known h.1
  have deletable := fair ahead
  rw [applyDeleteObject_eq standing.ready sound addr, if_neg fun h => known h.1] at run
  simp only [Env.lost, op, ahead, addr.1, Bool.not_true, Bool.false_eq_true, if_false] at spares
  split at deletable
  · rename_i explicit
    rw [if_pos explicit] at run
    simp only [explicit, if_true] at spares
    have other : v.versionID ≠ c.versionID := fun eq =>
      spares v rfl (List.mem_append_left _ (List.mem_filter.mpr ⟨mem, by simpa using eq⟩))
    have left : History.keptBy c.versionID (x.versions s) ≠ [] :=
      List.ne_nil_of_mem (List.mem_filter.mpr ⟨mem, by simpa using other⟩)
    have taken : x.Taken c.versionID s t := by
      by_cases head : (History.removedBy c.versionID (x.versions s)).any Env.atKeyPath = true
      · obtain ⟨t', run', taken⟩ := deleteVersion_head standing.ready sound addr
          (backed_iff.mp standing.backed) standing.tmp left head fun v rest kept filed =>
            kept_distinct standing.nodup kept filed
        cases run.symm.trans run'
        exact taken
      · obtain ⟨t', run', taken⟩ := deleteVersion_behind standing.ready sound addr left
          (by simpa using head)
        cases run.symm.trans run'
        exact taken
    exact taken.holds sound mem live other fun d found same =>
      spares d same (List.mem_append_right _ found)
  · rename_i implicit
    rw [if_neg implicit] at run
    simp only [Bool.eq_false_iff.mpr implicit, Bool.false_eq_true, if_false] at spares
    split at deletable
    · rename_i enabled
      rw [if_pos enabled] at run
      obtain ⟨t', run', marked⟩ := deleteToMarker_spec (c := c) standing.ready sound
      cases run.symm.trans run'
      exact marked.holds standing deletable.2 mem live
    · rename_i plain
      rw [if_neg plain] at run
      simp only [Bool.eq_false_iff.mpr plain, Bool.false_eq_true, if_false] at spares
      have kept : v ∉ History.liveHead (x.versions s) := fun found => by
        refine spares v rfl ?_
        split
        · exact found
        · exact List.mem_append_left _ found
      have left : v ∈ History.dropped (x.versions s) := mem_dropped mem live kept
      have full : History.nulled (decide ((e.bucketMetaForWrite s x.bucket).versioning =
          "Suspended")) (e.marker c "null") (x.versions s) ≠ [] := by
        unfold History.nulled
        split
        · exact List.cons_ne_nil _ _
        · exact fun empty => List.ne_nil_of_mem left (History.marked_eq_nil.mp empty)
      obtain ⟨t', run', frame, -, -, -, recorded⟩ :=
        deleteNull_kept (e.bucketMetaForWrite s x.bucket) rfl standing.ready sound addr full
      cases run.symm.trans run'
      refine deleteNull_holds standing deletable frame recorded mem live kept fun off d found same => ?_
      refine spares d same ?_
      rw [if_neg (by simpa using off)]
      exact List.mem_append_right _ found

/-- A successful object command leaves the locked versions of its key alone. -/
theorem applied_locks (proper : x.Proper) (object : onKey c.op = true) (fair : x.Fair s c)
    (staging : ∀ token, Plain token → s.get (e.stagingPath token) ≠ some .dir)
    (run : e.applyDisk c s = .ok () t) : x.LocksHold s t c := by
  unfold Env.applyDisk at run
  cases op : c.op <;> simp only [op, onKey, Bool.false_eq_true] at object run
  case putObject => exact put_locks standing addr lawful fair op staging run
  case deleteObject => exact delete_locks standing addr lawful fair op run
  case copyObject => exact copy_locks standing addr lawful fair op run
  case completeMultipart => exact complete_locks standing addr lawful proper fair op run
  all_goals
    intro v mem live _
    exact meta_holds standing addr (by rw [op]; rfl) run mem live lawful.2

end Applied

/-- A key whose files rest keeps its locks. -/
theorem locks_of_files (op : t.file x.op = s.file x.op) (hp : t.file x.hp = s.file x.hp)
    (blob : ∀ v ∈ x.versions s, v.blobID ≠ "" →
      t.file (x.blob v.blobID) = s.file (x.blob v.blobID)) : x.LocksHold s t c := by
  intro v mem live _
  exact holds_of_record (by rwa [versions_congr op hp]) rfl live (bodyAt_congr op (blob v mem))

theorem Rests.locks (h : x.Rests s t) : x.LocksHold s t c := locks_of_files h.op h.hp h.blob

theorem locks_deleteBucket (standing : x.Standing s) (proper : x.Proper) (plain : Plain c'.bucket) :
    x.LocksHold s (final (e.applyDeleteBucket c') s) c := by
  rcases Env.applyDeleteBucket_final (e := e) s c' with same | ⟨walk, dir, frame, -⟩
  · rw [same]
    exact locks_of_files rfl rfl fun _ _ _ => rfl
  · by_cases own : c'.bucket = x.bucket
    · rw [own] at walk dir
      obtain ⟨op, hp⟩ := gone_of_empty walk dir
      intro v mem
      rw [versions_nil op hp] at mem
      cases mem
    · refine locks_of_files (frame.file _ fun mem => (bucketFiles_out plain proper own mem).1.1 rfl)
        (frame.file _ fun mem => (bucketFiles_out plain proper own mem).1.2.1 rfl)
        fun v mem _ => frame.file _ fun found => ?_
      exact (bucketFiles_out plain proper own found).2 _
        (standing.sound.shape.plainBlob v mem) rfl

end Site

/-! ### Whole runs -/

variable {e : Env} {keys : List (Site e)} {s t : Disk}

/-- The command is lawful on the key it addresses. -/
def Lawfully (keys : List (Site e)) (s : Disk) : Input → Prop
  | .command c => ∀ x ∈ keys, x.Addresses c → x.Lawful s c
  | _ => True

instance (i : Input) : Decidable (Lawfully keys s i) :=
  match i with
  | .command _ => by unfold Lawfully; infer_instance
  | .blob .. | .part .. => inferInstanceAs (Decidable True)

/-- An applied command leaves every locked version alone. -/
def LocksKept (keys : List (Site e)) (s : Disk) : Input → Prop
  | .command c => ∀ x ∈ keys, x.LocksHold s (final (e.take (.command c)) s) c
  | _ => True

theorem Keyspace.locks (apart : Apart keys) (inv : Keyspace keys s) {c : Command}
    (lawful : Lawfully keys s (.command c)) (h : Step keys s t (.command c)) :
    ∀ y ∈ keys, y.LocksHold s t c := by
  intro y hy
  have standing := inv.standing y hy
  have proper := apart.proper y hy
  cases h with
  | @acts x _ hx addr object fair run acts =>
    by_cases same : y = x
    · subst same
      exact Site.applied_locks standing addr (lawful y hy addr) proper object fair inv.staging run
    · have sane := Site.sane_of_fair (inv.standing x hx) addr fair
      exact (Site.Acts.rests apart inv hx hy (Ne.symm same) sane acts
        (besides_aside addr fair)).locks
  | failed hx addr no failed => exact (Site.Failed.rests apart inv hx hy failed).locks
  | emptied op plain last =>
    rw [last]
    exact Site.locks_deleteBucket standing proper plain
  | aside plain other frame =>
    refine Site.locks_of_files (frame.file _ fun mem => (Site.aside_safe proper mem).1 rfl)
      (frame.file _ fun mem => (Site.aside_safe proper mem).2.1 rfl) fun v mem _ => ?_
    exact frame.file _ (Site.aside_blob (standing.sound.shape.plainBlob v mem))

theorem locks_along (apart : Apart keys) {ins : List Input} (inv : Keyspace keys s)
    (ok : e.Along (fun s i => Orderly keys s i ∧ Lawfully keys s i) ins s) :
    e.Along (LocksKept keys) ins s := by
  induction ins generalizing s with
  | nil => trivial
  | cons i rest ih =>
    have stepped := inv.stepped apart ok.1.1
    refine ⟨?_, ih (inv.step apart stepped).1 ok.2⟩
    cases i with
    | command c => exact inv.locks apart ok.1.2 stepped
    | blob token payload => trivial
    | part uploadID number payload => trivial

/-- In a lawful run from a fresh backend no applied command takes a locked version away or weakens
a compliance retention. -/
theorem locked_versions_stay (fresh : Fresh e s) (apart : Apart keys) {ins : List Input}
    (ok : e.Along (fun s i => Orderly keys s i ∧ Lawfully keys s i) ins s) :
    e.Along (LocksKept keys) ins s :=
  locks_along apart (fresh.keyspace apart) ok

/-- A put of `k` under legal hold. -/
def Small.putHeld (n : Fin 10) : Command :=
  { Small.put "k" n with metaMap := [(Command.metaMTime, "2024"), (Command.metaLegalHold, "ON")] }

/-- A version on hold in a versioned bucket, a newer version and a deletion on top of it. -/
def heldRun : List Input :=
  [.command Small.create, .command (Small.versioning "Enabled"), Small.payload 1,
    .command (Small.putHeld 1), Small.payload 2, .command (Small.put "k" 2),
    .command (Small.delete "k" (uuid 3))]

theorem held_version_stays :
    ((Small.k.versions ((smallEnv false).feed heldRun (smallDisk false))).map fun v =>
        (v.versionID, v.onHold)) = [(uuid 3, false), (uuid 2, false), (uuid 1, true)] ∧
      (smallEnv false).Along (LocksKept [Small.k]) heldRun (smallDisk false) :=
  ⟨by decide +kernel, locked_versions_stay (by decide +kernel)
    (show Apart [Small.k] by decide +kernel) (by decide +kernel)⟩

/-- A version on hold is deleted by its id; a null version under a compliance retention that
outlasts the next put is overwritten by it. -/
theorem locked_versions_lost :
    let env := smallEnv false
    let versioned := env.feed [.command Small.create, .command (Small.versioning "Enabled"),
      Small.payload 1, .command (Small.putHeld 1)] (smallDisk false)
    let retained : Command :=
      { Small.put "k" 1 with
        metaMap := [(Command.metaMTime, "2024"), (Command.metaRetentionMode, "COMPLIANCE"),
          (Command.metaRetainUntil, "2034-01-01")] }
    let plain := env.feed [.command Small.create, Small.payload 1, .command retained,
      Small.payload 2] (smallDisk false)
    ((Small.k.versions versioned).map (fun v => (v.versionID, v.onHold)) = [(uuid 1, true)] ∧
      (outcome (env.applyDisk (Small.deleteVersion "k" (uuid 1))) versioned).isOk = true ∧
      Small.k.versions (env.feed [.command (Small.deleteVersion "k" (uuid 1))] versioned) = []) ∧
    (Small.k.versions plain).map (fun v => (v.versionID, v.lockedAt (.time (unixEpoch + 4)))) = [("null", true)] ∧
      env.mtime (Small.put "k" 2) = .time (unixEpoch + 4) ∧
      (outcome (env.applyDisk (Small.put "k" 2)) plain).isOk = true ∧
      (Small.k.versions (env.feed [.command (Small.put "k" 2)] plain)).map
        (fun v => (v.versionID, v.retention)) = [("null", none)] := by
  decide +kernel

end D9Store
