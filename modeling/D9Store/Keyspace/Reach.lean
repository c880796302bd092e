import D9Store.Keyspace.Aside
import D9Store.Keyspace.Names

/-!
What the commands on objects reach.

Keys may collide: one can be the directory of another, two spellings can share a path. Whatever
the commands do to each other's keys, on a tidy disk they stay in the trees of objects: the data
root, the histories, the version blobs and the staged payloads.
-/

namespace D9Store

open Posix FilePath

namespace Env

variable {e : Env} {s t u : Disk} {c : Command} {bucket key kind id uploadID : String}
    {km : KeyMeta} {p src stop hp tmp : FilePath} {α : Type} {enabled : Bool}

/-! ### The trees of objects -/

/-- The data root, the version blobs and the staged payloads. -/
def looseFiles (e : Env) : Set FilePath :=
  {q | e.root <:+ q ∨ e.area "versions" <:+ q ∨ e.area "staging" <:+ q}

/-- The same with the histories. -/
def objectFiles (e : Env) : Set FilePath := {q | q ∈ e.looseFiles ∨ e.area "history" <:+ q}

/-- The data root and the version blobs alone. -/
def storedFiles (e : Env) : Set FilePath := {q | e.root <:+ q ∨ e.area "versions" <:+ q}

/-- Where directories may be: not below the configurations of buckets nor below staged parts. -/
def openDirs (e : Env) : Set FilePath :=
  {q | ¬ Below (e.area "buckets") q ∧ ¬ Below (e.area "mpstaging") q}

theorem loose_below {q : FilePath} (mem : p ∈ e.looseFiles) (sub : p <:+ q) : q ∈ e.looseFiles := by
  rcases mem with h | h | h
  · exact .inl (h.trans sub)
  · exact .inr (.inl (h.trans sub))
  · exact .inr (.inr (h.trans sub))

theorem objectFiles_area (mem : p ∈ e.objectFiles) (area : e.area kind <:+ p) :
    kind ∈ ["versions", "staging", "history"] := by
  rcases mem with (h | h | h) | h
  · exact (data_not_area h area rfl).elim
  · simp [area_unique area h]
  · simp [area_unique area h]
  · simp [area_unique area h]

/-- The way to a file of an object holds no place that must stay free of directories. -/
theorem objectFiles_open {q : FilePath} (mem : p ∈ e.objectFiles) (sub : q <:+ p) :
    q ∈ e.openDirs := by
  refine ⟨fun below => ?_, fun below => ?_⟩
  · exact absurd (objectFiles_area mem (below.1.trans sub)) (by decide)
  · exact absurd (objectFiles_area mem (below.1.trans sub)) (by decide)

theorem loose_open {q : FilePath} (mem : p ∈ e.looseFiles) (sub : p <:+ q) : q ∈ e.openDirs :=
  objectFiles_open (.inl (loose_below mem sub)) List.suffix_rfl

theorem stored_loose : e.storedFiles ⊆ e.looseFiles := by
  rintro q (data | blob)
  · exact .inl data
  · exact .inr (.inl blob)

theorem stored_closed : ∀ p ∈ e.storedFiles, ∀ q, p <:+ q → q ∈ e.storedFiles ∧ q ∈ e.openDirs := by
  intro p mem q sub
  refine ⟨?_, loose_open (stored_loose mem) sub⟩
  rcases mem with data | blob
  · exact .inl (data.trans sub)
  · exact .inr (blob.trans sub)

theorem loose_not_history (mem : p ∈ e.looseFiles) : ¬ e.area "history" <:+ p := by
  intro area
  rcases mem with h | h | h
  · exact data_not_area h area rfl
  · exact absurd (area_unique area h) (by decide)
  · exact absurd (area_unique area h) (by decide)

section Paths

variable {op : FilePath}

theorem loose_objectPath (tame : Tame bucket) (place : e.objectPath bucket key = .ok op) :
    op ∈ e.looseFiles := .inl (root_objectPath tame place)

theorem loose_objectTmp (tame : Tame bucket) (place : e.objectPath bucket key = .ok op) :
    tmpOf op ∈ e.looseFiles :=
  .inl ((root_bucketDir tame).trans (below_suffixed _ (confine_ok place).2.2))

theorem loose_objectDir (tame : Tame bucket) (place : e.objectPath bucket key = .ok op) :
    op.tail ∈ e.looseFiles := by
  obtain ⟨-, -, ⟨r, eq⟩, ne⟩ := confine_ok place
  refine .inl ((root_bucketDir tame).trans ?_)
  rw [← eq]
  cases r with
  | nil => exact absurd eq.symm ne
  | cons name r => exact List.suffix_append r _

theorem loose_blob (tame : Tame bucket) {id : String} (plain : '/' ∉ id.toList) :
    e.vblobPath bucket id ∈ e.looseFiles := .inr (.inl (area_vblobPath tame plain))

theorem loose_staging {token : String} (plain : Plain token) : e.stagingPath token ∈ e.looseFiles := by
  rw [stagingPath_eq plain]
  exact .inr (.inr (List.suffix_cons _ _))

end Paths

/-! ### Moves -/

section Moves

variable {F D : Set FilePath} (closed : ∀ p ∈ F, ∀ q, p <:+ q → q ∈ F ∧ q ∈ D) {src dst : FilePath}

include closed

theorem osRename_within (from_ : src ∈ F) (to_ : dst ∈ F) : Within F D (e.osRename src dst) :=
  Within.ite (fun _ => Within.throw _) fun _ =>
    Within.rename (fun q sub => (closed src from_ q sub).1) (fun q sub => (closed dst to_ q sub).1)
      fun q sub => (closed dst to_ q sub).2

theorem copyFile_within (to_ : dst ∈ F) (tmp : tmpOf dst ∈ F) : Within F D (e.copyFile src dst) := by
  refine Within.bind (Within.reading _) fun _ => Within.bind (Within.writeFile tmp) fun _ => ?_
  refine Within.bind (Within.attempt (Within.reading _)) fun r => ?_
  cases r with
  | error err => exact Within.bind (Within.ignore (Within.remove tmp)) fun _ => Within.throw _
  | ok f => exact Within.bind (Within.amend tmp) fun _ => osRename_within closed tmp to_

theorem moveFile_within (from_ : src ∈ F) (to_ : dst ∈ F) (tmp : tmpOf dst ∈ F) :
    Within F D (e.moveFile src dst) := by
  refine Within.bind (Within.attempt (osRename_within closed from_ to_)) fun r => ?_
  cases r with
  | ok _ => exact Within.pure _
  | error err => exact Within.bind (copyFile_within closed to_ tmp) fun _ => Within.remove from_

end Moves

theorem loose_closed : ∀ p ∈ e.looseFiles, ∀ q, p <:+ q → q ∈ e.looseFiles ∧ q ∈ e.openDirs :=
  fun _ mem _ sub => ⟨loose_below mem sub, loose_open mem sub⟩

/-- A program that stays in the trees of objects and out of the histories. -/
abbrev Loose {ε α : Type} (e : Env) (x : EStateM ε Disk α) : Prop :=
  Within e.looseFiles e.openDirs x

theorem loose_mkdirAll (mem : p ∈ e.looseFiles) : Loose e (sys (mkdirAll p)) :=
  Within.failing (Within.mkdirAll fun _ sub => objectFiles_open (.inl mem) sub)

/-- A program that works on the object file of a key. -/
theorem within_place {F D : Set FilePath} {f : FilePath → M α}
    (h : ∀ op, e.objectPath bucket key = .ok op → Within F D (f op)) :
    Within F D (do let op ← (reading fun _ => e.objectPath bucket key : M FilePath); f op) := by
  intro s
  rw [wp_bind, wp_reading]
  cases place : e.objectPath bucket key with
  | error err => exact Framed.refl s
  | ok op => exact h op place s

theorem putCurrentBytes_loose (tame : Tame bucket) (from_ : src ∈ e.looseFiles) :
    Loose e (e.putCurrentBytes bucket key src) :=
  within_place fun _ place => Within.bind (loose_mkdirAll (loose_objectDir tame place)) fun _ =>
    Within.failing (moveFile_within loose_closed from_ (loose_objectPath tame place) (loose_objectTmp tame place))

theorem archiveCurrent_stored (tame : Tame bucket) (plain : '/' ∉ id.toList) :
    Within e.storedFiles e.openDirs (e.archiveCurrent bucket key id) := by
  have tmp : tmpOf (e.vblobPath bucket id) ∈ e.storedFiles := by
    rw [vblobPath_eq plain]
    exact .inr ((area_versionsDir tame).trans (List.suffix_cons _ _))
  refine within_place fun op place => Within.bind (Within.failing (Within.mkdirAll fun q sub => ?_))
    fun _ => Within.failing (moveFile_within stored_closed (.inl (root_objectPath tame place))
      (.inr (area_vblobPath tame plain)) tmp)
  exact objectFiles_open (.inl (.inr (.inl (area_versionsDir tame)))) sub

theorem promoteArchived_loose (tame : Tame bucket) (plain : '/' ∉ id.toList) :
    Loose e (e.promoteArchived bucket key id) :=
  within_place fun _ place => Within.bind (loose_mkdirAll (loose_objectDir tame place)) fun _ =>
    Within.failing (moveFile_within loose_closed (loose_blob tame plain) (loose_objectPath tame place)
      (loose_objectTmp tame place))

theorem pruneEmptyDirs_loose (mem : stop ∈ e.looseFiles) (dir : FilePath) :
    Loose e (pruneEmptyDirs stop dir) := by
  induction dir with
  | nil => exact Within.pure _
  | cons seg dir ih =>
    refine Within.ite (fun below => ?_) fun _ => Within.pure _
    refine Within.bind (Within.attempt (Within.remove (loose_below mem below.1))) fun r => ?_
    cases r with
    | ok _ => exact ih
    | error _ => exact Within.pure _

theorem removeCurrent_loose (tame : Tame bucket) : Loose e (e.removeCurrent bucket key) := by
  unfold removeCurrent
  cases place : e.objectPath bucket key with
  | error _ => exact Within.pure _
  | ok op =>
    exact Within.bind (Within.ignore (Within.remove (loose_objectPath tame place))) fun _ =>
      pruneEmptyDirs_loose (.inl (root_bucketDir tame)) _

theorem removeArchivedBlob_loose (tame : Tame bucket) (plain : '/' ∉ id.toList) :
    Loose e (e.removeArchivedBlob bucket id) :=
  Within.ite (fun _ => Within.pure _) fun _ => Within.ignore (Within.remove (loose_blob tame plain))

theorem removeBlobs_loose (tame : Tame bucket) (vs : List ObjectMeta) (ids : ∀ v ∈ vs, Slashless v) :
    Loose e (e.removeBlobs bucket vs) := by
  induction vs with
  | nil => exact Within.pure _
  | cons v rest ih =>
    obtain ⟨first, others⟩ := List.forall_mem_cons.mp ids
    rw [removeBlobs]
    exact Within.ite (fun _ => ih others) fun _ =>
      Within.bind (removeArchivedBlob_loose tame first.2) fun _ => ih others

theorem displaceCurrent_stored (tame : Tame km.bucket)
    (head : ∀ v, km.versions.head? = some v → atKeyPath v = true → '/' ∉ v.versionID.toList) :
    Within e.storedFiles e.openDirs (e.displaceCurrent km enabled) := by
  unfold displaceCurrent
  split
  · exact Within.pure _
  · rename_i cur rest versions
    refine Within.ite (fun _ => Within.pure _) fun here => Within.ite (fun _ => ?_) fun _ => Within.pure _
    have named := head cur (by simp [versions]) (by simpa [atKeyPath, and_comm] using here)
    exact Within.bind (archiveCurrent_stored tame named) fun _ => Within.pure _

theorem displaceCurrent_loose (names : PlainNames km) : Loose e (e.displaceCurrent km enabled) :=
  (displaceCurrent_stored names.bucket names.head).mono stored_loose subset_rfl

theorem promoteNewLatest_loose (names : PlainNames km) : Loose e (e.promoteNewLatest km) := by
  obtain ⟨tame, ids⟩ := names
  unfold promoteNewLatest
  split
  · exact Within.pure _
  · rename_i nl rest versions
    have first := ids nl (by simp [versions])
    refine Within.ite (fun _ => ?_) fun _ => Within.pure _
    refine Within.bind (Within.attempt (promoteArchived_loose tame first.2)) fun r => ?_
    cases r with
    | ok _ => exact Within.pure _
    | error _ => exact Within.pure _

theorem dropCurrent_loose (tame : Tame c.bucket) (names : PlainNames km) :
    Loose e (e.dropCurrent c km) := by
  unfold dropCurrent
  split
  · exact Within.pure _
  · rename_i cur rest versions
    have first := names.ids cur (by simp [versions])
    have keep : Loose e (if cur.versionID = "null" ∨ cur.blobID = "" then
        pure { km with versions := rest } else pure km : M KeyMeta) :=
      Within.ite (fun _ => Within.pure _) fun _ => Within.pure _
    refine Within.ite (fun _ => Within.pure _) fun _ => Within.ite (fun _ => ?_) fun _ => ?_
    · exact Within.bind (removeCurrent_loose tame) fun _ => keep
    · exact Within.bind (removeArchivedBlob_loose tame first.2) fun _ => keep

theorem writeHead_loose (tame : Tame km.bucket) : Loose e (e.writeHead km) := by
  unfold writeHead
  cases km.latest with
  | none => exact Within.pure _
  | some cur =>
    refine Within.ite (fun _ => ?_) fun _ => Within.pure _
    refine within_place fun op place => ?_
    have mem := loose_objectPath tame place
    exact Within.bind (Within.failing (Within.amend mem)) fun _ =>
      Within.ite (fun _ => Within.pure _) fun _ => Within.ignore (Within.amend mem)

/-! ### Histories -/

/-- The disk came about in the trees of objects, with the histories where they belong. -/
def Reached (e : Env) (s t : Disk) : Prop := Framed e.objectFiles e.openDirs s t ∧ e.Filed t

abbrev Reaches {ε α : Type} (e : Env) (x : EStateM ε Disk α) : Prop :=
  ∀ s, Guards (e.Reached s) (fun _ => True) x

theorem Filed.framed {F D : Set FilePath} (filed : e.Filed s) (frame : Framed F D s t)
    (out : ∀ q ∈ F, ¬ e.area "history" <:+ q) : e.Filed t := by
  intro bucket key hp f tame place file
  have area := area_historyPath tame place
  rw [frame.file hp fun mem => out hp mem area] at file
  exact filed bucket key hp f tame place file

theorem Loose.reaches {ε : Type} {x : EStateM ε Disk α} (h : Loose e x) : e.Reaches x := by
  intro s t inv
  have step (u : Disk) (frame : Framed e.looseFiles e.openDirs t u) : e.Reached s u :=
    ⟨inv.1.trans (frame.mono (fun _ mem => .inl mem) fun _ mem => mem),
      inv.2.framed frame fun _ mem => loose_not_history mem⟩
  exact wp_mono (h t) (fun _ u frame => ⟨step u frame, trivial⟩) fun _ u frame => step u frame

/-- The same with what the program returns. -/
theorem Loose.reaches_value {Q : α → Prop} {x : M α} (h : Loose e x)
    (value : FileInv.any.Guards Q x) (s : Disk) : Guards (e.Reached s) Q x := fun t inv =>
  wp_mono (wp_and (h.reaches s t inv) (value t fun _ _ _ => ⟨trivial, trivial⟩))
    (fun _ _ h => ⟨h.1.1, h.2.2⟩) fun _ _ h => h.1

/-- A step inside the histories. -/
theorem Reached.history {F : Set FilePath} (inv : e.Reached s t) (frame : Framed F e.openDirs t u)
    (area : ∀ q ∈ F, e.area "history" <:+ q) (filed : e.Filed u) : e.Reached s u :=
  ⟨inv.1.trans (frame.mono (fun q mem => .inr (area q mem)) fun _ mem => mem), filed⟩

theorem removeIfPresent_reaches (area : e.area "history" <:+ hp) :
    e.Reaches (removeIfPresent hp) := by
  intro s t inv
  have shrinks := removeIfPresent_shrinks (s := t) hp t (Shrinks.refl t)
  have frame : wp (removeIfPresent hp) (fun _ u => Framed {hp} e.openDirs t u)
      (fun _ u => Framed {hp} e.openDirs t u) t :=
    removeIfPresent_within (Set.mem_singleton hp) t
  have step (u : Disk) (less : Shrinks t u) (frame : Framed {hp} e.openDirs t u) : e.Reached s u := by
    refine inv.history frame (by rintro q rfl; exact area) ?_
    intro bucket key hp' f tame place file
    refine inv.2 bucket key hp' f tame place ?_
    cases old : t.file hp' with
    | none => rw [less.file old] at file; cases file
    | some g =>
      rcases less hp' with same | gone
      · rw [← DirTree.file_of_get_eq same, file] at old
        rw [old]
      · simp [DirTree.file, gone] at file
  exact wp_mono (wp_and shrinks frame) (fun _ u h => ⟨step u h.1.1 h.2, trivial⟩)
    fun _ u h => step u h.1 h.2

theorem historyPath_ne_tmp {b k : String} {hp' : FilePath}
    (place : e.historyPath bucket key = .ok hp) (place' : e.historyPath b k = .ok hp') :
    hp' ≠ jsonTmp hp := by
  obtain ⟨name, dir, rfl⟩ := historyPath_name place
  obtain ⟨name', dir', rfl⟩ := historyPath_name place'
  intro eq
  have last := congrArg (fun text : String => text.toList.getLast?) (List.cons.inj eq).1
  simp at last

theorem writeThrough_reaches (tame : Tame km.bucket)
    (place : e.historyPath km.bucket km.key = .ok hp) (area : e.area "history" <:+ hp) :
    e.Reaches (writeThrough hp (.json (.keyMeta km))) := by
  intro s t inv
  have dirs : ∀ q ∈ {q | q <:+ hp.tail}, q ∈ e.openDirs := fun q sub =>
    objectFiles_open (.inr area) (List.IsSuffix.trans sub (List.tail_suffix hp))
  have areaTmp : e.area "history" <:+ jsonTmp hp := by
    obtain ⟨-, -, below⟩ := confine_ok place
    exact (area_historyDir tame).trans (below_suffixed _ below)
  refine wp_mono (writeThrough_wp (.json (.keyMeta km))) ?_ ?_
  · rintro - u ⟨frame, written, -⟩
    refine ⟨inv.history (frame.mono subset_rfl dirs) ?_ ?_, trivial⟩
    · rintro q (rfl | rfl)
      · exact area
      · exact areaTmp
    · intro bucket key hp' f tame place' file
      by_cases same : hp' = hp
      · subst same
        obtain ⟨g, file', holds⟩ := Option.map_eq_some_iff.mp written
        rw [file] at file'
        cases file'
        exact ⟨km, holds, place⟩
      · rw [frame.file hp' (by simp [same, historyPath_ne_tmp place place'])] at file
        exact inv.2 bucket key hp' f tame place' file
  · intro _ u frame
    refine inv.history (frame.mono subset_rfl dirs) (by rintro q rfl; exact areaTmp) ?_
    intro bucket key hp' f tame place' file
    rw [frame.file hp' (by simp [historyPath_ne_tmp place place'])] at file
    exact inv.2 bucket key hp' f tame place' file

theorem writeHistory_reaches (tame : Tame km.bucket) : e.Reaches (e.writeHistory km) := by
  intro s t inv
  cases place : e.historyPath km.bucket km.key with
  | error err =>
    have failed : e.writeHistory km t = .error err t := by
      rw [writeHistory, bind_apply, place]
      rfl
    unfold wp
    rw [failed]
    exact inv
  | ok hp =>
    have area := area_historyPath tame place
    have same := writeHistory_run (s := t) place
    have run (x : M Unit) (eq : e.writeHistory km t = x t) (h : e.Reaches x) :
        wp (e.writeHistory km) (fun _ u => e.Reached s u ∧ True) (fun _ u => e.Reached s u) t := by
      have guards := h s t inv
      unfold wp at guards ⊢
      rwa [eq]
    split at same
    · exact run _ same (removeIfPresent_reaches area)
    · exact run _ same (writeThrough_reaches tame place area)

/-! ### Commands -/

theorem writeKeyMeta_reaches (tame : Tame km.bucket) : e.Reaches (e.writeKeyMeta km) := fun s =>
  Guards.seq ((writeHead_loose tame).reaches s) fun _ => writeHistory_reaches tame s

theorem finalizeKey_reaches (tame : Tame km.bucket) : e.Reaches (e.finalizeKey km) := by
  intro s
  refine Guards.ite (fun _ => ?_) fun _ => writeKeyMeta_reaches tame s
  refine Guards.seq ((removeCurrent_loose tame).reaches s) fun _ => ?_
  refine Guards.bind (Guards.reading fun _ hp _ place => place) fun hp place => ?_
  exact removeIfPresent_reaches (area_historyPath tame place) s

/-- The current version makes way, a new one is installed and recorded. -/
theorem install_reaches {x : M Unit} (names : PlainNames km) (hx : e.Reaches x) (enabled : Bool)
    (nv : ObjectMeta) : e.Reaches (do
      let km ← e.displaceCurrent km enabled
      x
      e.writeKeyMeta (km.prependLatest nv)) := by
  intro s
  refine Guards.bind ((displaceCurrent_loose names).reaches_value displaceCurrent_guards s) ?_
  rintro km' rfl
  have tame : Tame (KeyMeta.prependLatest
      { km with versions := History.displaced enabled km.versions } nv).bucket := names.bucket
  exact Guards.seq (hx s) fun _ => writeKeyMeta_reaches tame s

theorem deleteVersion_reaches (tame : Tame c.bucket) (names : PlainNames km) :
    e.Reaches (e.deleteVersion c km) := by
  intro s
  have removed : ∀ v ∈ km.versions.filter fun v => v.versionID == c.versionID, Slashless v :=
    fun v mem => names.ids v (List.mem_of_mem_filter mem)
  have kept : PlainNames { km with versions := History.keptBy c.versionID km.versions } :=
    ⟨names.bucket, Slashless.keptBy names.ids _⟩
  refine Guards.seq ((removeBlobs_loose tame _ removed).reaches s) fun _ => ?_
  refine Guards.ite (fun _ => ?_) fun _ => ?_
  · refine Guards.seq ((removeCurrent_loose tame).reaches s) fun _ => ?_
    refine Guards.bind ((promoteNewLatest_loose kept).reaches_value promoteNewLatest_guards s) ?_
    rintro km' (rfl | rfl)
    · exact finalizeKey_reaches (by exact names.bucket) s
    · exact finalizeKey_reaches (by exact names.bucket) s
  · rw [History.markLatest_eq]
    exact finalizeKey_reaches (by exact names.bucket) s

theorem deleteToMarker_reaches (names : PlainNames km) : e.Reaches (e.deleteToMarker c km) := by
  intro s
  refine Guards.bind ((displaceCurrent_loose names).reaches_value displaceCurrent_guards s) ?_
  rintro km' rfl
  exact finalizeKey_reaches (by exact names.bucket) s

theorem deleteNull_reaches {bm : BucketMeta} (tame : Tame c.bucket) (names : PlainNames km) :
    e.Reaches (e.deleteNull bm c km) := by
  intro s
  refine Guards.bind ((dropCurrent_loose tame names).reaches_value dropCurrent_guards s) ?_
  rintro km' rfl
  refine Guards.ite (fun _ => finalizeKey_reaches (by exact names.bucket) s) fun _ => ?_
  rw [History.markLatest_eq]
  exact finalizeKey_reaches (by exact names.bucket) s

theorem assemble_loose (mem : tmp ∈ e.looseFiles) (parts : List Part) : Loose e (do
      sys (writeFile tmp ⟨.raw [], {}, .wall⟩ (written (.raw [])))
      e.appendParts uploadID tmp parts) := by
  refine Within.bind (Within.failing (Within.writeFile mem)) fun _ => ?_
  induction parts with
  | nil => exact Within.pure _
  | cons p rest ih =>
    refine Within.bind (Within.attempt (Within.reading _)) fun r => ?_
    cases r with
    | error err => exact Within.bind (Within.ignore (Within.remove mem)) fun _ => Within.throw _
    | ok part =>
      exact Within.bind (Within.failing (Within.amend mem)) fun _ =>
        Within.bind ih fun _ => Within.pure _

section Commands

variable (tidy : e.Tidy s)

include tidy

theorem Tidy.reached : e.Reached s s := ⟨Framed.refl s, tidy.filed⟩

theorem applyPutObject_reaches (tame : Tame c.bucket) (token : Plain c.blobToken) :
    wp (e.applyPutObject c) (fun _ => e.Reached s) (fun _ => e.Reached s) s := by
  unfold applyPutObject
  rw [wp_bind, wp_get, wp_bind, wp_get, wp_ite]
  refine ⟨fun _ => ?_, fun _ => tidy.reached⟩
  rw [wp_bind, wp_get]
  exact wp_mono (install_reaches (tidy.load tame c.key)
    (putCurrentBytes_loose tame (loose_staging token)).reaches _ _ s s tidy.reached)
    (fun _ _ h => h.1) fun _ _ h => h

theorem applyCopyObject_reaches (tame : Tame c.bucket) :
    wp (e.applyCopyObject c) (fun _ => e.Reached s) (fun _ => e.Reached s) s := by
  rw [applyCopyObject_steps]
  cases c.source with
  | none => exact tidy.reached
  | some ref =>
    simp only
    rw [wp_bind, wp_get, wp_bind, wp_reading]
    cases e.resolveVersion s ref.bucket ref.key ref.versionID with
    | error err => exact tidy.reached
    | ok found =>
      obtain ⟨src, km⟩ := found
      simp only
      rw [wp_ite]
      refine ⟨fun _ => tidy.reached, fun _ => ?_⟩
      rw [wp_bind, wp_reading]
      cases e.physPath ref.bucket src with
      | error err => exact tidy.reached
      | ok srcPath =>
        simp only
        rw [wp_bind, wp_get]
        have copy : Loose e (do
            let dst ← (reading fun _ => e.objectPath c.bucket c.key : M FilePath)
            sys (mkdirAll dst.tail)
            sys (e.copyFile srcPath dst)) :=
          within_place fun dst place =>
            Within.bind (loose_mkdirAll (loose_objectDir tame place)) fun _ =>
              Within.failing (copyFile_within loose_closed (loose_objectPath tame place)
                (loose_objectTmp tame place))
        have rest := install_reaches (tidy.load tame c.key) copy.reaches
        simp only [bind_assoc] at rest
        exact wp_mono (rest _ _ s s tidy.reached) (fun _ _ h => h.1) fun _ _ h => h

theorem applyDeleteObject_reaches (tame : Tame c.bucket) :
    e.Reached s (final (e.applyDeleteObject c) s) := by
  have run := applyDeleteObject_run (e := e) (c := c) s
  cases found : e.deletable s c with
  | none =>
    rw [found] at run
    rw [final_of_ok run]
    exact tidy.reached
  | some km =>
    simp only [found] at run
    have names := tidy.deletable tame found
    have same : ∀ x : M Unit, e.applyDeleteObject c s = x s → e.Reaches x →
        e.Reached s (final (e.applyDeleteObject c) s) := fun x eq reaches => by
      have kept := (reaches s).final tidy.reached
      unfold final at kept ⊢
      rwa [eq]
    split at run
    · exact same _ run (deleteVersion_reaches tame names)
    · split at run
      · exact same _ run (deleteToMarker_reaches names)
      · exact same _ run (deleteNull_reaches tame names)

theorem applyObjectMetaMutation_reaches (tame : Tame c.bucket) :
    wp (e.applyObjectMetaMutation c) (fun _ => e.Reached s) (fun _ => e.Reached s) s := by
  unfold applyObjectMetaMutation
  rw [wp_bind, wp_reading]
  cases read : e.readKeyMeta s c.bucket c.key with
  | error err => exact tidy.reached
  | ok km =>
    simp only
    rw [wp_bind, wp_reading]
    cases e.amendTarget c km.versions with
    | error err => exact tidy.reached
    | ok vs =>
      have own : Tame ({ km with versions := vs, synthesized := false } : KeyMeta).bucket :=
        (tidy.read tame read).bucket
      exact wp_mono (writeKeyMeta_reaches own s s tidy.reached) (fun _ _ h => h.1) fun _ _ h => h

/-- A completion that succeeds has only its upload left to clean up. -/
theorem applyCompleteMultipart_reaches (tame : Tame c.bucket) (token : Plain c.blobToken)
    (upload : Plain c.uploadID) :
    wp (e.applyCompleteMultipart c)
      (fun _ t => (Site.completed e s c).isOk = true ∧
        ∃ u, e.Reached s u ∧ e.cleanupUpload c.bucket c.uploadID u = .ok () t)
      (fun _ => e.Reached s) s := by
  have mem := loose_staging (e := e) token
  unfold applyCompleteMultipart
  rw [wp_bind, wp_get, wp_bind, wp_reading]
  cases record : e.readMPU s c.bucket c.uploadID with
  | error err => exact tidy.reached
  | ok mp =>
    simp only
    rw [wp_bind, wp_reading]
    cases order : orderedParts mp c with
    | error err => exact tidy.reached
    | ok ordered =>
      have accepted : (Site.completed e s c).isOk = true := by
        simp [Site.completed, record, order, Except.isOk, Except.toBool]
      simp only
      rw [wp_bind, wp_get, wp_ite]
      refine ⟨fun _ => ?_, fun _ => tidy.reached⟩
      rw [← bind_assoc, wp_bind]
      have area : e.area "staging" <:+ e.stagingPath c.blobToken := by
        rw [stagingPath_eq token]
        exact List.suffix_cons _ _
      refine wp_mono (wp_and ((assemble_loose mem ordered).reaches s s tidy.reached)
        (assemble_wp area tidy.names ordered)) ?_ fun _ t h => h.1
      rintro total t ⟨⟨inv, -⟩, -, same⟩
      rw [wp_bind, wp_get, same.loadKeyMetaOrNew tame]
      have names := tidy.load tame c.key
      rw [wp_bind]
      refine wp_mono (((displaceCurrent_loose names).reaches_value displaceCurrent_guards s).attempt
        t inv) ?_ fun _ u h => h
      rintro r u ⟨inv, value⟩
      cases r with
      | error err =>
        have drop : Loose e (ignore (remove (e.stagingPath c.blobToken) : Call File Unit) : M Unit) :=
          Within.ignore (Within.remove mem)
        simp only
        rw [wp_bind]
        exact wp_mono (drop.reaches s u inv) (fun _ _ h => h.1) fun _ _ h => h
      | ok km =>
        have own : Tame (km.prependLatest
            (e.completeMeta (e.bucketMetaForWrite s c.bucket) mp c ordered total)).bucket := by
          rw [value km rfl]
          exact names.bucket
        have put : Loose e (e.putCurrentBytes c.bucket c.key (e.stagingPath c.blobToken)) :=
          putCurrentBytes_loose tame mem
        have install := Guards.seq (put.reaches s) fun _ => writeKeyMeta_reaches (e := e) own s
        simp only
        rw [← bind_assoc, wp_bind]
        refine wp_mono (install u inv) (fun _ w done => ?_) fun _ _ h => h
        have cleanup := cleanupUpload_wp (e := e) (s := w) c.bucket upload
        exact wp_cases (fun _ v run => ⟨accepted, w, done.1, run⟩)
          fun err v run => (wp_error cleanup run).elim

end Commands

end Env

end D9Store
