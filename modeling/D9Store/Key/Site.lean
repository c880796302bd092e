import D9Store.Backend.FileOps
import D9Store.Key.History

/-!
One key and its files.

A `Site` is a key that both path checks accept. Its history is what `readKeyMeta` finds:
the history file, or else the one version the object file stands for. `Ready` says that
nothing obstructs the files the key will need; it is what the helpers require to succeed.
-/

namespace D9Store

open Posix FilePath

/-- A key accepted by `objectPath` and `historyPath`. -/
structure Site (e : Env) where
  bucket : String
  key : String
  tame : Tame bucket
  op : FilePath
  hp : FilePath
  op_eq : e.objectPath bucket key = .ok op
  hp_eq : e.historyPath bucket key = .ok hp

namespace Site

variable {e : Env} (x : Site e) {id : String} {B : Set String} {S : Set FilePath} {q : FilePath}

/-! ### Its paths -/

theorem root_op : e.root <:+ x.op := Env.root_objectPath x.tame x.op_eq

theorem area_hp : e.area "history" <:+ x.hp := Env.area_historyPath x.tame x.hp_eq

theorem op_ne_nil : x.op ≠ [] := (Env.confine_ok x.op_eq).2.2.ne_nil

theorem hp_ne_nil : x.hp ≠ [] := (Env.confine_ok x.hp_eq).2.2.ne_nil

theorem root_tmp : e.root <:+ Env.tmpOf x.op := by
  have below := (Env.confine_ok x.op_eq).2.2
  exact (Env.root_bucketDir x.tame).trans (below_suffixed _ below)

theorem area_hpTmp : e.area "history" <:+ Env.jsonTmp x.hp := by
  have below := (Env.confine_ok x.hp_eq).2.2
  exact (Env.area_historyDir x.tame).trans (below_suffixed _ below)

/-- A blob of the key's bucket. -/
def blob (id : String) : FilePath := e.vblobPath x.bucket id

theorem area_blob (h : '/' ∉ id.toList) : e.area "versions" <:+ x.blob id :=
  Env.area_vblobPath x.tame h

theorem area_blobTmp (h : '/' ∉ id.toList) : e.area "versions" <:+ Env.tmpOf (x.blob id) := by
  rw [blob, Env.vblobPath_eq h]
  exact (Env.area_versionsDir x.tame).trans (List.suffix_cons _ _)

theorem op_ne_hp : x.op ≠ x.hp := Env.data_not_area x.root_op x.area_hp

theorem op_ne_hpTmp : x.op ≠ Env.jsonTmp x.hp := Env.data_not_area x.root_op x.area_hpTmp

theorem op_ne_blob (h : '/' ∉ id.toList) : x.op ≠ x.blob id :=
  Env.data_not_area x.root_op (x.area_blob h)

theorem op_ne_blobTmp (h : '/' ∉ id.toList) : x.op ≠ Env.tmpOf (x.blob id) :=
  Env.data_not_area x.root_op (x.area_blobTmp h)

theorem hp_ne_blob (h : '/' ∉ id.toList) : x.hp ≠ x.blob id :=
  Env.area_ne x.area_hp (x.area_blob h) (by decide)

/-- Moves into the data root end in a rename inside the data root. -/
theorem near_op : e.crosses (Env.tmpOf x.op) x.op = false := by
  simp [Env.crosses, x.root_op, x.root_tmp]

theorem near_blob (h : '/' ∉ id.toList) :
    e.crosses (Env.tmpOf (x.blob id)) (x.blob id) = false := by
  have out : ∀ p, e.area "versions" <:+ p → ¬ e.root <:+ p := fun p area data =>
    Env.data_not_area data area rfl
  simp [Env.crosses, out _ (x.area_blob h), out _ (x.area_blobTmp h)]

/-! ### The paths a command on the key may touch -/

/-- The files a command on the key may change: its own, the blobs in `B` and the staged
payloads in `S`. -/
def cells (B : Set String) (S : Set FilePath) : Set FilePath :=
  {q | q = x.op ∨ q = Env.tmpOf x.op ∨ q = x.hp ∨ q = Env.jsonTmp x.hp ∨
    (∃ id ∈ B, '/' ∉ id.toList ∧ (q = x.blob id ∨ q = Env.tmpOf (x.blob id))) ∨
    (q ∈ S ∧ e.area "staging" <:+ q)}

/-- The directories a command on the key may create. -/
def dirs : Set FilePath :=
  {q | q <:+ x.op.tail ∨ q <:+ x.hp.tail ∨ q <:+ e.versionsDir x.bucket ∨ q <:+ e.area "staging"}

/-- The kind of a cell of the state root. -/
theorem cells_kind (h : q ∈ x.cells B S) :
    e.root <:+ q ∨ (q = x.hp ∨ q = Env.jsonTmp x.hp) ∨
      (∃ id, '/' ∉ id.toList ∧ (q = x.blob id ∨ q = Env.tmpOf (x.blob id))) ∨
      e.area "staging" <:+ q := by
  rcases h with rfl | rfl | rfl | rfl | ⟨id, -, plain, eq⟩ | ⟨-, staging⟩
  · exact .inl x.root_op
  · exact .inl x.root_tmp
  · exact .inr (.inl (.inl rfl))
  · exact .inr (.inl (.inr rfl))
  · exact .inr (.inr (.inl ⟨id, plain, eq⟩))
  · exact .inr (.inr (.inr staging))

theorem cells_mono {B' : Set String} {S' : Set FilePath} (h : B ⊆ B') (h' : S ⊆ S') :
    x.cells B S ⊆ x.cells B' S' := by
  rintro q (h₁ | h₁ | h₁ | h₁ | ⟨id, mem, h₁⟩ | ⟨mem, h₁⟩)
  · exact .inl h₁
  · exact .inr (.inl h₁)
  · exact .inr (.inr (.inl h₁))
  · exact .inr (.inr (.inr (.inl h₁)))
  · exact .inr (.inr (.inr (.inr (.inl ⟨id, h mem, h₁⟩))))
  · exact .inr (.inr (.inr (.inr (.inr ⟨h' mem, h₁⟩))))

theorem not_mem_dirs_of_history (area : e.area "history" <:+ q) (out : ¬ q <:+ x.hp.tail) :
    q ∉ x.dirs := by
  rintro (h | h | h | h)
  · exact Env.data_not_area (x.root_op) ((area.trans h).trans (List.tail_suffix x.op)) rfl
  · exact out h
  · exact absurd (Env.area_unique (area.trans h) (Env.area_versionsDir x.tame)) (by decide)
  · exact absurd (Env.area_unique (area.trans h) List.suffix_rfl) (by decide)

theorem not_mem_dirs_of_versions (area : e.area "versions" <:+ q)
    (out : ¬ q <:+ e.versionsDir x.bucket) : q ∉ x.dirs := by
  rintro (h | h | h | h)
  · exact Env.data_not_area (x.root_op) ((area.trans h).trans (List.tail_suffix x.op)) rfl
  · exact absurd (Env.area_unique ((area.trans h).trans (List.tail_suffix x.hp)) x.area_hp) (by decide)
  · exact out h
  · exact absurd (Env.area_unique (area.trans h) List.suffix_rfl) (by decide)

/-! ### What it looks like on disk -/

/-- The version history of the key, newest first. -/
def versions (s : Disk) : List ObjectMeta :=
  match content s x.hp with
  | some (.json doc) => doc.asKeyMeta.versions
  | some (.raw _) => []
  | none =>
    match s.file x.op with
    | some f => [(e.fileMeta x.bucket x.key f).1]
    | none => []

/-- The key's record with the history `vs`. -/
def keyMeta (vs : List ObjectMeta) : KeyMeta := ⟨x.bucket, x.key, vs, false⟩

/-- Nothing obstructs the history file of the key and the blobs of its bucket. -/
structure Ready (s : Disk) : Prop where
  history_clear : ∀ q, q <:+ x.hp.tail → s.file q = none
  history_free : s.get x.hp ≠ some .dir
  historyTmp_free : s.get (Env.jsonTmp x.hp) ≠ some .dir
  versions_clear : ∀ q, q <:+ e.versionsDir x.bucket → s.file q = none
  blob_free : ∀ id, '/' ∉ id.toList → s.get (x.blob id) ≠ some .dir
  blobTmp_free : ∀ id, '/' ∉ id.toList → s.get (Env.tmpOf (x.blob id)) ≠ some .dir

/-- The history and the object file belong together. -/
structure Sound (s : Disk) : Prop where
  doc : ∀ c, content s x.hp = some c →
    ∃ vs, c = .json (.keyMeta ⟨x.bucket, x.key, vs, false⟩) ∧ vs ≠ [] ∧ History.singleLive vs = false
  shape : History.Shape x.key (x.versions s)
  latest : History.Latest (x.versions s)
  head : (s.file x.op).isSome = ((x.versions s).head?.any Env.atKeyPath)

variable {x} {s t : Disk}

theorem versions_congr (op : t.file x.op = s.file x.op) (hp : t.file x.hp = s.file x.hp) :
    x.versions t = x.versions s := by
  simp only [versions, content, op, hp]

theorem Sound.congr (h : x.Sound s) (op : t.file x.op = s.file x.op)
    (hp : t.file x.hp = s.file x.hp) : x.Sound t := by
  have same := versions_congr op hp
  have sameHp := content_of_file_eq hp
  refine ⟨?_, ?_, ?_, ?_⟩
  · rw [sameHp]; exact h.doc
  · rw [same]; exact h.shape
  · rw [same]; exact h.latest
  · rw [same, op]; exact h.head

/-- A place the key needs for its history or for a blob. -/
def Place (x : Site e) (q : FilePath) : Prop :=
  q = x.hp ∨ q = Env.jsonTmp x.hp ∨
    ∃ id, '/' ∉ id.toList ∧ (q = x.blob id ∨ q = Env.tmpOf (x.blob id))

/-- A step that neither puts a file on the way to the key's places nor a directory in one. -/
theorem Ready.keep {F D : Set FilePath} (h : x.Ready s) (frame : Framed F D s t)
    (above : ∀ q ∈ F, ¬ q <:+ x.hp.tail ∧ ¬ q <:+ e.versionsDir x.bucket)
    (dirs : ∀ q ∈ D, ¬ x.Place q) : x.Ready t where
  history_clear q sub := by
    rw [frame.file q fun mem => (above q mem).1 sub, h.history_clear q sub]
  history_free dir := h.history_free (frame.dir _ (fun mem => dirs _ mem (.inl rfl)) dir)
  historyTmp_free dir :=
    h.historyTmp_free (frame.dir _ (fun mem => dirs _ mem (.inr (.inl rfl))) dir)
  versions_clear q sub := by
    rw [frame.file q fun mem => (above q mem).2 sub, h.versions_clear q sub]
  blob_free id plain dir := h.blob_free id plain
    (frame.dir _ (fun mem => dirs _ mem (.inr (.inr ⟨id, plain, .inl rfl⟩))) dir)
  blobTmp_free id plain dir := h.blobTmp_free id plain
    (frame.dir _ (fun mem => dirs _ mem (.inr (.inr ⟨id, plain, .inr rfl⟩))) dir)

/-- A blob is no directory on the way to the blobs. -/
theorem blob_not_versions (plain : '/' ∉ id.toList) (eq : q = x.blob id ∨ q = Env.tmpOf (x.blob id)) :
    ¬ q <:+ e.versionsDir x.bucket := fun sub => by
  have len : (x.blob id).length = (e.versionsDir x.bucket).length + 1 := by
    rw [blob, Env.vblobPath_eq plain, List.length_cons]
  have := length_le_suffixed (x.blob id) ".d9tmp"
  have := sub.length_le
  rcases eq with rfl | rfl
  · omega
  · rw [Env.tmpOf] at this
    omega

/-- Blob files lie in the blob area. -/
theorem area_of_blob (plain : '/' ∉ id.toList) (eq : q = x.blob id ∨ q = Env.tmpOf (x.blob id)) :
    e.area "versions" <:+ q := by
  rcases eq with rfl | rfl
  · exact x.area_blob plain
  · exact x.area_blobTmp plain

/-- The files of a key do not lie on the way to its own places. -/
theorem cells_not_above (mem : q ∈ x.cells B S) :
    ¬ q <:+ x.hp.tail ∧ ¬ q <:+ e.versionsDir x.bucket := by
  have versions := Env.area_versionsDir (e := e) x.tame
  refine ⟨fun sub => ?_, fun sub => ?_⟩
  · have up := sub.trans (List.tail_suffix x.hp)
    rcases cells_kind x mem with data | (rfl | rfl) | ⟨id, plain, eq⟩ | staging
    · exact Env.data_not_area (data.trans up) x.area_hp rfl
    · exact not_suffix_tail x.hp_ne_nil le_rfl sub
    · exact not_suffix_tail x.hp_ne_nil (length_le_suffixed _ _) sub
    · exact absurd (Env.area_unique ((area_of_blob plain eq).trans up) x.area_hp) (by decide)
    · exact absurd (Env.area_unique (staging.trans up) x.area_hp) (by decide)
  · rcases cells_kind x mem with data | (rfl | rfl) | ⟨id, plain, eq⟩ | staging
    · exact Env.data_not_area (data.trans sub) versions rfl
    · exact absurd (Env.area_unique (x.area_hp.trans sub) versions) (by decide)
    · exact absurd (Env.area_unique (x.area_hpTmp.trans sub) versions) (by decide)
    · exact blob_not_versions plain eq sub
    · exact absurd (Env.area_unique (staging.trans sub) versions) (by decide)

/-- The directories a key makes are none of its places. -/
theorem dirs_not_place (mem : q ∈ x.dirs) : ¬ x.Place q := by
  rintro (rfl | rfl | ⟨id, plain, eq⟩)
  · exact x.not_mem_dirs_of_history x.area_hp (not_suffix_tail x.hp_ne_nil le_rfl) mem
  · exact x.not_mem_dirs_of_history x.area_hpTmp
      (not_suffix_tail x.hp_ne_nil (length_le_suffixed _ _)) mem
  · exact x.not_mem_dirs_of_versions (area_of_blob plain eq) (blob_not_versions plain eq) mem

/-- Commands on the key leave it ready. -/
theorem Ready.framed (h : x.Ready s) (frame : Framed (x.cells B S) x.dirs s t) : x.Ready t :=
  h.keep frame (fun _ mem => cells_not_above mem) fun _ mem => dirs_not_place mem

/-- A bucket without history and blobs is ready for any key. -/
theorem ready_of_bare (history : ∀ q, q <:+ e.historyDir x.bucket → s.file q = none)
    (versions : ∀ q, q <:+ e.versionsDir x.bucket → s.file q = none)
    (bare : ∀ q, Below (e.historyDir x.bucket) q ∨ Below (e.versionsDir x.bucket) q → s.get q = none) :
    x.Ready s := by
  have below_hp := (Env.confine_ok x.hp_eq).2.2
  have below_hpTmp : Below (e.historyDir x.bucket) (Env.jsonTmp x.hp) := by
    refine ⟨below_suffixed _ below_hp, fun eq => ?_⟩
    have len := length_le_suffixed x.hp ".tmp"
    rw [Env.jsonTmp] at eq
    rw [eq] at len
    exact below_hp.2 (below_hp.1.eq_of_length_le len).symm
  have below_blob : ∀ id, '/' ∉ id.toList →
      Below (e.versionsDir x.bucket) (x.blob id) ∧
        Below (e.versionsDir x.bucket) (Env.tmpOf (x.blob id)) := by
    intro id plain
    rw [blob, Env.vblobPath_eq plain]
    have long : ∀ name : String, name :: e.versionsDir x.bucket ≠ e.versionsDir x.bucket :=
      fun name eq => by simpa using congrArg List.length eq
    exact ⟨⟨List.suffix_cons _ _, long _⟩, ⟨List.suffix_cons _ _, long _⟩⟩
  refine ⟨fun q sub => ?_, ?_, ?_, versions, fun id plain => ?_, fun id plain => ?_⟩
  · rcases suffix_total sub below_hp.suffix_tail with up | down
    · exact history q up
    · rcases eq_or_ne q (e.historyDir x.bucket) with rfl | ne
      · exact history _ List.suffix_rfl
      · exact DirTree.file_eq_none.mpr (.inl (bare q (.inl ⟨down, ne⟩)))
  · simp [bare _ (.inl below_hp)]
  · simp [bare _ (.inl below_hpTmp)]
  · simp [bare _ (.inr (below_blob id plain).1)]
  · simp [bare _ (.inr (below_blob id plain).2)]

/-- A missing history file is reported as missing. -/
theorem Ready.missing (h : x.Ready s) (none : s.file x.hp = none) :
    e.readDoc s x.hp = .error (.os .noent) := by
  have gone : s.get x.hp = .none := by
    rcases DirTree.file_eq_none.mp none with get | get
    · exact get
    · exact absurd get h.history_free
  have unblocked := DirTree.not_blocked_iff.mpr h.history_clear
  simp [Env.readDoc, DirTree.readFile, gone, DirTree.missing, unblocked]

/-- A key without versions is unknown. -/
theorem readKeyMeta_nil (ready : x.Ready s) (sound : x.Sound s) (empty : x.versions s = []) :
    e.readKeyMeta s x.bucket x.key = .error (.api errNoSuchKey) := by
  have noHistory : content s x.hp = none := by
    cases h : content s x.hp with
    | none => rfl
    | some c =>
      obtain ⟨vs, rfl, ne, -⟩ := sound.doc c h
      simp only [versions, h] at empty
      exact absurd empty ne
  have noFile : s.file x.op = none := by
    cases h : s.file x.op with
    | none => rfl
    | some f => simp [versions, noHistory, h] at empty
  simp only [Env.readKeyMeta, x.hp_eq, x.op_eq, except_ok_bind,
    ready.missing (content_eq_none.mp noHistory), Env.readCurrentMeta, noFile]

/-- A key with versions reads as its history. -/
theorem readKeyMeta_some (ready : x.Ready s) (sound : x.Sound s) (ne : x.versions s ≠ []) :
    ∃ flag, e.readKeyMeta s x.bucket x.key = .ok ⟨x.bucket, x.key, x.versions s, flag⟩ := by
  cases h : content s x.hp with
  | some c =>
    obtain ⟨vs, rfl, -⟩ := sound.doc c h
    obtain ⟨f, file, fc⟩ := Option.map_eq_some_iff.mp h
    have read : e.readDoc s x.hp = .ok (.keyMeta ⟨x.bucket, x.key, vs, false⟩) := by
      simp [Env.readDoc, DirTree.readFile, DirTree.file_eq_some.mp file, fc]
    refine ⟨false, ?_⟩
    simp only [Env.readKeyMeta, x.hp_eq, except_ok_bind, read, versions, h]
    rfl
  | none =>
    cases file : s.file x.op with
    | none => simp [versions, h, file] at ne
    | some f =>
      refine ⟨(e.fileMeta x.bucket x.key f).2, ?_⟩
      simp only [Env.readKeyMeta, x.hp_eq, x.op_eq, except_ok_bind,
        ready.missing (content_eq_none.mp h), Env.readCurrentMeta, file, versions, h]

/-- A single live version is the object file. -/
theorem Sound.single (sound : x.Sound s) {v : ObjectMeta} (eq : x.versions s = [v])
    (live : v.deleteMarker = false) : Env.atKeyPath v = true := by
  cases h : content s x.hp with
  | some c =>
    obtain ⟨vs, rfl, -, many⟩ := sound.doc c h
    have : vs = [v] := by simpa [versions, h, Doc.asKeyMeta] using eq
    rw [this] at many
    simp [History.singleLive, live] at many
  | none =>
    have head := sound.head
    cases file : s.file x.op with
    | none => simp [versions, h, file] at eq
    | some f =>
      rw [eq, file] at head
      simpa using head.symm

theorem loadKeyMetaOrNew_eq (ready : x.Ready s) (sound : x.Sound s) :
    e.loadKeyMetaOrNew s x.bucket x.key = x.keyMeta (x.versions s) := by
  by_cases ne : x.versions s = []
  · simp [Env.loadKeyMetaOrNew, readKeyMeta_nil ready sound ne, ne, keyMeta]
  · obtain ⟨flag, read⟩ := readKeyMeta_some ready sound ne
    simp [Env.loadKeyMetaOrNew, read, keyMeta]

end Site

end D9Store
