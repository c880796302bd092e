import D9Store.Key.Site

/-!
The steps every object command is made of: archiving the object file, moving bytes to the
key path and recording the history.

For each step there is a lemma that names the files it may change and says what they hold
afterwards. Under `Ready` archiving an existing object file and recording a history always
succeed; moving bytes to the key path can fail, since other keys may stand in the way.
-/

namespace D9Store

open Posix FilePath History

namespace Site

variable {e : Env} {x : Site e} {s t : Disk} {vs : List ObjectMeta}

/-! ### Archiving -/

theorem archiveCurrent_spec (ready : x.Ready s) {f : File} (file : s.file x.op = some f)
    {id : String} (plain : '/' ∉ id.toList) :
    ∃ t, e.archiveCurrent x.bucket x.key id s = .ok () t ∧
      Framed {x.op, x.blob id, Env.tmpOf (x.blob id)} {q | q <:+ e.versionsDir x.bucket} s t ∧
      t.file x.op = none ∧ content t (x.blob id) = some f.content := by
  have made := mkdirAll_of_clear ready.versions_clear
  have frame₁ := Framed.mkdirAll made
  have file₁ : (s.addDirs (e.versionsDir x.bucket)).file x.op = some f := by
    rw [DirTree.file_addDirs ready.versions_clear, file]
  have blob_eq : x.blob id = (id ++ ".blob") :: e.versionsDir x.bucket :=
    Env.vblobPath_eq plain x.bucket
  have holds : (s.addDirs (e.versionsDir x.bucket)).Holds (x.blob id) := by
    have made := DirTree.holds_addDirs (s := s) (p := x.blob id) (by simp [blob_eq])
      (ready.blob_free id plain)
    rwa [show (x.blob id).tail = e.versionsDir x.bucket by rw [blob_eq, List.tail_cons]] at made
  have tmp_free : (s.addDirs (e.versionsDir x.bucket)).get (Env.tmpOf (x.blob id)) ≠ some .dir := by
    intro dir
    refine ready.blobTmp_free id plain (frame₁.dir _ (fun sub => ?_) dir)
    have len := List.IsSuffix.length_le sub
    rw [blob_eq, Env.tmpOf, suffixed, List.length_cons] at len
    omega
  have apart := x.op_ne_blobTmp plain
  have ne := x.op_ne_blob plain
  have near := x.near_blob plain
  obtain ⟨t, run⟩ := Env.moveFile_runs near apart ne file₁ holds tmp_free
  obtain ⟨frame₂, -, dst, src, -⟩ := wp_ok (Env.moveFile_wp near apart ne file₁) run
  refine ⟨t, ?_, ?_, src, dst⟩
  · refine bind_ok.mpr ⟨x.op, s, reading_run x.op_eq, ?_⟩
    exact bind_ok.mpr ⟨(), _, sys_run made, sys_run run⟩
  · refine (frame₁.mono (by simp) subset_rfl).trans (frame₂.mono ?_ (by simp))
    rintro q (rfl | rfl | ⟨rfl, -⟩) <;> simp

/-! ### Moving bytes to the key path -/

/-- A move from the state root to the key path. -/
def moveToKey (x : Site e) (src : FilePath) : M Unit := do
  let op ← reading fun _ => e.objectPath x.bucket x.key
  sys (mkdirAll op.tail)
  sys (e.moveFile src op)

/-- The temporary file is in none of the directories above the object. -/
theorem tmp_free_addDirs (tmp_free : s.get (Env.tmpOf x.op) ≠ some .dir) :
    (s.addDirs x.op.tail).get (Env.tmpOf x.op) ≠ some .dir := by
  rw [DirTree.get_addDirs]
  split
  · rename_i sub
    exact absurd sub (not_suffix_tail x.op_ne_nil (length_le_suffixed _ _))
  · exact tmp_free

/-- Bytes do not reach an object path that another object is in the way of. -/
theorem bringTo_blocked {transfer : FilePath → Call File Unit}
    (blocked : ¬ ∀ q, q <:+ x.op.tail → s.file q = none) :
    wp (do
        let op ← (reading fun _ => e.objectPath x.bucket x.key : M FilePath)
        sys (mkdirAll op.tail)
        sys (transfer op))
      (fun _ _ => False) (fun _ t => t = s) s := by
  rw [wp_bind, wp_reading_const x.op_eq, wp_bind, wp_sys]
  refine wp_cases (fun _ s₁ made => ?_) (fun _ s₁ failed => ?_)
  · exact absurd (mkdirAll_ok made).1 blocked
  · exact (mkdirAll_error failed).1

section Move

variable {kind : String} {src : FilePath} {f : File}

theorem moveToKey_wp (area : e.area kind <:+ src) (file : s.file src = some f) :
    wp (x.moveToKey src)
      (fun _ t => Framed {src, x.op, Env.tmpOf x.op} {q | q <:+ x.op.tail} s t ∧
        content t x.op = some f.content ∧ t.file src = none ∧
        (t.file (Env.tmpOf x.op) = s.file (Env.tmpOf x.op) ∨
          (e.separateVolumes = true ∧ t.file (Env.tmpOf x.op) = none)))
      (fun _ t => Framed {Env.tmpOf x.op} {q | q <:+ x.op.tail} s t) s := by
  have ne : src ≠ x.op := (Env.data_not_area x.root_op area).symm
  have apart : src ≠ Env.tmpOf x.op := (Env.data_not_area x.root_tmp area).symm
  unfold moveToKey
  rw [wp_bind, wp_reading_const x.op_eq, wp_bind, wp_sys]
  refine wp_cases (fun _ s₁ made => ?_) (fun _ s₁ failed => ?_)
  swap
  · rw [(mkdirAll_error failed).1]
    exact Framed.refl s
  have frame₁ := Framed.mkdirAll made
  have file₁ : s₁.file src = some f := by rw [frame₁.file src (by simp), file]
  rw [wp_sys]
  refine wp_mono (Env.moveFile_wp x.near_op apart ne file₁) ?_ ?_
  · rintro - t ⟨frame₂, -, dst, gone, tmp⟩
    refine ⟨?_, dst, gone, ?_⟩
    · refine (frame₁.mono (by simp) subset_rfl).trans (frame₂.mono ?_ (by simp))
      rintro q (rfl | rfl | ⟨rfl, -⟩) <;> simp
    · by_cases cross : e.crosses src x.op = true
      · refine .inr ⟨?_, tmp cross⟩
        simp only [Env.crosses, Bool.and_eq_true] at cross
        exact cross.1
      · left
        rw [frame₂.file, frame₁.file _ (by simp)]
        have : Env.tmpOf x.op ≠ x.op := suffixed_ne (by decide)
        simp [Env.moveCells, this, Ne.symm apart, cross]
  · intro _ t frame₂
    exact (frame₁.mono (by simp) subset_rfl).trans (frame₂.mono subset_rfl (by simp))

theorem moveToKey_runs (area : e.area kind <:+ src) (file : s.file src = some f)
    (clear : ∀ q, q <:+ x.op.tail → s.file q = none) (free : s.get x.op ≠ some .dir)
    (tmp_free : s.get (Env.tmpOf x.op) ≠ some .dir) : ∃ t, x.moveToKey src s = .ok () t := by
  have ne : src ≠ x.op := (Env.data_not_area x.root_op area).symm
  have apart : src ≠ Env.tmpOf x.op := (Env.data_not_area x.root_tmp area).symm
  have made := mkdirAll_of_clear clear
  have frame₁ := Framed.mkdirAll made
  have file₁ : (s.addDirs x.op.tail).file src = some f := by rw [frame₁.file src (by simp), file]
  have holds := DirTree.holds_addDirs x.op_ne_nil free
  obtain ⟨t, run⟩ := Env.moveFile_runs x.near_op apart ne file₁ holds (tmp_free_addDirs tmp_free)
  exact ⟨t, bind_ok.mpr ⟨x.op, s, reading_run x.op_eq, bind_ok.mpr ⟨(), _, sys_run made, sys_run run⟩⟩⟩

/-- A move that fails although nothing is in the place of the object has changed nothing. -/
theorem moveToKey_error (area : e.area kind <:+ src) (file : s.file src = some f)
    (free : s.get x.op ≠ some .dir) (tmp_free : s.get (Env.tmpOf x.op) ≠ some .dir) {err : Err}
    (run : x.moveToKey src s = .error err t) : t = s := by
  by_cases clear : ∀ q, q <:+ x.op.tail → s.file q = none
  · obtain ⟨u, done⟩ := moveToKey_runs area file clear free tmp_free
    rw [done] at run
    cases run
  · have unchanged := wp_error (bringTo_blocked clear) run
    exact unchanged

end Move

/-! ### Copying to the object path -/

/-- The copy of a file to the object path. -/
def copyToKey (x : Site e) (src : FilePath) : M Unit := do
  let op ← reading fun _ => e.objectPath x.bucket x.key
  sys (mkdirAll op.tail)
  sys (e.copyFile src op)

section Copy

variable {src : FilePath} {f : File}

theorem copyToKey_wp (apart : src ≠ Env.tmpOf x.op) :
    wp (x.copyToKey src)
      (fun _ t => ∃ f, s.file src = some f ∧ Framed {x.op, Env.tmpOf x.op} {q | q <:+ x.op.tail} s t ∧
        content t x.op = some f.content ∧ t.file (Env.tmpOf x.op) = none)
      (fun _ t => Framed {Env.tmpOf x.op} {q | q <:+ x.op.tail} s t) s := by
  unfold copyToKey
  rw [wp_bind, wp_reading_const x.op_eq, wp_bind, wp_sys]
  refine wp_cases (fun _ s₁ made => ?_) (fun _ s₁ failed => ?_)
  swap
  · rw [(mkdirAll_error failed).1]
    exact Framed.refl s
  have frame₁ := Framed.mkdirAll made
  rw [wp_sys]
  refine wp_mono (Env.copyFile_wp x.near_op apart) ?_ ?_
  · rintro - t ⟨f, file, -, frame₂, dst, tmp⟩
    refine ⟨f, by rw [← frame₁.file src (Set.notMem_empty _), file], ?_, dst, tmp⟩
    exact (frame₁.mono (Set.empty_subset _) subset_rfl).trans
      (frame₂.mono subset_rfl (Set.empty_subset _))
  · intro _ t frame₂
    exact (frame₁.mono (Set.empty_subset _) subset_rfl).trans
      (frame₂.mono subset_rfl (Set.empty_subset _))

theorem copyToKey_runs (apart : src ≠ Env.tmpOf x.op) (file : s.file src = some f)
    (clear : ∀ q, q <:+ x.op.tail → s.file q = none) (free : s.get x.op ≠ some .dir)
    (tmp_free : s.get (Env.tmpOf x.op) ≠ some .dir) : ∃ t, x.copyToKey src s = .ok () t := by
  have made := mkdirAll_of_clear clear
  have file₁ : (s.addDirs x.op.tail).file src = some f := by
    rw [(Framed.mkdirAll made).file src (Set.notMem_empty _), file]
  obtain ⟨t, run⟩ := Env.copyFile_runs x.near_op apart file₁
    (DirTree.holds_addDirs x.op_ne_nil free) (tmp_free_addDirs tmp_free)
  exact ⟨t, bind_ok.mpr ⟨x.op, s, reading_run x.op_eq, bind_ok.mpr ⟨(), _, sys_run made, sys_run run⟩⟩⟩

theorem copyToKey_error (apart : src ≠ Env.tmpOf x.op) (file : s.file src = some f)
    (free : s.get x.op ≠ some .dir) (tmp_free : s.get (Env.tmpOf x.op) ≠ some .dir) {err : Err}
    (run : x.copyToKey src s = .error err t) : t = s := by
  by_cases clear : ∀ q, q <:+ x.op.tail → s.file q = none
  · obtain ⟨u, done⟩ := copyToKey_runs apart file clear free tmp_free
    rw [done] at run
    cases run
  · have unchanged := wp_error (bringTo_blocked clear) run
    exact unchanged

end Copy

theorem putCurrentBytes_eq (src : FilePath) :
    e.putCurrentBytes x.bucket x.key src = x.moveToKey src := rfl

theorem promoteArchived_eq (id : String) :
    e.promoteArchived x.bucket x.key id = x.moveToKey (x.blob id) := rfl

/-! ### Recording the history -/

/-- The object file after its attributes were rewritten for the latest version. -/
def stampHead (vs : List ObjectMeta) (f : File) : File :=
  match vs with
  | v :: _ => if Env.atKeyPath v then f.stamp v else f
  | [] => f

theorem stampHead_content (vs : List ObjectMeta) (f : File) :
    (stampHead vs f).content = f.content := by
  cases vs with
  | nil => rfl
  | cons v vs =>
    unfold stampHead
    dsimp only
    split <;> rfl

/-- The directories recording the history `vs` may create: none where it needs no file. -/
def historyDirs (x : Site e) (vs : List ObjectMeta) : Set FilePath :=
  {q | singleLive vs = false ∧ q <:+ x.hp.tail}

/-- The files recording the history `vs` may change. -/
def recordCells (x : Site e) (vs : List ObjectMeta) : Set FilePath :=
  {q | q = x.op ∨ q = x.hp ∨ (singleLive vs = false ∧ q = Env.jsonTmp x.hp)}

theorem record_frame (h : Framed (x.recordCells vs) (x.historyDirs vs) s t) :
    Framed {x.op, x.hp, Env.jsonTmp x.hp} x.dirs s t :=
  h.mono (fun _ mem => mem.imp id (Or.imp id And.right)) fun _ sub => .inr (.inl sub.2)

theorem writeHead_spec (head : vs.head?.any Env.atKeyPath = true → (s.file x.op).isSome = true) :
    ∃ t, e.writeHead (x.keyMeta vs) s = .ok () t ∧ Framed {x.op} ∅ s t ∧
      t.file x.op = (s.file x.op).map (stampHead vs) := by
  cases vs with
  | nil => exact ⟨s, rfl, Framed.refl s, by cases s.file x.op <;> rfl⟩
  | cons v vs =>
    have guard : (!v.deleteMarker && v.blobID == "") = Env.atKeyPath v := by
      simp [Env.atKeyPath, Bool.and_comm]
    simp only [Env.writeHead, keyMeta, KeyMeta.latest, List.head?_cons, guard]
    by_cases here : Env.atKeyPath v = true
    · obtain ⟨f, file⟩ := Option.isSome_iff_exists.mp (head (by simp [here]))
      obtain ⟨t, run, frame, stamped⟩ := writeCurrentXattrs_spec file v
      refine ⟨t, ?_, frame, ?_⟩
      · rw [if_pos here]
        exact bind_ok.mpr ⟨x.op, s, reading_run x.op_eq, run⟩
      · simp [stamped, file, stampHead, here]
    · refine ⟨s, by simp [here], Framed.refl s, ?_⟩
      cases s.file x.op <;> simp [stampHead, here]

theorem writeHistory_spec (ready : x.Ready s) (vs : List ObjectMeta) :
    ∃ t, e.writeHistory (x.keyMeta vs) s = .ok () t ∧
      Framed {q | q = x.hp ∨ (singleLive vs = false ∧ q = Env.jsonTmp x.hp)} (x.historyDirs vs) s t ∧
      content t x.hp = if singleLive vs then none else some (.json (.keyMeta (x.keyMeta vs))) := by
  have marshal : e.marshal (.keyMeta (x.keyMeta vs)) = .ok (.keyMeta (x.keyMeta vs)) := rfl
  by_cases single : singleLive vs = true
  · obtain ⟨t, run⟩ := Env.removeIfPresent_runs ready.history_clear ready.history_free
    obtain ⟨frame, gone⟩ := wp_ok (Env.removeIfPresent_wp x.hp) run
    refine ⟨t, bind_ok.mpr ⟨x.hp, s, reading_run x.hp_eq, ?_⟩, frame.mono (by simp) (Set.empty_subset _), ?_⟩
    · unfold singleLive at single
      split at single
      · simp_all [keyMeta]
      · cases single
    · rw [if_pos single, content_eq_none, gone]
  · obtain ⟨t, run⟩ := Env.writeThrough_runs (.json (.keyMeta (x.keyMeta vs))) x.hp_ne_nil
      ready.history_clear ready.history_free ready.historyTmp_free
    obtain ⟨frame, written, -⟩ := wp_ok (Env.writeThrough_wp _) run
    refine ⟨t, bind_ok.mpr ⟨x.hp, s, reading_run x.hp_eq, ?_⟩,
      ?_, by rw [if_neg single, written]⟩
    · rw [← Env.writeJSON_eq marshal] at run
      dsimp only [keyMeta] at run ⊢
      split
      · rename_i v
        simp only [singleLive, Bool.not_eq_true', Bool.not_eq_false] at single
        rw [if_pos single, run]
      · exact run
    · rw [Bool.not_eq_true] at single
      exact frame.mono (fun q mem => mem.imp id fun eq => ⟨single, eq⟩) fun q sub => ⟨single, sub⟩

/-- Recording a history: the object file keeps its bytes, and the history file exists for
all but a single live version. -/
theorem writeKeyMeta_spec (ready : x.Ready s) (vs : List ObjectMeta)
    (head : vs.head?.any Env.atKeyPath = true → (s.file x.op).isSome = true) :
    ∃ t, e.writeKeyMeta (x.keyMeta vs) s = .ok () t ∧
      Framed (x.recordCells vs) (x.historyDirs vs) s t ∧
      t.file x.op = (s.file x.op).map (stampHead vs) ∧
      content t x.hp = if singleLive vs then none else some (.json (.keyMeta (x.keyMeta vs))) := by
  obtain ⟨s₁, run₁, frame₁, stamped⟩ := writeHead_spec head
  obtain ⟨t, run₂, frame₂, recorded⟩ := writeHistory_spec
    (ready.framed (B := ∅) (S := ∅) (frame₁.mono (by simp [cells]) (by simp))) vs
  refine ⟨t, bind_ok.mpr ⟨(), s₁, run₁, run₂⟩, ?_, ?_, recorded⟩
  · exact (frame₁.mono (fun q eq => .inl eq) (Set.empty_subset _)).trans
      (frame₂.mono (fun q mem => .inr mem) subset_rfl)
  · rw [frame₂.file, stamped]
    simp [x.op_ne_hp, x.op_ne_hpTmp]

/-! ### Reading a recorded history -/

/-- The metadata of `v` as they read back from an object file that carries them: empty
attributes are absent ones, and size and time are the file's. -/
def readBack (x : Site e) (f : File) (v : ObjectMeta) : ObjectMeta :=
  { v with
    bucket := x.bucket
    key := x.key
    versionID := if v.versionID = "" then "null" else v.versionID
    blobID := ""
    size := e.size f.content
    lastModified := if v.lastModified.isZero then f.mtime else v.lastModified.fileTime
    isLatest := true
    deleteMarker := false
    legalHold := v.legalHold.filter fun hold => hold.status ≠ "" }

theorem setStr_getD (text : String) : (Xattrs.setStr text).getD "" = text := by
  unfold Xattrs.setStr
  split <;> simp_all

theorem setMap_getD (m : StrMap) : (Xattrs.setMap m).getD [] = m := by
  unfold Xattrs.setMap
  split <;> simp_all

theorem fileMeta_stamp (f : File) (v : ObjectMeta) :
    e.fileMeta x.bucket x.key (f.stamp v) = (x.readBack f v, false) := by
  have hold : ((v.legalHold.bind fun hold => Xattrs.setStr hold.status).bind Xattrs.setStr).map
      LegalHold.mk = v.legalHold.filter fun hold => hold.status ≠ "" := by
    cases v.legalHold with
    | none => rfl
    | some hold =>
      by_cases empty : hold.status = "" <;> simp [Xattrs.setStr, empty, Option.filter]
  have id : (Xattrs.setStr v.versionID).getD "null" =
      if v.versionID = "" then "null" else v.versionID := by
    by_cases empty : v.versionID = "" <;> simp [Xattrs.setStr, empty]
  simp only [Env.fileMeta, File.stamp, Xattrs.store, if_true, setStr_getD, setMap_getD, hold, id,
    readBack]

/-- The disk holds the history `vs` of the key. -/
structure Recorded (x : Site e) (vs : List ObjectMeta) (t : Disk) : Prop where
  history : content t x.hp = if singleLive vs then none else some (.json (.keyMeta (x.keyMeta vs)))
  head : (t.file x.op).isSome = vs.head?.any Env.atKeyPath
  stamped : ∀ v, vs.head? = some v → Env.atKeyPath v = true →
    ∃ f : File, t.file x.op = some (f.stamp v)

namespace Recorded

variable {vs : List ObjectMeta} {v : ObjectMeta}

theorem versions_many (h : x.Recorded vs t) (many : singleLive vs = false) : x.versions t = vs := by
  have history := h.history
  rw [many] at history
  simp only [versions, history]
  rfl

theorem versions_single (h : x.Recorded [v] t) (here : Env.atKeyPath v = true) :
    ∃ f : File, t.file x.op = some (f.stamp v) ∧ x.versions t = [x.readBack f v] := by
  have live : singleLive [v] = true := by simp [singleLive, (atKeyPath_iff.mp here).2]
  obtain ⟨f, file⟩ := h.stamped v rfl here
  have history := h.history
  rw [if_pos live] at history
  exact ⟨f, file, by simp only [versions, history, file, fileMeta_stamp]⟩

/-- The record of a single archived version is lost: neither file tells of it. -/
theorem versions_lost (h : x.Recorded [v] t) (live : v.deleteMarker = false)
    (away : Env.atKeyPath v = false) : x.versions t = [] := by
  have history := h.history
  rw [if_pos (show singleLive [v] = true by simp [singleLive, live])] at history
  have noFile : t.file x.op = none := by
    have := h.head
    rw [List.head?_cons, Option.any_some, away] at this
    exact Option.isNone_iff_eq_none.mp (by simpa using this)
  simp only [versions, history, noFile]

/-- A well-formed history that was recorded is found again, except for a single archived
version. -/
theorem cases (h : x.Recorded vs t) :
    (singleLive vs = false ∧ x.versions t = vs) ∨
    (∃ (v : ObjectMeta) (f : File), vs = [v] ∧ Env.atKeyPath v = true ∧ t.file x.op = some (f.stamp v) ∧
      x.versions t = [x.readBack f v]) ∨
    (∃ v, vs = [v] ∧ v.deleteMarker = false ∧ v.blobID ≠ "" ∧ x.versions t = []) := by
  cases single : singleLive vs with
  | false => exact .inl ⟨rfl, h.versions_many single⟩
  | true =>
    right
    unfold singleLive at single
    split at single
    · rename_i v
      cases here : Env.atKeyPath v with
      | true =>
        obtain ⟨f, file, eq⟩ := h.versions_single here
        exact .inl ⟨v, f, rfl, here, file, eq⟩
      | false =>
        have live : v.deleteMarker = false := by simpa using single
        refine .inr ⟨v, rfl, live, ?_, h.versions_lost live here⟩
        intro blob
        simp [Env.atKeyPath, blob, live] at here
    · cases single

theorem sound (h : x.Recorded vs t) (shape : Shape x.key vs) (latest : Latest vs) (ne : vs ≠ []) :
    x.Sound t := by
  have doc : ∀ c, content t x.hp = some c →
      ∃ vs, c = .json (.keyMeta ⟨x.bucket, x.key, vs, false⟩) ∧ vs ≠ [] ∧ singleLive vs = false := by
    intro c found
    rw [h.history] at found
    split at found
    · cases found
    · rename_i many
      cases found
      exact ⟨vs, rfl, ne, by simpa using many⟩
  rcases h.cases with ⟨-, eq⟩ | ⟨v, f, rfl, here, file, eq⟩ | ⟨v, rfl, live, blob, eq⟩
  · exact ⟨doc, by rwa [eq], by rwa [eq], by rw [eq]; exact h.head⟩
  · refine ⟨doc, ?_, ?_, ?_⟩
    · have named := shape.named v List.mem_cons_self
      have plain := shape.plainID v List.mem_cons_self
      rw [eq]
      constructor <;> simp [readBack, named, plain]
    · rw [eq]
      rintro w rest ⟨⟩
      exact ⟨rfl, by simp⟩
    · rw [eq, file]
      simp [readBack, Env.atKeyPath]
  · refine ⟨doc, by rw [eq]; exact Shape.nil, by rw [eq]; exact Latest.nil, ?_⟩
    rw [eq, h.head]
    simp [Env.atKeyPath, blob]

end Recorded

theorem record_spec (ready : x.Ready s) (vs : List ObjectMeta)
    (head : (s.file x.op).isSome = vs.head?.any Env.atKeyPath) :
    ∃ t, e.writeKeyMeta (x.keyMeta vs) s = .ok () t ∧
      Framed (x.recordCells vs) (x.historyDirs vs) s t ∧
      t.file x.op = (s.file x.op).map (stampHead vs) ∧ content t x.op = content s x.op ∧
      x.Recorded vs t := by
  obtain ⟨t, run, frame, file, history⟩ := writeKeyMeta_spec ready vs fun here => by
    rw [head, here]
  have same : content t x.op = content s x.op := by
    simp only [content, file, Option.map_map]
    congr 1
    funext f
    exact stampHead_content vs f
  refine ⟨t, run, frame, file, same, history, ?_, ?_⟩
  · rw [file, Option.isSome_map, head]
  · intro v hv here
    rw [hv, Option.any_some, here] at head
    obtain ⟨f, hf⟩ := Option.isSome_iff_exists.mp head
    refine ⟨f, ?_⟩
    rw [file, hf]
    cases vs with
    | nil => cases hv
    | cons w rest =>
      cases hv
      simp [stampHead, here]

end Site

end D9Store
