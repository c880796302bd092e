import D9Store.Key.Steps

/-!
Installing a new latest version: displacing the object file, bringing the new bytes to the
key path and recording the history. Put, multipart completion and copy differ only in
where the bytes come from.
-/

namespace D9Store

open Posix FilePath History

namespace Site

variable {e : Env} {x : Site e} {s t : Disk} {nv : ObjectMeta} {enabled : Bool} {src : FilePath}
    {g : File}

/-! ### Displacing -/

/-- The files displacement changes. -/
def displacedCells (x : Site e) (arch : Option String) : Set FilePath :=
  {q | ∃ id, arch = some id ∧ (q = x.op ∨ q = x.blob id ∨ q = Env.tmpOf (x.blob id))}

theorem displaceCurrent_spec (ready : x.Ready s) (sound : x.Sound s) (enabled : Bool) :
    ∃ t, e.displaceCurrent (x.keyMeta (x.versions s)) enabled s =
        .ok (x.keyMeta (displaced enabled (x.versions s))) t ∧
      Framed (x.displacedCells (archivedID enabled (x.versions s)))
        {q | q <:+ e.versionsDir x.bucket} s t ∧
      (archivedID enabled (x.versions s) = none → t = s) ∧
      ∀ id, archivedID enabled (x.versions s) = some id →
        t.file x.op = none ∧ content t (x.blob id) = content s x.op ∧ (s.file x.op).isSome := by
  cases arch : archivedID enabled (x.versions s) with
  | none =>
    refine ⟨s, ?_, Framed.refl s, fun _ => rfl, fun id h => by cases h⟩
    cases eq : x.versions s with
    | nil => simp [Env.displaceCurrent, keyMeta, displaced]
    | cons cur rest =>
      rw [eq] at arch
      simp only [Env.displaceCurrent, keyMeta, displaced, archivedID] at arch ⊢
      split
      · rfl
      · rename_i here
        rw [if_neg here] at arch
        split
        · rename_i keep
          rw [if_pos keep] at arch
          cases arch
        · rfl
  | some id =>
    obtain ⟨cur, rest, eq, here, rfl, keep, list⟩ := archivedID_eq_some arch
    have isFile : (s.file x.op).isSome := by
      rw [sound.head, eq]
      simp [here]
    obtain ⟨f, file⟩ := Option.isSome_iff_exists.mp isFile
    have plain := sound.shape.plainID cur (by rw [eq]; exact List.mem_cons_self)
    obtain ⟨t, run, frame, gone, moved⟩ := archiveCurrent_spec ready file plain
    refine ⟨t, ?_, frame.mono ?_ subset_rfl, fun h => (by cases h), ?_⟩
    · obtain ⟨blob, live⟩ := atKeyPath_iff.mp here
      have keep' : (enabled || cur.versionID != "null") = true := by
        rcases keep with h | h <;> simp [h]
      rw [list]
      simp only [Env.displaceCurrent, keyMeta, eq, live, blob, bne_self_eq_false, Bool.or_false,
        Bool.false_eq_true, if_false, keep', if_true]
      exact bind_ok.mpr ⟨(), t, run, rfl⟩
    · rintro q (rfl | rfl | rfl)
      · exact ⟨_, rfl, .inl rfl⟩
      · exact ⟨_, rfl, .inr (.inl rfl)⟩
      · exact ⟨_, rfl, .inr (.inr rfl)⟩
    · rintro id ⟨⟩
      exact ⟨gone, by rw [moved, content, file, Option.map_some], isFile⟩

/-! ### A new latest version -/

/-- The disk after a new latest version `nv` with content `c` was installed, at the expense
of the staged payloads in `S`. -/
structure Installed (x : Site e) (enabled : Bool) (nv : ObjectMeta) (c : Content)
    (S : Set FilePath) (s t : Disk) : Prop where
  frame : Framed (x.cells {id | archivedID enabled (x.versions s) = some id} S) x.dirs s t
  current : content t x.op = some c
  archived : ∀ id, archivedID enabled (x.versions s) = some id →
    content t (x.blob id) = content s x.op
  recorded : x.Recorded (prepended nv (displaced enabled (x.versions s))) t
  tmp : t.file (Env.tmpOf x.op) = s.file (Env.tmpOf x.op) ∨ t.file (Env.tmpOf x.op) = none
  /-- Without an archived version and without a history file the state root is left alone. -/
  quiet : archivedID enabled (x.versions s) = none →
    singleLive (prepended nv (displaced enabled (x.versions s))) = true →
    Framed {q | q = x.op ∨ q = Env.tmpOf x.op ∨ q = x.hp ∨ (q ∈ S ∧ e.area "staging" <:+ q)}
      {q | q <:+ x.op.tail} s t

/-- Metadata fit to head the history of the key. -/
structure Fit (x : Site e) (nv : ObjectMeta) : Prop where
  own : nv.key = x.key
  named : nv.versionID ≠ ""
  plain : '/' ∉ nv.versionID.toList
  blob : nv.blobID = ""
  live : nv.deleteMarker = false

theorem Fit.shape (fit : x.Fit nv) (sound : x.Sound s) :
    Shape x.key (prepended nv (displaced enabled (x.versions s))) :=
  sound.shape.displaced.prepended (displaced_archived sound.shape) fit.own fit.named fit.plain
    fit.blob

theorem displacedCells_subset (arch : Option String) (S : Set FilePath)
    (plain : ∀ id, arch = some id → '/' ∉ id.toList) :
    x.displacedCells arch ⊆ x.cells {id | arch = some id} S := by
  rintro q ⟨id, eq, rfl | h⟩
  · exact .inl rfl
  · exact .inr (.inr (.inr (.inr (.inl ⟨id, eq, plain id eq, h⟩))))

theorem plain_archivedID (sound : x.Sound s) {id : String}
    (h : archivedID enabled (x.versions s) = some id) : '/' ∉ id.toList := by
  obtain ⟨cur, rest, eq, -, rfl, -⟩ := archivedID_eq_some h
  exact sound.shape.plainID cur (by rw [eq]; exact List.mem_cons_self)

/-- The tail shared by all installations: from the state with the new bytes at the key
path, recording succeeds. -/
theorem installed_of_moved {c : Content} {S : Set FilePath} {s₁ s₂ : Disk} (ready : x.Ready s)
    (sound : x.Sound s) (fit : x.Fit nv)
    (frame₁ : Framed (x.displacedCells (archivedID enabled (x.versions s)))
      {q | q <:+ e.versionsDir x.bucket} s s₁)
    (idle : archivedID enabled (x.versions s) = none → s₁ = s)
    (archived : ∀ id, archivedID enabled (x.versions s) = some id →
      content s₁ (x.blob id) = content s x.op)
    (frame₂ : Framed {q | q = x.op ∨ q = Env.tmpOf x.op ∨ (q ∈ S ∧ e.area "staging" <:+ q)}
      {q | q <:+ x.op.tail} s₁ s₂) (current : content s₂ x.op = some c)
    (tmp : s₂.file (Env.tmpOf x.op) = s₁.file (Env.tmpOf x.op) ∨ s₂.file (Env.tmpOf x.op) = none) :
    ∃ t, e.writeKeyMeta ((x.keyMeta (displaced enabled (x.versions s))).prependLatest nv) s₂ =
      .ok () t ∧ x.Installed enabled nv c S s t ∧
      Framed {x.op, x.hp, Env.jsonTmp x.hp} x.dirs s₂ t := by
  set arch := archivedID enabled (x.versions s) with arch_def
  have plain : ∀ id, arch = some id → '/' ∉ id.toList := fun id h => plain_archivedID sound h
  have frame₁' : Framed (x.cells {id | arch = some id} S) x.dirs s s₁ :=
    frame₁.mono (displacedCells_subset arch S plain) fun q h => .inr (.inr (.inl h))
  have frame₂' : Framed (x.cells {id | arch = some id} S) x.dirs s₁ s₂ := by
    refine frame₂.mono ?_ fun q h => .inl h
    rintro q (h | h | h)
    · exact .inl h
    · exact .inr (.inl h)
    · exact .inr (.inr (.inr (.inr (.inr h))))
  have ready₂ : x.Ready s₂ :=
    ready.framed (frame₁'.trans frame₂')
  have isFile : (s₂.file x.op).isSome = true := by
    obtain ⟨f, file, -⟩ := Option.map_eq_some_iff.mp current
    simp [file]
  have here : Env.atKeyPath { nv with isLatest := true } = true := by
    simp [Env.atKeyPath, fit.blob, fit.live]
  obtain ⟨t, run, exact₃, -, same, recorded⟩ := record_spec ready₂
    (prepended nv (displaced enabled (x.versions s)))
    (by rw [isFile]; simp [prepended, here])
  have frame₃ := record_frame exact₃
  have tmp_ne : Env.tmpOf x.op ≠ x.op := suffixed_ne (by decide)
  have tmp_out₃ : Env.tmpOf x.op ∉ ({x.op, x.hp, Env.jsonTmp x.hp} : Set FilePath) := by
    simp [tmp_ne, Env.data_not_area x.root_tmp x.area_hp, Env.data_not_area x.root_tmp x.area_hpTmp]
  have tmp_out₁ : Env.tmpOf x.op ∉ x.displacedCells arch := by
    rintro ⟨id, eq, h | h | h⟩
    · exact tmp_ne h
    · exact Env.data_not_area x.root_tmp (x.area_blob (plain id eq)) h
    · exact Env.data_not_area x.root_tmp (x.area_blobTmp (plain id eq)) h
  refine ⟨t, run, ⟨?_, by rw [same, current], fun id eq => ?_, recorded, ?_, ?_⟩,
    frame₃⟩
  · refine (frame₁'.trans frame₂').trans (frame₃.mono ?_ subset_rfl)
    rintro q (h | h | h)
    · exact .inl h
    · exact .inr (.inr (.inl h))
    · exact .inr (.inr (.inr (.inl h)))
  · have blob := x.area_blob (plain id eq)
    rw [← archived id eq]
    refine content_of_file_eq ((frame₃.file _ ?_).trans (frame₂.file _ ?_))
    · have h₁ := Ne.symm (x.op_ne_blob (plain id eq))
      have h₂ := Ne.symm (x.hp_ne_blob (plain id eq))
      have h₃ := Env.area_ne blob x.area_hpTmp (by decide)
      simp [h₁, h₂, h₃]
    · rintro (h | h | h)
      · exact x.op_ne_blob (plain id eq) h.symm
      · exact Env.data_not_area x.root_tmp blob h.symm
      · exact absurd (Env.area_unique blob h.2) (by decide)
  · rw [frame₃.file _ tmp_out₃]
    rcases tmp with h | h
    · exact .inl (h.trans (frame₁.file _ tmp_out₁))
    · exact .inr h
  · intro noArch single
    rw [idle noArch] at frame₂
    refine (frame₂.mono ?_ subset_rfl).trans (exact₃.mono ?_ ?_)
    · rintro q (h | h | h)
      · exact .inl h
      · exact .inr (.inl h)
      · exact .inr (.inr (.inr h))
    · rintro q (h | h | ⟨many, -⟩)
      · exact .inl h
      · exact .inr (.inr (.inl h))
      · cases single.symm.trans many
    · rintro q ⟨many, -⟩
      cases single.symm.trans many

/-! ### Bringing the bytes -/

/-- From `s`, the program `bring` puts the content `c` at the object path, at the expense of
the staged payloads in `S`, and then `R` holds. -/
structure Brings (x : Site e) (bring : M Unit) (c : Content) (S : Set FilePath)
    (R : Disk → Prop) (s : Disk) : Prop where
  ok : ∀ {t}, bring s = .ok () t →
    Framed {q | q = x.op ∨ q = Env.tmpOf x.op ∨ (q ∈ S ∧ e.area "staging" <:+ q)}
      {q | q <:+ x.op.tail} s t ∧
    content t x.op = some c ∧
    (t.file (Env.tmpOf x.op) = s.file (Env.tmpOf x.op) ∨ t.file (Env.tmpOf x.op) = none) ∧ R t
  error : ∀ {err t}, bring s = .error err t →
    Framed {Env.tmpOf x.op} {q | q <:+ x.op.tail} s t
  runs : (∀ q, q <:+ x.op.tail → s.file q = none) → s.get x.op ≠ some .dir →
    s.get (Env.tmpOf x.op) ≠ some .dir → ∃ t, bring s = .ok () t
  unchanged : ∀ {err t}, s.get x.op ≠ some .dir → s.get (Env.tmpOf x.op) ≠ some .dir →
    bring s = .error err t → t = s

/-- A staged payload is moved to the object path. -/
theorem brings_move (staged : e.area "staging" <:+ src) (file : s.file src = some g) :
    x.Brings (e.putCurrentBytes x.bucket x.key src) g.content {src}
      (fun t => t.file src = none ∧ (e.separateVolumes = false →
        t.file (Env.tmpOf x.op) = s.file (Env.tmpOf x.op))) s := by
  rw [putCurrentBytes_eq]
  refine ⟨fun moved => ?_, fun failed => ?_, moveToKey_runs staged file,
    fun free tmp_free failed => moveToKey_error staged file free tmp_free failed⟩
  · obtain ⟨frame, current, gone, tmp⟩ := wp_ok (moveToKey_wp staged file) moved
    refine ⟨frame.mono ?_ subset_rfl, current, tmp.imp id And.right, gone, fun oneVolume => ?_⟩
    · rintro q (rfl | rfl | rfl)
      · exact .inr (.inr ⟨rfl, staged⟩)
      · exact .inl rfl
      · exact .inr (.inl rfl)
    · rcases tmp with same | ⟨separate, -⟩
      · exact same
      · rw [oneVolume] at separate
        cases separate
  · have frame := wp_error (moveToKey_wp staged file) failed
    exact frame

/-- An object is copied to the object path. -/
theorem brings_copy (apart : src ≠ Env.tmpOf x.op) (file : s.file src = some g) :
    x.Brings (x.copyToKey src) g.content ∅ (fun _ => True) s := by
  refine ⟨fun copied => ?_, fun failed => ?_, copyToKey_runs apart file,
    fun free tmp_free failed => copyToKey_error apart file free tmp_free failed⟩
  · obtain ⟨f, found, frame, current, tmp⟩ := wp_ok (copyToKey_wp apart) copied
    cases file.symm.trans found
    refine ⟨frame.mono ?_ subset_rfl, current, .inr tmp, trivial⟩
    rintro q (rfl | rfl)
    · exact .inl rfl
    · exact .inr (.inl rfl)
  · have frame := wp_error (copyToKey_wp apart) failed
    exact frame

/-- What an installation that failed leaves behind: at most a stray temporary file, and only
where a directory is in the place of the object. Otherwise a file is in its way. -/
structure Stray (x : Site e) (s t : Disk) : Prop where
  frame : Framed {Env.tmpOf x.op} x.dirs s t
  same : s.get x.op ≠ some .dir → t = s
  blocked : s.get x.op ≠ some .dir → ∃ q, q <:+ x.op.tail ∧ (s.file q).isSome = true

section Bring

variable {bring : M Unit} {c : Content} {S : Set FilePath} {R : Disk → Prop} {enabled : Bool}

theorem tmp_out_displaced (sound : x.Sound s) :
    Env.tmpOf x.op ∉ x.displacedCells (archivedID enabled (x.versions s)) := by
  rintro ⟨id, eq, h | h | h⟩
  · exact suffixed_ne (by decide) h
  · exact Env.data_not_area x.root_tmp (x.area_blob (plain_archivedID sound eq)) h
  · exact Env.data_not_area x.root_tmp (x.area_blobTmp (plain_archivedID sound eq)) h

/-- What displacement made of the disk has room for the successor of an object. -/
theorem bring_runs_after_file (sound : x.Sound s) {s₁ : Disk} {f : File}
    (file : s.file x.op = some f) (tmp_free : s.get (Env.tmpOf x.op) ≠ some .dir)
    (frame : Framed (x.displacedCells (archivedID enabled (x.versions s)))
      {q | q <:+ e.versionsDir x.bucket} s s₁)
    (brings : x.Brings bring c S R s₁) : ∃ t, bring s₁ = .ok () t := by
  have out : ∀ q, e.root <:+ q → ¬ q <:+ e.versionsDir x.bucket := fun q data sub =>
    Env.data_not_area (data.trans sub) (Env.area_versionsDir x.tame) rfl
  refine brings.runs (fun q sub => ?_) (fun dir => ?_) fun dir => ?_
  · rw [frame.file q, Env.clear_of_file file q sub]
    have up : q <:+ x.op := sub.trans (List.tail_suffix x.op)
    rintro ⟨id, eq, rfl | rfl | rfl⟩
    · exact not_suffix_tail x.op_ne_nil le_rfl sub
    · exact Env.data_not_area x.root_op ((x.area_blob (plain_archivedID sound eq)).trans up) rfl
    · exact Env.data_not_area x.root_op
        ((x.area_blobTmp (plain_archivedID sound eq)).trans up) rfl
  · have := frame.dir _ (out _ x.root_op) dir
    rw [DirTree.file_eq_some.mp file] at this
    cases this
  · exact tmp_free (frame.dir _ (out _ x.root_tmp) dir)

/-- Installing the bytes that `bring` brings. It fails only where another key stands in the
way. -/
theorem install_by {nv : ObjectMeta} (ready : x.Ready s) (sound : x.Sound s) (fit : x.Fit nv)
    (brings : ∀ s₁, Framed (x.displacedCells (archivedID enabled (x.versions s)))
      {q | q <:+ e.versionsDir x.bucket} s s₁ → x.Brings bring c S R s₁) :
    wp (do
        let km ← e.displaceCurrent (x.keyMeta (x.versions s)) enabled
        bring
        e.writeKeyMeta (km.prependLatest nv))
      (fun _ t => x.Installed enabled nv c S s t ∧
        ∃ s₂, R s₂ ∧ Framed {x.op, x.hp, Env.jsonTmp x.hp} x.dirs s₂ t)
      (fun _ t => s.get (Env.tmpOf x.op) ≠ some .dir → x.Stray s t) s := by
  obtain ⟨s₁, displacing, frame₁, idle, archived⟩ := displaceCurrent_spec ready sound enabled
  have bring₁ := brings s₁ frame₁
  rw [wp_bind]
  refine wp_of_run displacing ?_
  rw [wp_bind]
  refine wp_cases (fun _ s₂ moved => ?_) (fun err s₂ failed => ?_)
  · obtain ⟨frame₂, current, tmp, extra⟩ := bring₁.ok moved
    obtain ⟨t, run, installed, frame₃⟩ := installed_of_moved ready sound fit frame₁ idle
      (fun id eq => (archived id eq).2.1) frame₂ current tmp
    exact wp_of_run run ⟨installed, s₂, extra, frame₃⟩
  · intro tmp_free
    -- where an object file was, its successor fits
    have noFile : s.file x.op = none := by
      by_contra found
      obtain ⟨f, file⟩ := Option.ne_none_iff_exists'.mp found
      obtain ⟨u, run⟩ := bring_runs_after_file sound file tmp_free frame₁ bring₁
      rw [run] at failed
      cases failed
    have noArch : archivedID enabled (x.versions s) = none := by
      cases eq : archivedID enabled (x.versions s) with
      | none => rfl
      | some id =>
        have := (archived id eq).2.2
        rw [noFile] at this
        cases this
    cases idle noArch
    refine ⟨(bring₁.error failed).mono subset_rfl fun q h => .inl h,
      fun free => bring₁.unchanged free tmp_free failed, fun free => ?_⟩
    by_contra unblocked
    obtain ⟨u, run⟩ := bring₁.runs (fun q sub => by
      by_contra found
      exact unblocked ⟨q, sub, Option.isSome_iff_ne_none.mpr found⟩) free tmp_free
    rw [run] at failed
    cases failed

end Bring

theorem staged_out_displaced (sound : x.Sound s) (staged : e.area "staging" <:+ src) :
    src ∉ x.displacedCells (archivedID enabled (x.versions s)) := by
  rintro ⟨id, eq, h | h | h⟩
  · exact Env.data_not_area x.root_op staged h.symm
  · exact Env.area_ne staged (x.area_blob (plain_archivedID sound eq)) (by decide) h
  · exact Env.area_ne staged (x.area_blobTmp (plain_archivedID sound eq)) (by decide) h

/-- Installing a staged payload. -/
theorem install_wp (enabled : Bool) (ready : x.Ready s) (sound : x.Sound s) (fit : x.Fit nv)
    (staged : e.area "staging" <:+ src) (file : s.file src = some g) :
    wp (do
        let km ← e.displaceCurrent (x.keyMeta (x.versions s)) enabled
        e.putCurrentBytes x.bucket x.key src
        e.writeKeyMeta (km.prependLatest nv))
      (fun _ t => x.Installed enabled nv g.content {src} s t ∧ t.file src = none ∧
        (e.separateVolumes = false → t.file (Env.tmpOf x.op) = s.file (Env.tmpOf x.op)))
      (fun _ t => s.get (Env.tmpOf x.op) ≠ some .dir → x.Stray s t) s := by
  have tmp_ne : Env.tmpOf x.op ≠ x.op := suffixed_ne (by decide)
  have brings : ∀ s₁, Framed (x.displacedCells (archivedID enabled (x.versions s)))
      {q | q <:+ e.versionsDir x.bucket} s s₁ →
      x.Brings (e.putCurrentBytes x.bucket x.key src) g.content {src}
        (fun t => t.file src = none ∧ (e.separateVolumes = false →
          t.file (Env.tmpOf x.op) = s.file (Env.tmpOf x.op))) s₁ := fun s₁ frame₁ => by
    rw [← frame₁.file _ (tmp_out_displaced sound)]
    exact brings_move staged ((frame₁.file src (staged_out_displaced sound staged)).trans file)
  refine wp_mono (install_by ready sound fit brings) ?_ fun _ _ left => left
  rintro - t ⟨installed, s₂, ⟨gone, tmp⟩, frame₃⟩
  refine ⟨installed, ?_, fun oneVolume => ?_⟩
  · rw [frame₃.file src, gone]
    simp [Ne.symm (Env.data_not_area x.root_op staged),
      Env.area_ne staged x.area_hp (by decide), Env.area_ne staged x.area_hpTmp (by decide)]
  · rw [frame₃.file, tmp oneVolume]
    simp [tmp_ne, Env.data_not_area x.root_tmp x.area_hp,
      Env.data_not_area x.root_tmp x.area_hpTmp]

end Site

end D9Store
