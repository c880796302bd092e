import D9Store.Uploads.Completion

/-!
What a command on an upload can reach with the upload id it is given.

The id is joined into the path of the upload's record, which is read as JSON, rewritten and
removed, and into a pattern below the data root whose matches are removed. Neither path is
confined, so that an id with `..` segments names other files of the state root: every JSON file
there reads as an upload.
-/

namespace D9Store

open Posix FilePath

namespace Env

variable {e : Env} {s t : Disk} {c : Command} {p : FilePath} {f : File} {kind : String} {x : Site e}

/-- The files that a command on an upload has no business with: the accounts, the bucket
configurations, the histories and upload records of other buckets, and the data tree, except for
the object that a completion creates. -/
def Foreign (e : Env) (c : Command) (p : FilePath) : Prop :=
  p = e.accountsPath ∨
  (∃ b, '/' ∉ b.toList ∧ p = e.bucketMetaPath b) ∨
  (∃ b, Plain b ∧ b ≠ c.bucket ∧ (Below (e.historyDir b) p ∨ Below (e.idir ["mpu", b]) p)) ∨
  e.root <:+ p ∧ (c.op = .completeMultipart → e.objectPath c.bucket c.key ≠ .ok p)

/-- Those files are as they were. -/
def SparesForeign (e : Env) (c : Command) (s t : Disk) : Prop :=
  ∀ p, e.Foreign c p → t.file p = s.file p

/-! ### Aborting -/

/-- A cleanup spares a set of files exactly if none of them is swept. -/
theorem cleanupUpload_spares_iff {bucket uploadID : String} {P : FilePath → Prop}
    (run : e.cleanupUpload bucket uploadID s = .ok () t) :
    (∀ p, P p → t.file p = s.file p) ↔
      ∀ p, P p → (s.file p).isSome = true → ¬ e.Swept bucket uploadID p := by
  obtain ⟨shrinks, effect⟩ := cleanupUpload_effect run
  refine forall₂_congr fun p _ => ?_
  cases file : s.file p with
  | none => simp [shrinks.file file]
  | some f =>
    obtain ⟨gone, kept⟩ := effect p f file
    refine ⟨fun same _ swept => ?_, fun spared => kept (spared rfl)⟩
    rw [gone swept] at same
    cases same

theorem abort_spares_iff (op : c.op = .abortMultipart) :
    e.SparesForeign c s (final (e.applyDisk c) s) ↔
      ((e.readMPU s c.bucket c.uploadID).isOk = true →
        ∀ p, e.Foreign c p → (s.file p).isSome = true → ¬ e.Swept c.bucket c.uploadID p) := by
  have same : e.applyDisk c = e.applyAbortMultipart c := by simp [applyDisk, op]
  rw [same]
  cases record : e.readMPU s c.bucket c.uploadID with
  | error err =>
    have run : e.applyAbortMultipart c s = .ok () s :=
      bind_ok.mpr ⟨_, s, reading_ok.mpr ⟨rfl, rfl⟩, by rw [record]; rfl⟩
    rw [final_of_ok run]
    simp [SparesForeign, Except.isOk, Except.toBool]
  | ok mp =>
    obtain ⟨t, cleanup⟩ := cleanupUpload_runs c.bucket c.uploadID s
    have run : e.applyAbortMultipart c s = .ok () t :=
      bind_ok.mpr ⟨_, s, reading_ok.mpr ⟨rfl, rfl⟩, by rw [record]; exact cleanup⟩
    rw [final_of_ok run]
    exact (cleanupUpload_spares_iff cleanup).trans ⟨fun spared _ => spared, fun spared => spared rfl⟩

/-! ### Recording a part -/

/-- The file that a document leaves in the place of another: the temporary file it was written
to, a new one or an old one. -/
def rewritten (s : Disk) (p : FilePath) (c : Content) : File :=
  ((s.file (jsonTmp p)).map (written c)).getD ⟨c, {}, .wall⟩

/-- Writing where a file is replaces it, and a file in the place of the temporary one goes. -/
theorem writeThrough_files (c : Content) (file : s.file p = some f)
    (free : s.get (jsonTmp p) ≠ some .dir) :
    ∃ t, writeThrough p c s = .ok () t ∧ t.file p = some (rewritten s p c) ∧
      t.file (jsonTmp p) = none ∧ ∀ q, q ≠ p → q ≠ jsonTmp p → t.file q = s.file q := by
  have proper := (DirTree.holds_of_file file).1
  have clear := clear_of_file file
  have notDir : s.get p ≠ some .dir := by simp [DirTree.file_eq_some.mp file]
  obtain ⟨t, run⟩ := writeThrough_runs c proper clear notDir free
  obtain ⟨_, s₁, made, more⟩ := bind_ok.mp run
  obtain ⟨_, s₂, opened, renamed⟩ := bind_ok.mp more
  have dirs := mkdirAll_ok (sys_ok.mp made)
  have opened := sys_ok.mp opened
  have renamed := sys_ok.mp renamed
  have same : ∀ q, s₁.file q = s.file q := fun q => by rw [dirs.2, DirTree.file_addDirs dirs.1]
  have tmp := file_writeFile opened
  rw [same] at tmp
  have ne : jsonTmp p ≠ p := suffixed_ne (by decide)
  refine ⟨t, run, file_rename_dst tmp renamed, file_rename_src tmp renamed ne, fun q out out' => ?_⟩
  rw [(Framed.rename tmp renamed).file q (by simp [out, out']), (Framed.writeFile opened).file q out',
    same]

/-- A directory in the place of the temporary file stops the write. -/
theorem writeThrough_stopped (c : Content) (file : s.file p = some f)
    (stopped : s.get (jsonTmp p) = some .dir) (q : FilePath) :
    (final (writeThrough p c) s).file q = s.file q := by
  have made := mkdirAll_of_clear (clear_of_file file)
  have dir : (s.addDirs p.tail).get (jsonTmp p) = some .dir := by
    rw [DirTree.get_addDirs, stopped, ite_self]
  have room : ¬ (s.addDirs p.tail).Holds (jsonTmp p) := fun h => h.2.2 dir
  have run : writeThrough p c s = .error (.os .isdir) (s.addDirs p.tail) := by
    unfold writeThrough
    rw [bind_apply, sys_run made]
    dsimp only
    rw [bind_apply, sys, failing, writeFile, dif_neg room, if_pos (DirTree.isDir_iff.mpr dir)]
  rw [final_of_error run, DirTree.file_addDirs (clear_of_file file)]

/-- The record after a part was recorded in it. -/
def withPart (e : Env) (c : Command) (mp : MultipartUpload) : Content :=
  .json (.upload { mp with
    parts := recordPart ⟨c.partNumber, c.etag, c.size, e.mtime c⟩ mp.parts })

/-- The path that holds the record of the command's upload. -/
def recordPath (e : Env) (c : Command) : FilePath := e.mpuMetaPath c.bucket c.uploadID

theorem reading_bind {α β : Type} {f : Disk → Except Err α} {k : α → M β} {a : α}
    (read : f s = .ok a) : (reading f >>= k) s = k a s := by
  rw [bind_apply, reading_run read]

theorem applyUploadPart_writes {mp : MultipartUpload}
    (arrived : (s.get (e.mpPartPath c.uploadID c.partNumber)).isSome = true)
    (record : e.readMPU s c.bucket c.uploadID = .ok mp) :
    e.applyUploadPart c s = writeThrough (e.recordPath c) (e.withPart c mp) s := by
  refine (reading_bind (a := true) (congrArg Except.ok arrived :)).trans ?_
  refine (reading_bind record).trans ?_
  rw [writeJSON_eq rfl]
  rfl

theorem applyUploadPart_idle (idle : ∀ mp,
      (s.get (e.mpPartPath c.uploadID c.partNumber)).isSome = true →
      e.readMPU s c.bucket c.uploadID ≠ .ok mp) :
    final (e.applyUploadPart c) s = s := by
  cases arrived : (s.get (e.mpPartPath c.uploadID c.partNumber)).isSome with
  | false =>
    refine final_of_error (e := .blobMissing) ?_
    exact reading_bind (a := false) (congrArg Except.ok arrived :)
  | true =>
    cases record : e.readMPU s c.bucket c.uploadID with
    | ok mp => exact absurd record (idle mp arrived)
    | error err =>
      refine final_of_error (e := err) ?_
      refine (reading_bind (a := true) (congrArg Except.ok arrived :)).trans ?_
      refine (bind_apply _ _ s).trans ?_
      simp [reading, record]

theorem uploadPart_spares_iff (op : c.op = .uploadPart) :
    e.SparesForeign c s (final (e.applyDisk c) s) ↔
      ∀ mp, (s.get (e.mpPartPath c.uploadID c.partNumber)).isSome = true →
        e.readMPU s c.bucket c.uploadID = .ok mp →
        s.get (jsonTmp (e.recordPath c)) ≠ some .dir →
        (e.Foreign c (e.recordPath c) →
          s.file (e.recordPath c) = some (rewritten s (e.recordPath c) (e.withPart c mp))) ∧
        (e.Foreign c (jsonTmp (e.recordPath c)) → s.file (jsonTmp (e.recordPath c)) = none) := by
  have same : e.applyDisk c = e.applyUploadPart c := by simp [applyDisk, op]
  rw [same]
  by_cases writes : ∃ mp, (s.get (e.mpPartPath c.uploadID c.partNumber)).isSome = true ∧
      e.readMPU s c.bucket c.uploadID = .ok mp
  · obtain ⟨mp, arrived, record⟩ := writes
    obtain ⟨f, file⟩ := file_of_readMPU record
    have run := applyUploadPart_writes arrived record
    by_cases stopped : s.get (jsonTmp (e.recordPath c)) = some .dir
    · have idle : e.SparesForeign c s (final (e.applyUploadPart c) s) := fun p _ => by
        rw [final, run]
        exact writeThrough_stopped _ file stopped p
      exact ⟨fun _ _ _ _ free => absurd stopped free, fun _ => idle⟩
    · obtain ⟨t, written, record', tmp, others⟩ := writeThrough_files (e.withPart c mp) file stopped
      rw [final_of_ok (run.trans written)]
      constructor
      · intro spares mp' _ found _
        cases record.symm.trans found
        refine ⟨fun foreign => ?_, fun foreign => ?_⟩
        · exact (spares _ foreign).symm.trans record'
        · exact (spares _ foreign).symm.trans tmp
      · intro h p foreign
        obtain ⟨atRecord, atTmp⟩ := h mp arrived record stopped
        by_cases isRecord : p = e.recordPath c
        · rw [isRecord] at foreign ⊢
          exact record'.trans (atRecord foreign).symm
        · by_cases isTmp : p = jsonTmp (e.recordPath c)
          · rw [isTmp] at foreign ⊢
            exact tmp.trans (atTmp foreign).symm
          · exact others p isRecord isTmp
  · have idle : final (e.applyUploadPart c) s = s :=
      applyUploadPart_idle fun mp arrived record => writes ⟨mp, arrived, record⟩
    rw [idle]
    exact ⟨fun _ mp arrived record _ => absurd ⟨mp, arrived, record⟩ writes, fun _ p _ => rfl⟩

/-! ### Completing -/

/-- A completion whose names stay in their places, on a key in good order. -/
structure InPlace (x : Site e) (s : Disk) (c : Command) : Prop where
  addr : x.Addresses c
  bucket : Plain x.bucket
  token : Plain c.blobToken
  /-- No part of the upload is the file that the parts are joined in. -/
  apart : ∀ n, e.mpPartPath c.uploadID n ≠ e.stagingPath c.blobToken
  id : (e.bucketMetaForWrite s x.bucket).versioningEnabled = true → Nameable c.versionID
  ready : x.Ready s
  sound : x.Sound s
  free : s.get x.op ≠ some .dir
  tmpFree : s.get (tmpOf x.op) ≠ some .dir
  /-- On separate volumes the bytes come through a file beside the object. -/
  tmp : e.separateVolumes = true → s.file (tmpOf x.op) = none

/-- Where the foreign files lie. -/
theorem Foreign.place (foreign : e.Foreign c p) :
    (∃ kind, (kind = "iam" ∨ kind = "buckets") ∧ e.area kind <:+ p) ∨
    (∃ kind b, (kind = "history" ∨ kind = "mpu") ∧ b ≠ c.bucket ∧ b :: e.area kind <:+ p) ∨
    e.root <:+ p ∧ (c.op = .completeMultipart → e.objectPath c.bucket c.key ≠ .ok p) := by
  rcases foreign with rfl | ⟨b, noSlash, rfl⟩ | ⟨b, plain, other, below | below⟩ | data
  · refine .inl ⟨"iam", .inl rfl, ?_⟩
    rw [accountsPath, idir, List.foldl_cons, List.foldl_cons, List.foldl_nil,
      join_plain (show Plain "iam" by decide), join_plain (show Plain "accounts.json" by decide)]
    exact List.suffix_cons _ _
  · refine .inl ⟨"buckets", .inr rfl, ?_⟩
    rw [bucketMetaPath_eq noSlash]
    exact List.suffix_cons _ _
  · refine .inr (.inl ⟨"history", b, .inl rfl, other, ?_⟩)
    rw [historyDir_eq, join_plain plain] at below
    exact below.1
  · refine .inr (.inl ⟨"mpu", b, .inr rfl, other, ?_⟩)
    rw [idir, List.foldl_cons, List.foldl_cons, List.foldl_nil,
      join_plain (show Plain "mpu" by decide), join_plain plain] at below
    exact below.1
  · exact .inr (.inr data)

/-- No foreign file lies in an area of another kind. -/
theorem Foreign.not_area (foreign : e.Foreign c p) (area : e.area kind <:+ p)
    (other : kind ∉ ["iam", "buckets", "history", "mpu"]) : False := by
  simp only [List.mem_cons, List.not_mem_nil, or_false, not_or] at other
  obtain ⟨iam, buckets, history, mpu⟩ := other
  rcases foreign.place with ⟨kind', rfl | rfl, own⟩ | ⟨kind', b, rfl | rfl, -, own⟩ | ⟨data, -⟩
  · exact iam (area_unique area own)
  · exact buckets (area_unique area own)
  · exact history (area_unique area ((List.suffix_cons b _).trans own))
  · exact mpu (area_unique area ((List.suffix_cons b _).trans own))
  · exact data_not_area data area rfl

/-- No foreign file lies with the histories and records of the command's bucket. -/
theorem Foreign.not_own (foreign : e.Foreign c p) (kinds : kind = "history" ∨ kind = "mpu")
    (own : c.bucket :: e.area kind <:+ p) : False := by
  have area : e.area kind <:+ p := (List.suffix_cons _ _).trans own
  rcases foreign.place with ⟨kind', kinds', at'⟩ | ⟨kind', b, -, other, at'⟩ | ⟨data, -⟩
  · have same := area_unique area at'
    subst same
    rcases kinds with rfl | rfl <;> simp at kinds'
  · have same := area_unique area ((List.suffix_cons b _).trans at')
    subst same
    have eq := (List.suffix_of_suffix_length_le own at' (by simp)).eq_of_length (by simp)
    exact other (List.cons.inj eq).1.symm
  · exact data_not_area data area rfl

/-- The cells of the command's key are not foreign, except for the temporary file beside the
object. -/
theorem Foreign.not_cell {B : Set String} {S : Set FilePath} (foreign : e.Foreign c p)
    (op : c.op = .completeMultipart) (addr : x.Addresses c) (bucket : Plain x.bucket)
    (ne : p ≠ tmpOf x.op) : p ∉ x.cells B S := by
  obtain ⟨sameBucket, sameKey⟩ := addr
  have own : ∀ {q}, Below (e.historyDir x.bucket) q → c.bucket :: e.area "history" <:+ q := by
    intro q below
    rw [historyDir_eq, join_plain bucket] at below
    rw [sameBucket]
    exact below.1
  have history := (confine_ok x.hp_eq).2.2
  rintro (rfl | rfl | rfl | rfl | ⟨id, -, plain, rfl | rfl⟩ | ⟨-, staging⟩)
  · rcases foreign.place with ⟨kind, -, area⟩ | ⟨kind, b, -, -, area⟩ | ⟨-, other⟩
    · exact data_not_area x.root_op area rfl
    · exact data_not_area x.root_op ((List.suffix_cons b _).trans area) rfl
    · exact other op (by rw [sameBucket, sameKey, x.op_eq])
  · exact ne rfl
  · exact foreign.not_own (.inl rfl) (own history)
  · refine foreign.not_own (.inl rfl) ?_
    rw [historyDir_eq, join_plain bucket] at history
    rw [sameBucket]
    exact below_suffixed _ history
  · exact foreign.not_area (x.area_blob plain) (by decide)
  · exact foreign.not_area (x.area_blobTmp plain) (by decide)
  · exact foreign.not_area staging (by decide)

/-- A completion in place spares the foreign files exactly if it is kept from storing its object or
sweeps none of them. -/
theorem complete_spares_iff (op : c.op = .completeMultipart) (inPlace : InPlace x s c) :
    e.SparesForeign c s (final (e.applyDisk c) s) ↔
      (x.Storable s c →
        ∀ p, e.Foreign c p → (s.file p).isSome = true → ¬ e.Swept c.bucket c.uploadID p) := by
  have same : e.applyDisk c = e.applyCompleteMultipart c := by simp [applyDisk, op]
  rw [same]
  refine wp_final (P := fun t => e.SparesForeign c s t ↔ _)
    (wp_mono (Site.applyCompleteMultipart_wp inPlace.ready inPlace.sound inPlace.addr
      inPlace.id inPlace.token inPlace.apart) ?_ ?_)
  · rintro - t ⟨mp, parts, total, u, -, installed, cleanup, oneVolume, storable⟩
    have kept : e.SparesForeign c s u := by
      intro p foreign
      by_cases tmp : p = tmpOf x.op
      · subst tmp
        cases volumes : e.separateVolumes with
        | false => exact oneVolume volumes
        | true =>
          have absent := inPlace.tmp volumes
          rcases installed.tmp with eq | eq
          · exact eq
          · rw [eq, absent]
      · exact installed.frame.file p (foreign.not_cell op inPlace.addr inPlace.bucket tmp)
    rw [← inPlace.addr.1] at cleanup
    have spared := cleanupUpload_spares_iff (P := e.Foreign c) cleanup
    have before : e.SparesForeign c s t ↔ ∀ p, e.Foreign c p → t.file p = u.file p :=
      forall₂_congr fun p foreign => by rw [kept p foreign]
    rw [before, spared]
    refine ⟨fun out _ p foreign => ?_, fun out p foreign => ?_⟩
    · rw [← kept p foreign]
      exact out p foreign
    · rw [kept p foreign]
      exact out storable p foreign
  · intro _ t left
    obtain ⟨frame, full⟩ := (left inPlace.tmpFree).2 inPlace.free
    refine ⟨fun _ storable => absurd storable full, fun _ p foreign => frame.file p ?_⟩
    rintro rfl
    exact foreign.not_area (Site.area_staging inPlace.token) (by decide)

/-- A completion that fails its checks changes nothing. -/
theorem complete_refused (op : c.op = .completeMultipart)
    (refused : (e.validated s c).isOk = false) : final (e.applyDisk c) s = s := by
  have same : e.applyDisk c = e.applyCompleteMultipart c := by simp [applyDisk, op]
  rw [same]
  cases checks : e.validated s c with
  | error err => exact final_of_error (by rw [applyCompleteMultipart_eq, checks])
  | ok found =>
    rw [checks] at refused
    cases refused

/-! ### Every command on an upload -/

/-- What keeps a command on an upload away from foreign files. An abort sweeps none, and a part
is recorded in none, unless the file is left as it was. A completion that passes its checks has its
names in place, and sweeps none when nothing is in the way of its object. -/
def KeepsToOwn (e : Env) (s : Disk) (c : Command) : Prop :=
  match c.op with
  | .abortMultipart => (e.readMPU s c.bucket c.uploadID).isOk = true →
      ∀ p, e.Foreign c p → (s.file p).isSome = true → ¬ e.Swept c.bucket c.uploadID p
  | .uploadPart => ∀ mp, (s.get (e.mpPartPath c.uploadID c.partNumber)).isSome = true →
      e.readMPU s c.bucket c.uploadID = .ok mp →
      s.get (jsonTmp (e.recordPath c)) ≠ some .dir →
      (e.Foreign c (e.recordPath c) →
        s.file (e.recordPath c) = some (rewritten s (e.recordPath c) (e.withPart c mp))) ∧
      (e.Foreign c (jsonTmp (e.recordPath c)) → s.file (jsonTmp (e.recordPath c)) = none)
  | .completeMultipart => (e.validated s c).isOk = true → ∃ x : Site e, InPlace x s c ∧
      (x.Storable s c →
        ∀ p, e.Foreign c p → (s.file p).isSome = true → ¬ e.Swept c.bucket c.uploadID p)
  | _ => False

end Env

end D9Store
