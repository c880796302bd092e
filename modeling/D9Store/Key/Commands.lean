import D9Store.Key.Acts
import D9Store.Key.Complete
import D9Store.Key.Copy
import D9Store.Key.Delete

/-!
Every object command as an act on the history of its key.

`Fair` collects what a command must find for that: a fresh name for the version it files
away, and for a copy a source that displacement leaves alone.
-/

namespace D9Store

open Posix FilePath Versioned

namespace Site

variable {e : Env} {x : Site e} {s t u : Disk} {c : Command} {act : Act Content} {q : FilePath}

/-! ### What a command does to the history -/

/-- The write of `bytes` as a new version. -/
def writes (e : Env) (s : Disk) (c : Command) (bytes : Option Content) : Act Content :=
  match bytes with
  | none => .keep
  | some b => .put (e.bucketMetaForWrite s c.bucket).versioningEnabled
      (Env.writeVersionID (e.bucketMetaForWrite s c.bucket) c) b

/-- A deletion goes ahead on a known key, and on an unknown one under versioning. -/
def goesAhead (e : Env) (s : Disk) (c : Command) : Bool :=
  match e.readKeyMeta s c.bucket c.key with
  | .ok _ => true
  | .error _ => (e.bucketMetaForWrite s c.bucket).versioningEnabled && c.versionID != ""

/-- What a command does to the history of its key when it succeeds. -/
def actOf (e : Env) (s : Disk) (c : Command) : Act Content :=
  match c.op with
  | .putObject => writes e s c (content s (e.stagingPath c.blobToken))
  | .copyObject => writes e s c ((copySource e s c).toOption.bind fun src => content s src.2)
  | .completeMultipart =>
    writes e s c ((completed e s c).toOption.map fun up => .raw (e.joined s c.uploadID up.2))
  | .deleteObject =>
    if !goesAhead e s c then .keep
    else if Env.explicitVersion c then .remove c.versionID
    else if (e.bucketMetaForWrite s c.bucket).versioningEnabled then .mark c.versionID
    else .deleteNull (decide ((e.bucketMetaForWrite s c.bucket).versioning = "Suspended"))
  | _ => .keep

/-! ### What a command must find -/

/-- The object file is displaced to a blob of a fresh name. -/
def Displaceable (x : Site e) (enabled : Bool) (s : Disk) : Prop :=
  ∀ id ∈ D9Store.History.archivedID enabled (x.versions s), s.file (x.blob id) = none

instance (enabled : Bool) (s : Disk) : Decidable (x.Displaceable enabled s) := by
  unfold Displaceable; infer_instance

/-- A new version finds a name for itself and a place for its predecessor. -/
def Writable (x : Site e) (s : Disk) (c : Command) : Prop :=
  ((e.bucketMetaForWrite s x.bucket).versioningEnabled = true → Nameable c.versionID) ∧
    x.Displaceable (e.bucketMetaForWrite s x.bucket).versioningEnabled s

/-- The bytes a copy reads are neither displaced nor overwritten before it reads them. -/
def Copyable (x : Site e) (s : Disk) (c : Command) : Prop :=
  ∀ src ∈ (copySource e s c).toOption, (s.file src.2).isSome = true ∧
    src.2 ≠ Env.tmpOf x.op ∧
    ∀ id ∈ D9Store.History.archivedID (e.bucketMetaForWrite s x.bucket).versioningEnabled
      (x.versions s), src.2 ≠ x.op ∧ src.2 ≠ x.blob id ∧ src.2 ≠ Env.tmpOf (x.blob id)

/-- A deletion finds what it needs. -/
def Deletable (x : Site e) (s : Disk) (c : Command) : Prop :=
  goesAhead e s c = true →
    if Env.explicitVersion c = true then
      (D9Store.History.keptBy c.versionID (x.versions s)).isEmpty = true → x.Unblocked s
    else if (e.bucketMetaForWrite s x.bucket).versioningEnabled = true then
      Nameable c.versionID ∧ x.Displaceable true s
    else (Act.deleteNull (β := Content) false).spoils (x.entries s) = false

/-- What an object command must find in the state it is applied to. -/
def Fair (x : Site e) (s : Disk) (c : Command) : Prop :=
  match c.op with
  | .putObject => Plain c.blobToken ∧ x.Writable s c
  | .copyObject => x.Writable s c ∧ x.Copyable s c
  | .completeMultipart => Plain c.blobToken ∧ Plain c.uploadID ∧ x.Writable s c
  | .deleteObject => x.Deletable s c
  | _ => True

instance : Decidable (x.Writable s c) := by
  unfold Writable; infer_instance

instance : Decidable (x.Copyable s c) := by
  unfold Copyable; infer_instance

instance : Decidable (x.Deletable s c) := by
  unfold Deletable; infer_instance

instance : Decidable (x.Fair s c) := by
  unfold Fair
  generalize c.op = op
  induction op using Op.casesOn <;> infer_instance

/-! ### Acts of single commands -/

/-- The history of the key is in order, and no directory in the place of its temporary file. -/
structure Standing (x : Site e) (s : Disk) : Prop where
  ready : x.Ready s
  sound : x.Sound s
  backed : (x.entries s).Backed
  nodup : (x.entries s).blobs.Nodup
  tmp : s.get (Env.tmpOf x.op) ≠ some .dir

theorem Acts.mono {O O' : Set FilePath} (h : x.Acts act O s t) (sub : O ⊆ O') : x.Acts act O' s t  where
  frame := h.frame.mono (Set.union_subset_union_right _ sub) subset_rfl
  sound := h.sound
  entries := h.entries
  tmp := h.tmp

theorem Acts.refl (sound : x.Sound s) : x.Acts .keep ∅ s s :=
  Acts.keep sound rfl (Framed.refl s)

theorem not_dir {p : FilePath} (h : s.isDir p = false) : s.get p ≠ some .dir := fun dir => by
  rw [DirTree.isDir_iff.mpr dir] at h
  cases h

/-- A blob that is not there is named by no entry. -/
theorem fresh_of_free {enabled : Bool} (standing : x.Standing s) (free : x.Displaceable enabled s) :
    ∀ id, D9Store.History.archivedID enabled (x.versions s) = some id →
      ∀ v ∈ x.versions s, v.blobID ≠ id := by
  intro id arch v mem eq
  obtain ⟨cur, rest, list, -, rfl, -⟩ := D9Store.History.archivedID_eq_some arch
  have named := standing.sound.shape.named cur (by rw [list]; exact List.mem_cons_self)
  have filed : v.blobID ≠ "" := by rwa [eq]
  have live : v.deleteMarker = false := by
    by_contra marker
    exact filed (standing.sound.shape.marker v mem (by simpa using marker))
  have body := backed_iff.mp standing.backed v mem live
  rw [bodyAt, live, if_neg Bool.false_ne_true, if_neg filed, eq, content, free _ arch] at body
  cases body

/-- What a failed write leaves: payloads may have changed, and where a directory is in the
place of the object there may be a stray temporary file. -/
structure Failed (x : Site e) (s t : Disk) : Prop where
  frame : Framed {q | q = Env.tmpOf x.op ∨ e.area "staging" <:+ q} x.dirs s t
  clean : s.isDir x.op = false → Framed {q | e.area "staging" <:+ q} ∅ s t

theorem Failed.refl (s : Disk) : x.Failed s s := ⟨Framed.refl s, fun _ => Framed.refl s⟩

theorem Stray.failed (h : x.Stray s t) : x.Failed s t where
  frame := h.frame.mono (fun _ h => .inl h) subset_rfl
  clean free := by
    rw [h.same (not_dir free)]
    exact Framed.refl s

theorem put_acts {bytes : Content} {nv : ObjectMeta} {S : Set FilePath} (standing : x.Standing s)
    (addr : x.Addresses c) (fit : x.Fit nv)
    (name : nv.versionID = Env.writeVersionID (e.bucketMetaForWrite s x.bucket) c)
    (free : x.Displaceable (e.bucketMetaForWrite s x.bucket).versioningEnabled s)
    (installed : x.Installed (e.bucketMetaForWrite s x.bucket).versioningEnabled nv bytes S s t) :
    x.Acts (writes e s c (some bytes)) ∅ s t := by
  have acts := installed.acts standing.sound fit (fresh_of_free standing free)
  rwa [name, ← addr.1] at acts

theorem applyPutObject_acts (standing : x.Standing s) (addr : x.Addresses c)
    (token : Plain c.blobToken) (notDir : s.get (e.stagingPath c.blobToken) ≠ some .dir)
    (writable : x.Writable s c) :
    wp (e.applyPutObject c)
      (fun _ t => x.Acts (writes e s c (content s (e.stagingPath c.blobToken))) ∅ s t)
      (fun _ t => x.Failed s t) s := by
  obtain ⟨id, fresh⟩ := writable
  cases staged : s.file (e.stagingPath c.blobToken) with
  | none =>
    have gone : s.get (e.stagingPath c.blobToken) = none := by
      rcases node : s.get (e.stagingPath c.blobToken) with _ | _ | g
      · rfl
      · exact absurd node notDir
      · rw [DirTree.file_eq_some.mpr node] at staged
        cases staged
    have run := applyPutObject_missing gone
    exact wp_of_error run (Failed.refl s)
  | some g =>
    refine wp_mono (applyPutObject_wp standing.ready standing.sound addr token id staged) ?_ ?_
    · rintro - t ⟨installed, -⟩
      rw [content, staged]
      exact put_acts standing addr (fit_putMeta _ addr id) (by simp) fresh installed
    · intro _ t left
      exact (left standing.tmp).failed

theorem applyCopyObject_acts (standing : x.Standing s) (addr : x.Addresses c)
    (writable : x.Writable s c) (copyable : x.Copyable s c) :
    wp (e.applyCopyObject c)
      (fun _ t => x.Acts (writes e s c
        ((copySource e s c).toOption.bind fun src => content s src.2)) ∅ s t)
      (fun _ t => x.Failed s t) s := by
  obtain ⟨id, fresh⟩ := writable
  cases source : copySource e s c with
  | error err =>
    refine wp_mono (applyCopyObject_refused source) (fun _ _ h => h.elim) fun _ t same => ?_
    rw [same]
    exact Failed.refl s
  | ok pair =>
    obtain ⟨src, p⟩ := pair
    obtain ⟨file, apart, stays⟩ := copyable (src, p) (by rw [source]; rfl)
    obtain ⟨g, file⟩ := Option.isSome_iff_exists.mp file
    have kept : p ∉ x.displacedCells (D9Store.History.archivedID
        (e.bucketMetaForWrite s x.bucket).versioningEnabled (x.versions s)) := by
      rintro ⟨id, arch, h | h | h⟩
      · exact (stays id arch).1 h
      · exact (stays id arch).2.1 h
      · exact (stays id arch).2.2 h
    obtain ⟨-, -, -, -, live, -⟩ := copySource_ok source
    refine wp_mono (applyCopyObject_wp standing.ready standing.sound addr id source file apart
      kept) ?_ ?_
    · intro _ t installed
      simp only [Except.toOption, Option.bind_some, content, file, Option.map_some]
      exact put_acts standing addr (fit_copyMeta _ live addr id) (by simp) fresh installed
    · intro _ t left
      exact (left standing.tmp).failed

/-! A completion also takes the record of the upload, and what its glob matches below the
bucket `mpstaging`. -/

/-- The bucket is a proper one, and not that of the glob. -/
def Proper (x : Site e) : Prop := Plain x.bucket ∧ x.bucket ≠ "mpstaging"

instance : Decidable x.Proper := by
  unfold Proper; infer_instance

theorem bucketDir_above (proper : x.Proper) : x.bucket :: e.root <:+ x.op.tail := by
  obtain ⟨-, -, below, ne⟩ := Env.confine_ok x.op_eq
  rw [Env.bucketDir, join_plain proper.1] at below ne
  rcases List.suffix_cons_iff.mp (show x.bucket :: e.root <:+ x.op.head x.op_ne_nil :: x.op.tail by
    rwa [List.cons_head_tail]) with eq | sub
  · rw [List.cons_head_tail] at eq
    exact absurd eq.symm ne
  · exact sub

theorem not_globbed (proper : x.Proper) (tail : q.tail = x.op.tail) :
    ¬ e.root.join "mpstaging" <:+ q := by
  intro glob
  rw [join_plain (show Plain "mpstaging" by decide)] at glob
  have here : x.bucket :: e.root <:+ q := (tail ▸ bucketDir_above proper).trans (List.tail_suffix q)
  have eq := List.suffix_of_suffix_length_le here glob (by simp)
  have eq := eq.eq_of_length (by simp)
  exact proper.2 (List.cons.inj eq).1

theorem cleanup_out (proper : x.Proper) (upload : '/' ∉ c.uploadID.toList)
    (mem : q ∈ e.cleanupCells x.bucket c.uploadID) :
    x.Safe q ∧ q ≠ Env.tmpOf x.op ∧ ∀ id, '/' ∉ id.toList → x.blob id ≠ q := by
  rcases mem with rfl | glob
  · have area : e.area "mpu" <:+ e.mpuMetaPath x.bucket c.uploadID := by
      rw [Env.mpuMetaPath_eq upload]
      exact (x.tame.suffix_join _).trans (List.suffix_cons _ _)
    exact ⟨safe_area area (by decide) (by decide), (Env.data_not_area x.root_tmp area).symm,
      fun id plain => Env.area_ne (x.area_blob plain) area (by decide)⟩
  · have data : e.root <:+ q := by
      rw [join_plain (show Plain "mpstaging" by decide)] at glob
      exact (List.suffix_cons _ _).trans glob
    refine ⟨safe_data data ?_, ?_, fun id plain eq => ?_⟩
    · rintro rfl
      exact not_globbed proper rfl glob
    · rintro rfl
      exact not_globbed proper (suffixed_tail _ x.op_ne_nil) glob
    · exact Env.data_not_area data (x.area_blob plain) eq.symm

/-- What happens aside afterwards does not undo the act. -/
theorem Acts.aside {O : Set FilePath} (h : x.Acts act ∅ s u) (frame : Framed O ∅ u t)
    (out : ∀ q ∈ O, x.Safe q ∧ q ≠ Env.tmpOf x.op ∧
      ∀ id, '/' ∉ id.toList → x.blob id ≠ q) : x.Acts act O s t := by
  have op : t.file x.op = u.file x.op := frame.file _ fun mem => (out _ mem).1.1 rfl
  have hp : t.file x.hp = u.file x.hp := frame.file _ fun mem => (out _ mem).1.2.1 rfl
  refine ⟨(h.frame.mono ?_ subset_rfl).trans (frame.mono Set.subset_union_right (Set.empty_subset _)),
    h.sound.congr op hp, ?_, ?_⟩
  · rw [Set.union_empty]
    exact Set.subset_union_left
  · rw [← h.entries]
    refine entries_congr op hp fun v mem _ => frame.file _ fun found => ?_
    exact (out _ found).2.2 _ (h.sound.shape.plainBlob v mem) rfl
  · rw [frame.file _ fun mem => (out _ mem).2.1 rfl]
    exact h.tmp

theorem applyCompleteMultipart_acts (standing : x.Standing s) (addr : x.Addresses c)
    (proper : x.Proper) (token : Plain c.blobToken) (upload : Plain c.uploadID)
    (writable : x.Writable s c) :
    wp (e.applyCompleteMultipart c)
      (fun _ t => x.Acts (writes e s c
        ((completed e s c).toOption.map fun up => .raw (e.joined s c.uploadID up.2)))
        (e.cleanupCells x.bucket c.uploadID) s t)
      (fun _ t => x.Failed s t) s := by
  have area : ∀ q ∈ ({e.stagingPath c.blobToken} : Set FilePath), e.area "staging" <:+ q := by
    rintro q rfl
    exact area_staging token
  obtain ⟨id, fresh⟩ := writable
  refine wp_mono (applyCompleteMultipart_wp standing.ready standing.sound addr id token
    (parts_apart token upload)) ?_ ?_
  · rintro - t ⟨mp, parts, total, u, up, installed, cleanup, -⟩
    have cleaned := wp_ok (Env.cleanupUpload_wp x.bucket upload) cleanup
    rw [up]
    have acts := put_acts standing addr (fit_completeMeta _ mp parts total addr id) (by simp) fresh
      installed
    exact acts.aside cleaned fun q mem => cleanup_out proper upload.2 mem
  · intro _ t left
    obtain ⟨stray, clean⟩ := left standing.tmp
    refine ⟨stray.mono ?_ subset_rfl, fun free => (clean (not_dir free)).1.mono area subset_rfl⟩
    rintro q (rfl | rfl)
    · exact .inr (area _ rfl)
    · exact .inl rfl

/-! ### Deletions -/

theorem kept_distinct (nodup : (x.entries s).blobs.Nodup) {vid : String} {v : ObjectMeta}
    {rest : List ObjectMeta} (kept : D9Store.History.keptBy vid (x.versions s) = v :: rest)
    (filed : v.blobID ≠ "") : ∀ w ∈ rest, w.blobID ≠ v.blobID := by
  intro w mem eq
  have sub : ((v :: rest).map ObjectMeta.blobID).Sublist ((x.versions s).map ObjectMeta.blobID) := by
    rw [← kept]
    exact List.filter_sublist.map _
  have blobs : (x.entries s).blobs = ((x.versions s).map ObjectMeta.blobID).filter (· ≠ "") := by
    rw [Versioned.History.blobs, entries, List.map_map]
    rfl
  rw [blobs] at nodup
  have nodup := nodup.sublist (sub.filter _)
  rw [List.map_cons, List.filter_cons_of_pos (by simpa using filed)] at nodup
  refine (List.nodup_cons.mp nodup).1 (List.mem_filter.mpr ⟨?_, by simpa using filed⟩)
  rw [← eq]
  exact List.mem_map_of_mem mem

theorem deleteVersion_acts (standing : x.Standing s) (addr : x.Addresses c)
    (clear : (D9Store.History.keptBy c.versionID (x.versions s)).isEmpty = true → x.Unblocked s) :
    wp (e.deleteVersion c (x.keyMeta (x.versions s))) (fun _ t => x.Acts (.remove c.versionID) ∅ s t)
      (fun _ _ => False) s := by
  have ready := standing.ready
  have sound := standing.sound
  by_cases last : D9Store.History.keptBy c.versionID (x.versions s) = []
  · obtain ⟨t, run, frame, op, hp⟩ := deleteVersion_last ready sound addr last
      (clear (List.isEmpty_iff.mpr last))
    have plain : ∀ v ∈ D9Store.History.removedBy c.versionID (x.versions s),
        '/' ∉ v.blobID.toList := fun v mem =>
      sound.shape.plainBlob v (List.mem_of_mem_filter mem)
    refine wp_of_run run (acts_of_gone frame ?_ ?_ op hp (remove_eq_nil last))
    · rw [Set.union_empty]
      refine Set.union_subset (blobCells_subset plain fun id mem => .inl ?_) ?_
      · exact mem_blobs_entries.mpr (blobsOf_filter _ mem)
      · rintro q (rfl | rfl)
        · exact .inl rfl
        · exact .inr (.inr (.inl rfl))
    · rintro (⟨id, ⟨v, mem, rfl, -⟩, eq⟩ | eq)
      · exact Env.data_not_area x.root_tmp (x.area_blob (plain v mem)) eq
      · exact record_tmp_out (eq.imp_right .inl)
  · by_cases head : (D9Store.History.removedBy c.versionID (x.versions s)).any Env.atKeyPath = true
    · obtain ⟨t, run, taken⟩ := deleteVersion_head ready sound addr (backed_iff.mp standing.backed)
        standing.tmp last head fun v rest kept filed =>
          kept_distinct standing.nodup kept filed
      exact wp_of_run run (taken.acts sound last)
    · obtain ⟨t, run, taken⟩ := deleteVersion_behind ready sound addr last (by simpa using head)
      exact wp_of_run run (taken.acts sound last)

theorem deleteNull_acts (standing : x.Standing s) (addr : x.Addresses c) (bm : BucketMeta)
    (known : x.versions s ≠ [])
    (safe : (Act.deleteNull (β := Content) false).spoils (x.entries s) = false) :
    wp (e.deleteNull bm c (x.keyMeta (x.versions s)))
      (fun _ t => x.Acts (.deleteNull (decide (bm.versioning = "Suspended"))) ∅ s t)
      (fun _ _ => False) s := by
  have ready := standing.ready
  have sound := standing.sound
  have safe : ∀ suspended, (Act.deleteNull (β := Content) suspended).spoils (x.entries s) = false :=
    fun suspended => (Act.spoils_deleteNull suspended false _).trans safe
  by_cases empty : D9Store.History.nulled (decide (bm.versioning = "Suspended")) (e.marker c "null")
      (x.versions s) = []
  · obtain ⟨t, run, frame, op, hp⟩ := deleteNull_last bm rfl ready sound addr known empty
    refine wp_of_run run (acts_of_gone frame ?_ ?_ op hp
      (deleteNull_eq_nil sound standing.nodup safe empty))
    · rintro q (rfl | rfl)
      · exact .inl (.inl rfl)
      · exact .inl (.inr (.inr (.inl rfl)))
    · exact fun eq => record_tmp_out (eq.imp_right .inl)
  · obtain ⟨t, run, frame, -, tmp, -, recorded⟩ := deleteNull_kept bm rfl ready sound addr empty
    exact wp_of_run run (acts_deleteNull sound addr standing.nodup safe frame tmp empty recorded)

theorem goesAhead_iff (standing : x.Standing s) (addr : x.Addresses c) :
    goesAhead e s c = true ↔ ¬ (x.versions s = [] ∧
      ¬ ((e.bucketMetaForWrite s x.bucket).versioningEnabled = true ∧ c.versionID ≠ "")) := by
  unfold goesAhead
  rw [addr.1, addr.2]
  by_cases empty : x.versions s = []
  · rw [readKeyMeta_nil standing.ready standing.sound empty]
    simp [empty]
  · obtain ⟨flag, read⟩ := readKeyMeta_some standing.ready standing.sound empty
    simp [read, empty]

theorem applyDeleteObject_acts (standing : x.Standing s) (addr : x.Addresses c)
    (deletable : x.Deletable s c) :
    wp (e.applyDeleteObject c)
      (fun _ t => x.Acts
        (if !goesAhead e s c then .keep
        else if Env.explicitVersion c then .remove c.versionID
        else if (e.bucketMetaForWrite s c.bucket).versioningEnabled then .mark c.versionID
        else .deleteNull (decide ((e.bucketMetaForWrite s c.bucket).versioning = "Suspended"))) ∅ s t)
      (fun _ _ => False) s := by
  have eq := applyDeleteObject_eq standing.ready standing.sound addr
  by_cases ahead : goesAhead e s c = true
  swap
  · rw [if_pos (not_not.mp (mt (goesAhead_iff standing addr).mpr ahead))] at eq
    refine wp_of_run eq ?_
    rw [if_pos (by simpa using ahead)]
    exact Acts.refl standing.sound
  rw [if_neg ((goesAhead_iff standing addr).mp ahead)] at eq
  have deletable := deletable ahead
  simp only [ahead, addr.1, Bool.not_true, Bool.false_eq_true, if_false]
  unfold wp
  rw [eq]
  split at deletable
  · rename_i explicit
    rw [if_pos explicit, if_pos explicit]
    exact deleteVersion_acts standing addr deletable
  · rename_i implicit
    rw [if_neg implicit, if_neg implicit]
    split at deletable
    · rename_i enabled
      rw [if_pos enabled, if_pos enabled]
      obtain ⟨t, run, marked⟩ := deleteToMarker_spec (c := c) standing.ready standing.sound
      have acts := marked.acts standing.sound addr.2 deletable.1 rfl rfl
        (fresh_of_free standing deletable.2)
      exact wp_of_run run acts
    · rename_i plain
      rw [if_neg plain, if_neg plain]
      refine deleteNull_acts standing addr _ (fun empty => ?_) deletable
      exact (goesAhead_iff standing addr).mp ahead ⟨empty, fun h => plain h.1⟩

theorem applyObjectMetaMutation_acts (standing : x.Standing s) (addr : x.Addresses c) :
    wp (e.applyObjectMetaMutation c) (fun _ t => x.Acts .keep ∅ s t) (fun _ t => t = s) s := by
  have sound := standing.sound
  refine wp_mono (applyObjectMetaMutation_wp standing.ready sound addr) ?_ fun _ _ h => h
  rintro - t ⟨vs, amended, known, frame, op, -, recorded⟩
  have same := D9Store.History.amendTarget_core amended
  refine Acts.keep ?_ (entries_amended sound same frame op recorded) (record_frame frame)
  refine recorded.sound (sound.shape.of_core same) (sound.latest.of_core same) fun empty => ?_
  rw [empty, List.map_nil] at same
  exact known (List.map_eq_nil_iff.mp same.symm)

/-! ### Any object command -/

/-- The command works on one key. -/
def onKey (op : Op) : Bool :=
  match op with
  | .putObject | .deleteObject | .copyObject | .completeMultipart
  | .putObjectAcl | .putObjectTagging | .deleteObjectTag | .putObjectRetention
  | .putObjectLegalHold => true
  | _ => false

/-- What a completion removes besides. -/
def besides (e : Env) (c : Command) : Set FilePath :=
  if c.op = .completeMultipart then e.cleanupCells c.bucket c.uploadID else ∅

/-- A successful object command acts on the history of its key; a failed one leaves it alone. -/
theorem applyDisk_acts (standing : x.Standing s) (proper : x.Proper) (addr : x.Addresses c)
    (object : onKey c.op = true) (fair : x.Fair s c)
    (staging : ∀ token, Plain token → s.get (e.stagingPath token) ≠ some .dir) :
    wp (e.applyDisk c)
      (fun _ t => x.Acts (actOf e s c) (besides e c) s t) (fun _ t => x.Failed s t) s := by
  have anyO : ∀ {act : Act Content} {t : Disk}, x.Acts act ∅ s t → x.Acts act (besides e c) s t :=
    fun h => h.mono (Set.empty_subset _)
  unfold Env.applyDisk actOf
  unfold Fair at fair
  cases op : c.op <;> simp only [op, onKey, Bool.false_eq_true] at object fair ⊢
  case putObject =>
    exact wp_mono (applyPutObject_acts standing addr fair.1 (staging _ fair.1) fair.2)
      (fun _ _ h => anyO h) fun _ _ h => h
  case deleteObject =>
    exact wp_mono (applyDeleteObject_acts standing addr fair) (fun _ _ h => anyO h)
      fun _ _ h => h.elim
  case copyObject =>
    exact wp_mono (applyCopyObject_acts standing addr fair.1 fair.2) (fun _ _ h => anyO h)
      fun _ _ h => h
  case completeMultipart =>
    exact wp_mono (applyCompleteMultipart_acts standing addr proper fair.1 fair.2.1 fair.2.2)
      (fun _ _ h => by rwa [besides, if_pos op, addr.1]) fun _ _ h => h
  all_goals
    refine wp_mono (applyObjectMetaMutation_acts standing addr) (fun _ _ h => anyO h)
      fun _ t same => ?_
    rw [same]
    exact Failed.refl s

end Site

end D9Store
