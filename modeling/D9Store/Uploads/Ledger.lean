import D9Store.Gateway.Effects
import D9Store.Keyspace.Run
import D9Store.Uploads.Grounds

/-!
The uploads a node keeps.

An upload is a record below `mpu`, one file per bucket and id. A run of inputs under plain names
keeps account of them: the record of an upload is what the commands that succeeded on it made of
it, and no other input touches it.
-/

namespace D9Store

open Posix FilePath

namespace Env

variable {e : Env} {s t : Disk} {c : Command} {bucket id : String}

/-! ### The records -/

/-- The upload with the given id, as a node keeps it. -/
def upload (e : Env) (s : Disk) (bucket id : String) : Option MultipartUpload :=
  e.readUpload s (e.mpuMetaPath bucket id)

/-- The upload that a command opens. -/
def opened (e : Env) (c : Command) : MultipartUpload :=
  { bucket := c.bucket
    key := c.key
    uploadID := c.uploadID
    initiated := e.mtime c
    owner := c.issuedBy
    storageClass := c.storageCls
    contentType := c.metaMap.find Command.metaContentType
    userMeta := userMetaFrom c.metaMap
    acl := if c.config = "" then none else e.unmarshalACL c.config }

/-- The part that a command records. -/
def partOf (e : Env) (c : Command) : Part := ⟨c.partNumber, c.etag, c.size, e.mtime c⟩

/-- The upload with the part of a command. -/
def recorded (e : Env) (c : Command) (mp : MultipartUpload) : MultipartUpload :=
  { mp with parts := recordPart (e.partOf c) mp.parts }

theorem upload_congr (same : t.file (e.mpuMetaPath bucket id) = s.file (e.mpuMetaPath bucket id)) :
    e.upload t bucket id = e.upload s bucket id := by
  simp only [upload, readUpload, same]

theorem readMPU_ok {mp : MultipartUpload} :
    e.readMPU s bucket id = .ok mp ↔ e.upload s bucket id = some mp := by
  unfold readMPU upload
  cases e.readUpload s (e.mpuMetaPath bucket id) <;> simp

section Names

variable {bucket' id' : String} (plain : Plain bucket) (plain' : Plain bucket') (name : '/' ∉ id.toList)
  (name' : '/' ∉ id'.toList)

include plain plain' name name'

theorem mpuMetaPath_injective (eq : e.mpuMetaPath bucket id = e.mpuMetaPath bucket' id') :
    bucket = bucket' ∧ id = id' := by
  rw [mpuMetaPath_eq name, mpuMetaPath_eq name', join_plain plain, join_plain plain'] at eq
  obtain ⟨last, dir⟩ := List.cons.inj eq
  refine ⟨(List.cons.inj dir).1, ?_⟩
  have text := congrArg String.toList last
  simp only [String.toList_append, List.append_cancel_right_eq] at text
  exact String.toList_injective text

omit plain plain' in
theorem mpuMetaPath_ne_tmp : e.mpuMetaPath bucket id ≠ jsonTmp (e.mpuMetaPath bucket' id') := by
  rw [mpuMetaPath_eq name, mpuMetaPath_eq name']
  intro eq
  have last := congrArg (fun text : String => text.toList.getLast?) (List.cons.inj eq).1
  simp at last

end Names

/-- Writing a record changes that upload and no other. -/
theorem writeRecord_wp (own : Plain c.bucket) (named : Plain c.uploadID) (mp : MultipartUpload)
    (plain : Plain bucket) (name : '/' ∉ id.toList) :
    wp (e.writeJSON (e.mpuMetaPath c.bucket c.uploadID) (.upload mp))
      (fun _ t => e.upload t bucket id =
        if bucket = c.bucket ∧ id = c.uploadID then some mp else e.upload s bucket id)
      (fun _ t => e.upload t bucket id = e.upload s bucket id) s := by
  have tmp : e.mpuMetaPath bucket id ≠ jsonTmp (e.mpuMetaPath c.bucket c.uploadID) :=
    mpuMetaPath_ne_tmp name named.2
  have marshal : e.marshal (.upload mp) = .ok (.upload mp) := rfl
  rw [writeJSON_eq marshal]
  refine wp_mono (writeThrough_wp _) ?_ ?_
  · rintro - t ⟨frame, written, -⟩
    split
    · rename_i same
      rw [same.1, same.2]
      obtain ⟨f, file, holds⟩ := Option.map_eq_some_iff.mp written
      simp [upload, readUpload, file, holds, Doc.asUpload]
    · rename_i other
      refine upload_congr (frame.file _ ?_)
      rintro (eq | eq)
      · exact other (mpuMetaPath_injective plain own name named.2 eq)
      · exact tmp eq
  · exact fun _ t frame => upload_congr (frame.file _ tmp)

/-- Cleaning up takes that upload away and no other. -/
theorem cleanup_upload (own : Plain c.bucket) (named : Plain c.uploadID) (plain : Plain bucket)
    (name : '/' ∉ id.toList) (run : e.cleanupUpload c.bucket c.uploadID s = .ok () t) :
    e.upload t bucket id =
      if bucket = c.bucket ∧ id = c.uploadID then none else e.upload s bucket id := by
  split
  · rename_i same
    obtain ⟨less, effect⟩ := cleanupUpload_effect run
    have gone : t.file (e.mpuMetaPath bucket id) = none := by
      cases file : s.file (e.mpuMetaPath bucket id) with
      | none => exact less.file file
      | some f => exact (effect _ f file).1 (.inl (by rw [same.1, same.2]))
    simp [upload, readUpload, gone]
  · rename_i other
    refine upload_congr ((wp_ok (cleanup_framed named s) run).file _ ?_)
    rintro (eq | glob)
    · exact other (mpuMetaPath_injective plain own name named.2 eq)
    · rw [join_plain (show Plain "mpstaging" by decide)] at glob
      exact data_not_area ((List.suffix_cons _ _).trans glob)
        (recordCells_area (tame_of_plain plain) name (.inl rfl)) rfl

theorem upload_reached (plain : Plain bucket) (name : '/' ∉ id.toList) (h : e.Reached s t) :
    e.upload t bucket id = e.upload s bucket id := by
  refine upload_congr (h.1.file _ fun mem => ?_)
  exact absurd (objectFiles_area mem (recordCells_area (tame_of_plain plain) name (.inl rfl))) (by decide)

/-! ### Deleting a bucket -/

/-- The disk without the trees of a bucket. -/
def emptied (e : Env) (s : Disk) (bucket : String) : Disk :=
  (((s.removeTree (e.bucketDir bucket)).removeTree (e.versionsDir bucket)).removeTree
    (e.historyDir bucket)).removeTree (e.idir ["mpu", bucket])

theorem removeBucket_run (s : Disk) (bucket : String) :
    e.removeBucket bucket s = removeIfPresent (e.bucketMetaPath bucket) (e.emptied s bucket) := rfl

theorem shrinks_removeTree (s : Disk) (p : FilePath) : Shrinks s (s.removeTree p) := by
  intro q
  rw [DirTree.get_removeTree]
  split
  · exact .inr rfl
  · exact .inl rfl

theorem emptied_shrinks (s : Disk) (bucket : String) : Shrinks s (e.emptied s bucket) :=
  (((shrinks_removeTree s _).trans (shrinks_removeTree _ _)).trans (shrinks_removeTree _ _)).trans
    (shrinks_removeTree _ _)

/-- The deletion of a bucket succeeds exactly if the bucket is empty. -/
theorem deleteBucket_isOk (ground : e.Grounded s) (plain : Plain c.bucket) :
    (outcome (e.applyDeleteBucket c) s).isOk =
      ((e.walkObjectTree s c.bucket).isEmpty && dirEmpty s (e.historyDir c.bucket)) := by
  have less := emptied_shrinks (e := e) s c.bucket
  have mem : "buckets" ∈ grounds := by decide
  have below : Below (e.area "buckets") (e.bucketMetaPath c.bucket) := metaCells_below plain.2 (.inl rfl)
  obtain ⟨t, removed⟩ := removeIfPresent_runs (s := e.emptied s c.bucket)
    (p := e.bucketMetaPath c.bucket)
    (fun q sub => less.file (ground.clear _ mem q (bucketMeta_flat (e := e) plain ▸ sub)))
    (less.notDir (ground.free _ mem _ below))
  rw [outcome, applyDeleteBucket_run, removeBucket_run, removed]
  cases (e.walkObjectTree s c.bucket).isEmpty && dirEmpty s (e.historyDir c.bucket) with
  | true => rfl
  | false => rfl

theorem emptied_upload (own : Plain c.bucket) (plain : Plain bucket) (name : '/' ∉ id.toList) :
    e.upload (e.emptied s c.bucket) bucket id =
      if bucket = c.bucket then none else e.upload s bucket id := by
  have tame := tame_of_plain own
  have area : e.area "mpu" <:+ e.mpuMetaPath bucket id :=
    recordCells_area (tame_of_plain plain) name (.inl rfl)
  have data : ¬ e.bucketDir c.bucket <:+ e.mpuMetaPath bucket id := fun h =>
    data_not_area ((root_bucketDir tame).trans h) area rfl
  have versions : ¬ e.versionsDir c.bucket <:+ e.mpuMetaPath bucket id := fun h =>
    absurd (area_unique ((area_versionsDir tame).trans h) area) (by decide)
  have history : ¬ e.historyDir c.bucket <:+ e.mpuMetaPath bucket id := fun h =>
    absurd (area_unique ((area_historyDir tame).trans h) area) (by decide)
  have path : e.mpuMetaPath bucket id = (id ++ ".json") :: bucket :: e.area "mpu" := by
    rw [mpuMetaPath_eq name, join_plain plain]
  have get : (e.emptied s c.bucket).get (e.mpuMetaPath bucket id) =
      if bucket = c.bucket then none else s.get (e.mpuMetaPath bucket id) := by
    simp only [emptied, DirTree.get_removeTree, data, versions, history, false_and, if_false]
    rw [mpuDir_eq own]
    by_cases same : bucket = c.bucket
    · have inside : c.bucket :: e.area "mpu" <:+ e.mpuMetaPath bucket id := by
        rw [path, same]
        exact List.suffix_cons _ _
      rw [if_pos same, if_pos ⟨inside, by simp [path]⟩]
    · have outside : ¬ c.bucket :: e.area "mpu" <:+ e.mpuMetaPath bucket id := by
        rw [path]
        intro sub
        have tails := List.suffix_of_suffix_length_le sub (List.suffix_cons (id ++ ".json") _) (by simp)
        exact same (List.cons.inj (tails.eq_of_length (by simp))).1.symm
      rw [if_neg same, if_neg fun h => outside h.1]
  split
  · rename_i same
    rw [if_pos same] at get
    simp [upload, readUpload, DirTree.file, get]
  · rename_i other
    rw [if_neg other] at get
    exact upload_congr (DirTree.file_of_get_eq get)

theorem deleteBucket_upload (ground : e.Grounded s) (own : Plain c.bucket) (plain : Plain bucket)
    (name : '/' ∉ id.toList) :
    e.upload (final (e.applyDeleteBucket c) s) bucket id =
      if (outcome (e.applyDeleteBucket c) s).isOk = true then
        if bucket = c.bucket then none else e.upload s bucket id
      else e.upload s bucket id := by
  rw [deleteBucket_isOk ground own]
  have run := applyDeleteBucket_run (e := e) s c
  split
  · rename_i empty
    rw [if_pos empty, removeBucket_run] at run
    have same : final (e.applyDeleteBucket c) s =
        final (removeIfPresent (e.bucketMetaPath c.bucket)) (e.emptied s c.bucket) := by
      rw [final, run]
      rfl
    have frame : Framed {e.bucketMetaPath c.bucket} ∅ (e.emptied s c.bucket)
        (final (e.applyDeleteBucket c) s) := by
      rw [same]
      exact (removeIfPresent_within (Set.mem_singleton _)).final _
    rw [upload_congr (frame.file _ ?_), emptied_upload own plain name]
    exact area_ne (recordCells_area (tame_of_plain plain) name (.inl rfl))
      (metaCells_below own.2 (.inl rfl)).1 (by decide)
  · rename_i taken
    rw [if_neg taken] at run
    rw [final_of_error run]

/-! ### The account -/

end Env

/-- A command that ends an upload. -/
def Command.Ends (c : Command) (bucket id : String) : Prop :=
  (c.op = .completeMultipart ∨ c.op = .abortMultipart) ∧ c.bucket = bucket ∧ c.uploadID = id

namespace Env

variable {e : Env} {s t : Disk} {c : Command} {bucket id : String} {i : Input} {ins : List Input}

abbrev Uploads := String → String → Option MultipartUpload

/-- The account with one upload changed. -/
def Uploads.set (U : Uploads) (bucket id : String) (mp : Option MultipartUpload) : Uploads :=
  fun bucket' id' => if bucket' = bucket ∧ id' = id then mp else U bucket' id'

/-- The account after an input. -/
def booked (e : Env) (s : Disk) (i : Input) (U : Uploads) : Uploads :=
  match i with
  | .command c =>
    if (outcome (e.applyDisk c) s).isOk then
      match c.op with
      | .createMultipart => U.set c.bucket c.uploadID (some (e.opened c))
      | .uploadPart => U.set c.bucket c.uploadID ((U c.bucket c.uploadID).map (e.recorded c))
      | .completeMultipart | .abortMultipart => U.set c.bucket c.uploadID none
      | .deleteBucket => fun bucket id => if bucket = c.bucket then none else U bucket id
      | _ => U
    else U
  | _ => U

/-- What a program does to a value, by its outcome. -/
theorem final_ite {α : Type} {x : M Unit} {f : Disk → α} {a b : α}
    (h : wp x (fun _ t => f t = a) (fun _ t => f t = b) s) :
    f (final x s) = if (outcome x s).isOk = true then a else b := by
  unfold wp at h
  unfold final outcome
  split at h
  · rename_i run
    simp [h, Except.isOk, Except.toBool]
  · rename_i run
    simp [h, Except.isOk, Except.toBool]

theorem createMultipart_upload (own : Plain c.bucket) (named : Plain c.uploadID)
    (plain : Plain bucket) (name : '/' ∉ id.toList) :
    e.upload (final (e.applyCreateMultipart c) s) bucket id =
      if (outcome (e.applyCreateMultipart c) s).isOk = true then
        Uploads.set (e.upload s) c.bucket c.uploadID (some (e.opened c)) bucket id
      else e.upload s bucket id :=
  final_ite (f := fun t => e.upload t bucket id) (writeRecord_wp own named (e.opened c) plain name)

theorem uploadPart_upload (own : Plain c.bucket) (named : Plain c.uploadID)
    (plain : Plain bucket) (name : '/' ∉ id.toList) :
    e.upload (final (e.applyUploadPart c) s) bucket id =
      if (outcome (e.applyUploadPart c) s).isOk = true then
        Uploads.set (e.upload s) c.bucket c.uploadID
          ((e.upload s c.bucket c.uploadID).map (e.recorded c)) bucket id
      else e.upload s bucket id := by
  refine final_ite (f := fun t => e.upload t bucket id) ?_
  unfold applyUploadPart
  rw [wp_bind, wp_get, wp_ite]
  refine ⟨fun _ => ?_, fun _ => rfl⟩
  rw [wp_bind, wp_reading]
  cases record : e.readMPU s c.bucket c.uploadID with
  | error err => exact rfl
  | ok mp =>
    rw [readMPU_ok.mp record]
    exact writeRecord_wp own named (e.recorded c mp) plain name

theorem abortMultipart_upload (own : Plain c.bucket) (named : Plain c.uploadID)
    (plain : Plain bucket) (name : '/' ∉ id.toList) :
    e.upload (final (e.applyAbortMultipart c) s) bucket id =
      if (outcome (e.applyAbortMultipart c) s).isOk = true then
        Uploads.set (e.upload s) c.bucket c.uploadID none bucket id
      else e.upload s bucket id := by
  refine final_ite (f := fun t => e.upload t bucket id) ?_
  unfold applyAbortMultipart
  rw [wp_bind, wp_get]
  cases record : e.readMPU s c.bucket c.uploadID with
  | error err =>
    have absent : e.upload s c.bucket c.uploadID = none := by
      cases found : e.upload s c.bucket c.uploadID with
      | none => rfl
      | some mp => rw [readMPU_ok.mpr found] at record; cases record
    change e.upload s bucket id = Uploads.set _ _ _ _ _ _
    unfold Uploads.set
    split
    · rename_i same
      rw [same.1, same.2, absent]
    · rfl
  | ok mp =>
    exact wp_cases (fun _ t run => cleanup_upload own named plain name run)
      fun err t run => (wp_error (cleanupUpload_wp c.bucket named) run).elim

theorem completeMultipart_upload (tidy : e.Tidy s) (own : Plain c.bucket) (token : Plain c.blobToken)
    (named : Plain c.uploadID) (plain : Plain bucket) (name : '/' ∉ id.toList) :
    e.upload (final (e.applyCompleteMultipart c) s) bucket id =
      if (outcome (e.applyCompleteMultipart c) s).isOk = true then
        Uploads.set (e.upload s) c.bucket c.uploadID none bucket id
      else e.upload s bucket id := by
  refine final_ite (f := fun t => e.upload t bucket id)
    (wp_mono (applyCompleteMultipart_reaches tidy (tame_of_plain own) token named) ?_ ?_)
  · rintro - t ⟨-, u, inv, cleanup⟩
    rw [cleanup_upload own named plain name cleanup, upload_reached plain name inv]
    rfl
  · exact fun _ t inv => upload_reached plain name inv

/-- An input does to the uploads what the account says. -/
theorem upload_take (ground : e.Grounded s) (ok : i.Tidy) (plain : Plain bucket)
    (name : '/' ∉ id.toList) :
    e.upload (final (e.take i) s) bucket id = e.booked s i (e.upload s) bucket id := by
  have frame := (take_framed ground.tidy ok).1
  have area : e.area "mpu" <:+ e.mpuMetaPath bucket id :=
    recordCells_area (tame_of_plain plain) name (.inl rfl)
  have kept (kind : String) (apart : kind ≠ "mpu") (h : ∀ q ∈ e.touched i, e.area kind <:+ q) :
      e.upload (final (e.take i) s) bucket id = e.upload s bucket id :=
    upload_congr (frame.file _ fun mem => apart (area_unique (h _ mem) area))
  cases i with
  | blob token payload => exact kept "staging" (by decide) fun q mem => mem
  | part id' number payload => exact kept "mpstaging" (by decide) fun q mem => (partCells_below mem).1
  | command c =>
    have own (addressed : c.onDisk = true) : Plain c.bucket := ok.bucket addressed
    have object (files : e.touched (.command c) = e.objectFiles) :
        e.upload (final (e.applyDisk c) s) bucket id = e.upload s bucket id := by
      refine upload_congr (frame.file _ fun mem => ?_)
      rw [files] at mem
      exact absurd (objectFiles_area mem area) (by decide)
    simp only [take, booked]
    cases op : c.op <;> simp only [applyDisk, op, ite_self]
    case putAccount | deleteAccount | unknown => rfl
    case createMultipart =>
      rw [createMultipart_upload (own (by simp [Command.onDisk, op])) (ok.upload (.inl op)) plain name]
      split
      · rfl
      · rfl
    case uploadPart =>
      rw [uploadPart_upload (own (by simp [Command.onDisk, op])) (ok.upload (.inr (.inl op))) plain name]
      split
      · rfl
      · rfl
    case abortMultipart =>
      rw [abortMultipart_upload (own (by simp [Command.onDisk, op]))
        (ok.upload (.inr (.inr (.inr op)))) plain name]
      split
      · rfl
      · rfl
    case completeMultipart =>
      rw [completeMultipart_upload ground.tidy (own (by simp [Command.onDisk, op]))
        (ok.token (.inr op)) (ok.upload (.inr (.inr (.inl op)))) plain name]
      split
      · rfl
      · rfl
    case deleteBucket =>
      rw [deleteBucket_upload ground (own (by simp [Command.onDisk, op])) plain name]
      split
      · rfl
      · rfl
    case putObject | deleteObject | copyObject | putObjectAcl | putObjectTagging | deleteObjectTag |
        putObjectRetention | putObjectLegalHold =>
      have same := object (by simp only [touched, op])
      simpa only [applyDisk, op] using same
    all_goals
      have same := kept "buckets" (by decide) fun q mem =>
        (metaCells_below (own (by simp [Command.onDisk, op])).2 (by simpa only [touched, op] using mem)).1
      simpa only [take, applyDisk, op] using same

/-! ### Runs -/

/-- A disk to start from: in order, and without uploads. -/
structure Starts (e : Env) (s : Disk) : Prop where
  ground : e.Grounded s
  bare : ∀ q, e.area "mpu" <:+ q → s.file q = none

theorem Starts.none (start : e.Starts s) (plain : Plain bucket) (name : '/' ∉ id.toList) :
    e.upload s bucket id = none := by
  have absent := start.bare _ (recordCells_area (tame_of_plain plain) name (.inl rfl))
  simp [upload, readUpload, absent]

theorem Grounded.along (ground : e.Grounded s) (ok : e.Along (fun _ i => i.Tidy) ins s) :
    e.Grounded (e.feed ins s) := by
  induction ins generalizing s with
  | nil => exact ground
  | cons i rest ih => exact ih (ground.take ok.1) ok.2

theorem starts_of_fresh (fresh : Fresh e s)
    (free : ∀ q ∈ s.dom, ¬ Below (e.area "buckets") q ∧ ¬ Below (e.area "mpstaging") q) :
    e.Starts s := by
  have filed : e.Filed s := by
    intro bucket key hp f _ _ file
    rw [fresh.file] at file
    cases file
  refine ⟨⟨⟨filed, everywhere_of_dom fun p _ => fresh.file p⟩, fun _ _ q _ => fresh.file q, ?_⟩, ?_⟩
  · intro kind mem q below dir
    have here := free q ((s.mem_dom q).mpr (by simp [dir]))
    simp only [grounds, List.mem_cons, List.not_mem_nil, or_false] at mem
    rcases mem with rfl | rfl
    · exact here.1 below
    · exact here.2 below
  · exact fun q _ => fresh.file q

theorem starts_small : (smallEnv false).Starts (smallDisk false) :=
  starts_of_fresh (by decide +kernel) (by decide +kernel)

/-- What an entry of the account goes back to. -/
theorem booked_some {U : Uploads} {mp : MultipartUpload} (h : e.booked s i U bucket id = some mp) :
    (U bucket id = some mp ∧ ∀ c, i = .command c → c.Ends bucket id →
      (outcome (e.applyDisk c) s).isOk = false) ∨
    ∃ c, i = .command c ∧ c.bucket = bucket ∧ c.uploadID = id ∧
      (outcome (e.applyDisk c) s).isOk = true ∧
      (c.op = .createMultipart ∧ mp = e.opened c ∨
        c.op = .uploadPart ∧ ∃ old, U bucket id = some old ∧ mp = e.recorded c old) := by
  cases i with
  | blob token payload => exact .inl ⟨h, fun c eq => by cases eq⟩
  | part id' number payload => exact .inl ⟨h, fun c eq => by cases eq⟩
  | command c =>
    -- an upload that the command did not end is as it was
    have kept (same : U bucket id = some mp)
        (open_ : c.Ends bucket id → (outcome (e.applyDisk c) s).isOk = false) :
        U bucket id = some mp ∧ ∀ c', Input.command c = .command c' → c'.Ends bucket id →
          (outcome (e.applyDisk c') s).isOk = false :=
      ⟨same, fun c' eq => by cases eq; exact open_⟩
    simp only [booked] at h
    cases done : (outcome (e.applyDisk c) s).isOk with
    | false =>
      rw [done, if_neg (by decide)] at h
      exact .inl (kept h fun _ => done)
    | true =>
      rw [done, if_pos rfl] at h
      have other (same : U bucket id = some mp) (op : c.op ≠ .completeMultipart)
          (op' : c.op ≠ .abortMultipart) :=
        kept same fun ends => (ends.1.elim op op').elim
      unfold Uploads.set at h
      cases op : c.op <;> simp only [op] at h
      case createMultipart =>
        split at h
        · rename_i same
          refine .inr ⟨c, rfl, same.1.symm, same.2.symm, done, .inl ⟨op, ?_⟩⟩
          exact (Option.some.inj h).symm
        · exact .inl (other h (by simp [op]) (by simp [op]))
      case uploadPart =>
        split at h
        · rename_i same
          obtain ⟨old, found, eq⟩ := Option.map_eq_some_iff.mp h
          refine .inr ⟨c, rfl, same.1.symm, same.2.symm, done, .inr ⟨op, old, ?_, eq.symm⟩⟩
          rw [same.1, same.2, found]
        · exact .inl (other h (by simp [op]) (by simp [op]))
      case completeMultipart | abortMultipart =>
        split at h
        · cases h
        · rename_i differs
          exact .inl (kept h fun ends => (differs ⟨ends.2.1.symm, ends.2.2.symm⟩).elim)
      case deleteBucket =>
        split at h
        · cases h
        · exact .inl (other h (by simp [op]) (by simp [op]))
      all_goals exact .inl (other h (by simp [op]) (by simp [op]))

/-- The account of a run. -/
def account (e : Env) : List Input → Disk → Uploads → Uploads
  | [], _, U => U
  | i :: rest, s, U => e.account rest (final (e.take i) s) (e.booked s i U)

theorem account_concat (ins : List Input) (i : Input) (s : Disk) (U : Uploads) :
    e.account (ins ++ [i]) s U = e.booked (e.feed ins s) i (e.account ins s U) := by
  induction ins generalizing s U with
  | nil => rfl
  | cons j rest ih => exact ih (final (e.take j) s) (e.booked s j U)

/-- The account looks at plain names only. -/
theorem booked_congr (ok : i.Tidy) {U V : Uploads}
    (same : ∀ bucket id, Plain bucket → '/' ∉ id.toList → U bucket id = V bucket id)
    (plain : Plain bucket) (name : '/' ∉ id.toList) :
    e.booked s i U bucket id = e.booked s i V bucket id := by
  have here := same bucket id plain name
  cases i with
  | blob token payload => exact here
  | part id' number payload => exact here
  | command c =>
    simp only [booked]
    split
    · cases op : c.op <;> simp only [Uploads.set]
      case uploadPart =>
        rw [same c.bucket c.uploadID (ok.bucket (by simp [Command.onDisk, op]))
          (ok.upload (.inr (.inl op))).2, here]
      all_goals rw [here]
    · exact here

/-- After a run the records are what the account says, and the account is of plain names. -/
theorem account_spec (start : e.Starts s) (run : e.Along (fun _ i => i.Tidy) ins s) :
    (∀ bucket id, Plain bucket → '/' ∉ id.toList →
      e.account ins s (fun _ _ => none) bucket id = e.upload (e.feed ins s) bucket id) ∧
    ∀ bucket id mp, e.account ins s (fun _ _ => none) bucket id = some mp →
      Plain bucket ∧ Plain id ∧ mp.uploadID = id := by
  induction ins using List.reverseRecOn with
  | nil => exact ⟨fun bucket id plain name => (start.none plain name).symm, fun bucket id mp h => by cases h⟩
  | append_singleton ins i ih =>
    obtain ⟨ran, tidy⟩ := along_concat.mp run
    obtain ⟨same, named⟩ := ih ran
    have ground := start.ground.along ran
    refine ⟨fun bucket id plain name => ?_, fun bucket id mp found => ?_⟩
    · rw [account_concat, feed_concat, upload_take ground tidy plain name]
      exact booked_congr tidy same plain name
    · rw [account_concat] at found
      rcases booked_some found with ⟨old, -⟩ | ⟨c, rfl, rfl, rfl, -, ⟨op, rfl⟩ | ⟨op, mp', old, rfl⟩⟩
      · exact named bucket id mp old
      · exact ⟨tidy.bucket (by simp [Command.onDisk, op]), tidy.upload (.inl op), rfl⟩
      · exact named _ _ mp' old

end Env

end D9Store
