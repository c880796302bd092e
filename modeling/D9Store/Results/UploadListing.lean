import D9Store.Results.KeyPaths
import D9Store.Uploads.Ledger

/-!
The listing of uploads.

`ListMultipartUploads` reads the directory `mpu/<bucket>` below the data root, while the records
lie below the state root. What it returns are the records that someone has stored as objects of a
bucket named `mpu`; it is exact when those happen to be the records of the uploads.
-/

namespace D9Store

open Posix FilePath

namespace Env

variable {e : Env} {s t : Disk} {ins : List Input} {bucket : String} {i : Input}

/-! ### Where records are -/

/-- Every file among the records is a record, or one that was not finished. -/
def Shelved (e : Env) (s : Disk) : Prop :=
  ∀ q, e.area "mpu" <:+ q → (s.file q).isSome = true → ∃ bucket id, Plain bucket ∧ Plain id ∧
    q ∈ ({e.mpuMetaPath bucket id, jsonTmp (e.mpuMetaPath bucket id)} : Set FilePath)

/-- What an input changes among the records is a record of its own, unless a bucket goes. -/
theorem touched_records (ok : i.Tidy) {q : FilePath} (mem : q ∈ e.touched i)
    (area : e.area "mpu" <:+ q) :
    (∃ bucket id, Plain bucket ∧ Plain id ∧
      q ∈ ({e.mpuMetaPath bucket id, jsonTmp (e.mpuMetaPath bucket id)} : Set FilePath)) ∨
    ∃ c, i = .command c ∧ c.op = .deleteBucket := by
  have apart {kind : String} (h : e.area kind <:+ q) (other : kind ≠ "mpu") : False :=
    other (area_unique h area)
  cases i with
  | blob token payload => exact (apart mem (by decide)).elim
  | part id number payload => exact (apart (partCells_below mem).1 (by decide)).elim
  | command c =>
    rcases touched_kind ok mem with object | config | ⟨-, removal | ⟨plain, upload, cell⟩⟩
    · exact absurd (objectFiles_area object area) (by decide)
    · exact (apart config.1 (by decide)).elim
    · exact .inr ⟨c, rfl, removal⟩
    · exact .inl ⟨_, _, plain, upload, cell⟩

theorem Shelved.take (shelved : e.Shelved s) (tidy : e.Tidy s) (ok : i.Tidy) :
    e.Shelved (final (e.take i) s) := by
  intro q area file
  by_cases mem : q ∈ e.touched i
  · rcases touched_records ok mem area with cell | ⟨c, rfl, op⟩
    · exact cell
    · refine shelved q area ?_
      have same : e.take (.command c) = e.applyDeleteBucket c := by simp [Env.take, applyDisk, op]
      rw [same] at file
      rcases applyDeleteBucket_final (e := e) s c with kept | ⟨-, -, -, less⟩
      · rwa [kept] at file
      · rcases less q with kept | gone
        · rwa [DirTree.file_of_get_eq kept] at file
        · simp [DirTree.file, gone] at file
  · rw [(take_framed tidy ok).1.file q mem] at file
    exact shelved q area file

theorem Shelved.along (start : e.Starts s) (run : e.Along (fun _ i => i.Tidy) ins s) :
    e.Shelved (e.feed ins s) := by
  induction ins using List.reverseRecOn with
  | nil =>
    intro q area file
    rw [show e.feed [] s = s from rfl, start.bare q area] at file
    cases file
  | append_singleton ins i ih =>
    obtain ⟨ran, tidy⟩ := along_concat.mp run
    rw [feed_concat]
    exact (ih ran).take (start.ground.along ran).tidy tidy

/-! ### Listings -/

/-- The records in a directory whose keys have the prefix. -/
def recordsIn (e : Env) (s : Disk) (dir : FilePath) (pre : String) : List MultipartUpload :=
  (((sorted (s.children dir)).filter (·.endsWith ".json")).filterMap fun name =>
    e.readUpload s (name :: dir)).filter fun mp => pre == "" || Text.hasPrefix mp.key pre

/-- The order of a listing. -/
def Before (a b : MultipartUpload) : Prop := a.key < b.key ∨ (a.key = b.key ∧ a.uploadID ≤ b.uploadID)

instance : DecidableRel Before := fun a b => by unfold Before; infer_instance

instance : Std.Total Before where
  total a b := by
    rcases lt_trichotomy a.key b.key with lt | eq | gt
    · exact .inl (.inl lt)
    · rcases le_total a.uploadID b.uploadID with le | ge
      · exact .inl (.inr ⟨eq, le⟩)
      · exact .inr (.inr ⟨eq.symm, ge⟩)
    · exact .inr (.inl gt)

instance : IsTrans MultipartUpload Before where
  trans a b c := by
    rintro (lt | ⟨eq, le⟩) (lt' | ⟨eq', le'⟩)
    · exact .inl (lt.trans lt')
    · exact .inl (eq' ▸ lt)
    · exact .inl (eq ▸ lt')
    · exact .inr ⟨eq.trans eq', le.trans le'⟩

/-- A listing is exactly what an account holds for the bucket and the prefix. -/
structure Exact (U : Uploads) (bucket pre : String) (listing : List MultipartUpload) : Prop where
  mem : ∀ mp, mp ∈ listing ↔ (∃ id, U bucket id = some mp) ∧ (pre == "" || Text.hasPrefix mp.key pre) = true
  once : listing.Nodup
  sorted : listing.Pairwise Before

section Run

variable (start : e.Starts s) (run : e.Along (fun _ i => i.Tidy) ins s) (plain : Plain bucket)

/-- A file read by its name is the record of an upload of the bucket. -/
theorem upload_of_name (shelved : e.Shelved t) (plain : Plain bucket) {name : String}
    (json : name.endsWith ".json" = true) {mp : MultipartUpload}
    (found : e.readUpload t (name :: e.idir ["mpu", bucket]) = some mp) :
    ∃ id, Plain id ∧ name = id ++ ".json" ∧ e.upload t bucket id = some mp := by
  rw [mpuDir_eq plain] at found
  have file : (t.file (name :: bucket :: e.area "mpu")).isSome = true := by
    unfold readUpload at found
    split at found
    · cases found
    · rename_i f file
      simp [file]
  obtain ⟨b, id, own, named, cell⟩ := shelved _ ((List.suffix_cons _ _).trans (List.suffix_cons _ _)) file
  rw [mpuMetaPath_eq named.2, join_plain own] at cell
  rcases cell with eq | eq
  · obtain ⟨same, rest⟩ := List.cons.inj eq
    obtain ⟨rfl, -⟩ := List.cons.inj rest
    refine ⟨id, named, same, ?_⟩
    rw [upload, mpuMetaPath_eq named.2, join_plain plain, ← same, found]
  · have same : name = id ++ ".json" ++ ".tmp" := (List.cons.inj eq).1
    rw [same, ← String.endsWith_toSlice, String.Slice.endsWith_string_iff] at json
    obtain ⟨front, eq⟩ := json
    have last := congrArg List.getLast? eq
    simp at last

include start run plain

theorem mem_recordsIn (pre : String) (mp : MultipartUpload) :
    mp ∈ e.recordsIn (e.feed ins s) (e.idir ["mpu", bucket]) pre ↔
      (∃ id, e.account ins s (fun _ _ => none) bucket id = some mp) ∧
        (pre == "" || Text.hasPrefix mp.key pre) = true := by
  obtain ⟨same, named⟩ := account_spec start run
  rw [recordsIn, List.mem_filter]
  refine and_congr_left fun _ => ?_
  rw [List.mem_filterMap]
  constructor
  · rintro ⟨name, mem, found⟩
    obtain ⟨id, plainID, -, here⟩ := upload_of_name (Shelved.along start run) plain
      (List.mem_filter.mp mem).2 found
    exact ⟨id, by rw [same bucket id plain plainID.2, here]⟩
  · rintro ⟨id, found⟩
    obtain ⟨-, plainID, -⟩ := named bucket id mp found
    rw [same bucket id plain plainID.2, upload, mpuMetaPath_eq plainID.2, join_plain plain] at found
    refine ⟨id ++ ".json", List.mem_filter.mpr ⟨?_, endsWith_json id⟩, by rw [mpuDir_eq plain, found]⟩
    rw [mem_sorted, DirTree.mem_children, mpuDir_eq plain]
    unfold readUpload at found
    split at found
    · cases found
    · rename_i f file
      simp [DirTree.file_eq_some.mp file]

theorem nodup_recordsIn (pre : String) : (e.recordsIn (e.feed ins s) (e.idir ["mpu", bucket]) pre).Nodup := by
  obtain ⟨same, named⟩ := account_spec start run
  have shelved := Shelved.along start run
  refine List.Nodup.filter _ ?_
  rw [List.Nodup, List.pairwise_filterMap]
  refine List.Pairwise.imp_of_mem ?_ ((sorted_lt _).filter _)
  intro name name' mem mem' lt mp found mp' found' eq
  obtain ⟨id, plainID, rfl, here⟩ := upload_of_name shelved plain (List.mem_filter.mp mem).2 found
  obtain ⟨id', plainID', rfl, here'⟩ := upload_of_name shelved plain (List.mem_filter.mp mem').2 found'
  rw [← same bucket id plain plainID.2] at here
  rw [← same bucket id' plain plainID'.2] at here'
  have ids : id = id' := by
    rw [← (named _ _ _ here).2.2, ← (named _ _ _ here').2.2, eq]
  exact lt.ne (by rw [ids])

/-- The listing of an existing bucket is exact if and only if the directory that is read holds
the records of the uploads, for the prefix and up to their order. -/
theorem listing_exact_iff (pre : String)
    (present : (e.readBucketMeta (e.feed ins s) bucket).isOk = true) :
    (∃ listing, e.listMultipartUploads (e.feed ins s) bucket pre = .ok listing ∧
      Exact (e.account ins s fun _ _ => none) bucket pre listing) ↔
    (e.recordsIn (e.feed ins s) ((e.root.join "mpu").join bucket) pre).Perm
      (e.recordsIn (e.feed ins s) (e.idir ["mpu", bucket]) pre) := by
  have listed : e.listMultipartUploads (e.feed ins s) bucket pre =
      .ok ((e.recordsIn (e.feed ins s) ((e.root.join "mpu").join bucket) pre).insertionSort Before) := by
    cases found : e.readBucketMeta (e.feed ins s) bucket with
    | error err =>
      rw [found] at present
      cases present
    | ok bm =>
      rw [listMultipartUploads, found]
      rfl
  have mem := mem_recordsIn start run plain pre
  have nodup := nodup_recordsIn start run plain pre
  have perm := List.perm_insertionSort Before
    (e.recordsIn (e.feed ins s) ((e.root.join "mpu").join bucket) pre)
  constructor
  · rintro ⟨listing, eq, exact_⟩
    rw [listed] at eq
    cases eq
    refine perm.symm.trans ((List.perm_ext_iff_of_nodup exact_.once nodup).mpr fun mp => ?_)
    rw [exact_.mem, mem]
  · intro same
    refine ⟨_, listed, ⟨fun mp => ?_, ?_, List.pairwise_insertionSort Before _⟩⟩
    · rw [(perm.trans same).mem_iff, mem]
    · exact (perm.trans same).nodup_iff.mpr nodup

end Run

/-- After an abort nothing is left to list. -/
theorem listing_exact_after_abort :
    let e := smallEnv false
    let ins := [.command Small.create, .command (Small.beginUpload "k" 0), .command (Small.abort "k" 0)]
    ∃ listing, e.listMultipartUploads (e.feed ins (smallDisk false)) "b" "" = .ok listing ∧
      Exact (e.account ins (smallDisk false) fun _ _ => none) "b" "" listing := by
  intro e ins
  have start : e.Starts (smallDisk false) := starts_of_fresh (by decide +kernel) (by decide +kernel)
  have none : e.recordsIn (e.feed ins (smallDisk false)) ((e.root.join "mpu").join "b") "" = [] ∧
      e.recordsIn (e.feed ins (smallDisk false)) (e.idir ["mpu", "b"]) "" = [] := by
    decide +kernel
  refine (listing_exact_iff start (by decide +kernel) (by decide) "" (by decide +kernel)).mpr ?_
  rw [none.1, none.2]

/-- An upload that was just created is not listed. -/
theorem created_upload_not_listed :
    let e := smallEnv false
    let ins := [.command Small.create, .command (Small.beginUpload "k" 0)]
    e.listMultipartUploads (e.feed ins (smallDisk false)) "b" "" = .ok [] ∧
      ¬ Exact (e.account ins (smallDisk false) fun _ _ => none) "b" "" [] := by
  intro e ins
  refine ⟨by decide +kernel, fun exact_ => ?_⟩
  have live : (e.account ins (smallDisk false) (fun _ _ => none) "b" (uuid 0)).isSome = true := by
    decide +kernel
  obtain ⟨mp, found⟩ := Option.isSome_iff_exists.mp live
  have listed := (exact_.mem mp).mpr ⟨⟨uuid 0, found⟩, by simp⟩
  cases listed

end Env

end D9Store
