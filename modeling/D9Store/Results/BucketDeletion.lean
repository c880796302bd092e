import D9Store.Keyspace.Needed
import D9Store.Results.VersionPages
import D9Store.Uploads.Ledger

/-!
Deleting a bucket.

A deletion looks at the files of the bucket and at the entries of its history directory, a listing
of versions at the keys that can be read. They differ on what is left when the last version of a key
is gone: the history file is removed, the directories on the way to it are not.
-/

namespace D9Store

open Posix FilePath

namespace Env

variable {e : Env} {s : Disk} {c : Command} {bucket key : String} {ins : List Input} {maxKeys : Int}

/-! ### The listing -/

/-- All pages of the version listing of a bucket show no version and no delete marker. -/
def Unlisted (e : Env) (s : Disk) (bucket : String) (maxKeys : Int) : Prop :=
  ∃ fuel pages, Paging.follow (e.listObjectVersions s) (nextVersions { bucket, maxKeys }) fuel
      { bucket, maxKeys } = .ok (some pages) ∧
    pages.flatMap (·.versions) = [] ∧ pages.flatMap (·.deleteMarkers) = []

/-- Without prefix and delimiter every version of every key is an entry. -/
theorem entriesFrom_all (own : String → List ObjectMeta) (seen keys : List String) :
    entriesFrom "" "" own seen keys = keys.flatMap fun key => (own key).map (ListEntry.version key) := by
  induction keys with
  | nil => rfl
  | cons key rest ih => rw [entriesFrom_own rfl (by rw [displayToken, if_pos rfl]), ih]; rfl

/-- The first page shows the first entry. -/
theorem fillVersions_head (size : Nat) (x : ListEntry) (rest : List ListEntry) :
    ∃ xs, ShowsVersions (fillVersions (size + 1) (x :: rest) {}) (x :: xs) := by
  by_cases fits : rest.length ≤ size
  · refine ⟨rest, ?_⟩
    rw [fillVersions_fits (by simp only [List.length_cons]; omega)]
    exact showsVersions_add _
  · obtain ⟨y, others, left⟩ := List.exists_cons_of_ne_nil (l := rest.drop size)
      (by rw [Ne, List.drop_eq_nil_iff]; omega)
    have cut : x :: rest = (x :: rest.take size) ++ y :: others := by
      rw [← left, List.cons_append, List.take_append_drop]
    have shows := showsVersions_add (x :: rest.take size)
    refine ⟨rest.take size, ?_⟩
    rw [cut, fillVersions_stops (by simp; omega)]
    exact ⟨shows.versions, shows.deleteMarkers, shows.commonPrefixes⟩

/-- A listing shows nothing exactly if no key has a version. -/
theorem unlisted_iff (present : (e.readBucketMeta s bucket).isOk = true) :
    Unlisted e s bucket maxKeys ↔ ∀ key ∈ e.versionKeys s bucket, e.versionsOf s bucket key = [] := by
  obtain ⟨bm, found⟩ : ∃ bm, e.readBucketMeta s bucket = .ok bm := by
    cases found : e.readBucketMeta s bucket with
    | error err =>
      rw [found] at present
      cases present
    | ok bm => exact ⟨bm, rfl⟩
  have pos := clampMax_pos maxKeys
  obtain ⟨size, max⟩ : ∃ size : Nat, clampMax maxKeys = size + 1 :=
    ⟨(clampMax maxKeys - 1).toNat, by omega⟩
  set entries := (e.versionKeys s bucket).flatMap fun key =>
    (e.versionsOf s bucket key).map (ListEntry.version key) with shown
  have first : e.listObjectVersions s { bucket, maxKeys } = .ok (fillVersions (size + 1) entries {}) := by
    have all : (e.versionKeys s bucket).filter (visits { bucket, maxKeys }) =
        e.versionKeys s bucket :=
      List.filter_eq_self.mpr fun key _ => by simp [visits]
    unfold listObjectVersions
    simp only [found, except_ok_bind, max, listVersionKeys_entries]
    rw [← versionKeys, all, entriesFrom_all]
    rfl
  have none : entries = [] ↔ ∀ key ∈ e.versionKeys s bucket, e.versionsOf s bucket key = [] := by
    simp [shown]
  rw [← none]
  constructor
  · rintro ⟨fuel, pages, run, versions, markers⟩
    obtain ⟨page, others, answer, rfl⟩ := Paging.follow_head run
    cases split : entries with
    | nil => rfl
    | cons x rest =>
      rw [first, split] at answer
      cases answer
      obtain ⟨xs, shows⟩ := fillVersions_head size x rest
      have mem : x ∈ entries := split ▸ List.mem_cons_self
      obtain ⟨key, -, mem⟩ := List.mem_flatMap.mp mem
      obtain ⟨v, -, rfl⟩ := List.mem_map.mp mem
      have noVersion := shows.versions.symm.trans (List.append_eq_nil_iff.mp versions).1
      have noMarker := shows.deleteMarkers.symm.trans (List.append_eq_nil_iff.mp markers).1
      cases marker : v.deleteMarker <;>
        simp [ListEntry.version?, marker] at noVersion noMarker
  · intro empty
    refine ⟨1, [{}], ?_, rfl, rfl⟩
    rw [Paging.follow, first, empty]
    rfl

/-! ### Keys that can be read -/

/-- The key has a history file or, with none in the way, an object file. -/
def Readable (e : Env) (s : Disk) (bucket key : String) : Prop :=
  ∃ hp, e.historyPath bucket key = .ok hp ∧
    ((∃ f, s.file hp = some f) ∨
      e.readDoc s hp = .error (.os .noent) ∧
        ∃ op f, e.objectPath bucket key = .ok op ∧ s.file op = some f)

theorem readable_iff (neat : e.Neat s) (tame : Tame bucket) :
    Readable e s bucket key ↔ e.versionsOf s bucket key ≠ [] := by
  constructor
  · rintro ⟨hp, place, ⟨f, file⟩ | ⟨absent, op, f, object, file⟩⟩
    · obtain ⟨km, holds, -⟩ := neat.tidy.filed bucket key hp f tame place file
      have doc : e.readDoc s hp = .ok (.keyMeta km) :=
        readDoc_of_content (by rw [content, file, Option.map_some, holds])
      rw [versionsOf_of_doc place doc]
      exact ((neat.needed hp f file).1 km holds).1
    · simp [versionsOf, readKeyMeta, place, absent, object, readCurrentMeta, file]
  · intro some
    unfold versionsOf at some
    cases read : e.readKeyMeta s bucket key with
    | error err =>
      rw [read] at some
      exact absurd rfl some
    | ok km =>
      obtain ⟨hp, place, read⟩ := except_bind_ok read
      refine ⟨hp, place, ?_⟩
      split at read
      · rename_i doc found
        obtain ⟨f, file, -⟩ := readDoc_ok found
        exact .inl ⟨f, file⟩
      · rename_i absent
        obtain ⟨op, object, read⟩ := except_bind_ok read
        refine .inr ⟨absent, op, ?_⟩
        unfold readCurrentMeta at read
        cases file : s.file op with
        | none =>
          rw [file] at read
          cases read
        | some f => exact ⟨f, object, rfl⟩
      · cases read

/-- Something is left of the bucket, and no key of it can be read. -/
structure Residue (e : Env) (s : Disk) (bucket : String) : Prop where
  left : e.walkObjectTree s bucket ≠ [] ∨ dirEmpty s (e.historyDir bucket) = false
  unread : ∀ key ∈ e.versionKeys s bucket, ¬ Readable e s bucket key

/-- What can be read is there. -/
theorem readable_left (readable : Readable e s bucket key) :
    e.walkObjectTree s bucket ≠ [] ∨ dirEmpty s (e.historyDir bucket) = false := by
  obtain ⟨hp, place, ⟨f, file⟩ | ⟨-, op, f, object, file⟩⟩ := readable
  · refine .inr ?_
    obtain ⟨-, -, below⟩ := confine_ok place
    have there : (s.get hp).isSome := by simp [DirTree.file_eq_some.mp file]
    rw [dirEmpty, DirTree.isDir_iff.mpr (DirTree.get_ancestor there below.1 below.2.symm), Bool.not_true,
      Bool.false_or]
    refine Bool.eq_false_iff.mpr fun childless => ?_
    rw [DirTree.get_below_childless childless below.1 below.2.symm] at there
    cases there
  · refine .inl fun none => ?_
    obtain ⟨-, -, below⟩ := confine_ok object
    have mem : relKey (e.bucketDir bucket) op ∈ e.walkObjectTree s bucket :=
      mem_sorted.mpr (Finset.mem_image_of_mem _ (DirTree.mem_filesBelow.mpr ⟨below.1, f, file⟩))
    rw [none] at mem
    cases mem

/-- A bucket can be deleted exactly when its listing is empty, except for a residue. -/
theorem deletable_iff_unlisted (start : e.Starts s) (hand : ByHand s)
    (run : e.Along (fun _ i => i.Tidy) ins s) (plain : Plain c.bucket) (op : c.op = .deleteBucket)
    (present : (e.readBucketMeta (e.feed ins s) c.bucket).isOk = true) :
    ((outcome (e.applyDisk c) (e.feed ins s)).isOk = true ↔
        Unlisted e (e.feed ins s) c.bucket maxKeys) ↔
      ¬ Residue e (e.feed ins s) c.bucket := by
  have ground := start.ground.along run
  have neat : e.Neat (e.feed ins s) := (Neat.mk start.ground.tidy hand.needed).along run
  have unread : Unlisted e (e.feed ins s) c.bucket maxKeys ↔
      ∀ key ∈ e.versionKeys (e.feed ins s) c.bucket, ¬ Readable e (e.feed ins s) c.bucket key := by
    rw [unlisted_iff present]
    simp only [readable_iff neat (tame_of_plain plain), not_not]
  have ok : (outcome (e.applyDisk c) (e.feed ins s)).isOk = true ↔
      ¬ (e.walkObjectTree (e.feed ins s) c.bucket ≠ [] ∨
        dirEmpty (e.feed ins s) (e.historyDir c.bucket) = false) := by
    rw [applyDisk, op]
    simp only
    rw [deleteBucket_isOk ground plain]
    simp
  have residue : Residue e (e.feed ins s) c.bucket ↔
      (e.walkObjectTree (e.feed ins s) c.bucket ≠ [] ∨
        dirEmpty (e.feed ins s) (e.historyDir c.bucket) = false) ∧
      ∀ key ∈ e.versionKeys (e.feed ins s) c.bucket, ¬ Readable e (e.feed ins s) c.bucket key :=
    ⟨fun h => ⟨h.left, h.unread⟩, fun h => ⟨h.1, h.2⟩⟩
  rw [ok, unread, residue]
  constructor
  · rintro same ⟨left, none⟩
    exact same.mpr none left
  · intro whole
    refine ⟨fun empty key _ readable => empty (readable_left readable), fun none left => ?_⟩
    exact whole ⟨left, none⟩

/-- A key with two versions, each of them deleted again. -/
def putAndDelete (key : String) : List Input :=
  [.command Small.create, .command (Small.versioning "Enabled"), Small.payload 1,
    .command (Small.put key 1), Small.payload 2, .command (Small.put key 2),
    .command (Small.deleteVersion key (uuid 1)), .command (Small.deleteVersion key (uuid 2))]

theorem flat_key_bucket_deleted :
    let e := smallEnv false
    let s := e.feed (putAndDelete "k") (smallDisk false)
    Unlisted e s "b" 0 ∧
      (outcome (e.applyDisk { op := .deleteBucket, bucket := "b" }) s).isOk = true := by
  intro e s
  let c : Command := { op := .deleteBucket, bucket := "b" }
  have hand : ByHand (smallDisk false) := everywhere_of_dom (by decide +kernel)
  have tidy : e.Along (fun _ i => i.Tidy) (putAndDelete "k") (smallDisk false) := by decide +kernel
  have present : (e.readBucketMeta s "b").isOk = true := by decide +kernel
  have ok : (outcome (e.applyDisk c) s).isOk = true := by decide +kernel
  have empty : e.walkObjectTree s "b" = [] ∧ dirEmpty s (e.historyDir "b") = true := by
    decide +kernel
  have whole : ¬ Residue e s "b" := fun residue => by
    rcases residue.left with left | left
    · exact left empty.1
    · rw [empty.2] at left
      cases left
  have same : (outcome (e.applyDisk c) s).isOk = true ↔ Unlisted e s "b" 0 :=
    (deletable_iff_unlisted (c := c) starts_small hand tidy (by decide) rfl present).mpr whole
  exact ⟨same.mp ok, ok⟩

/-- The history of a nested key leaves its directory, and the empty bucket cannot be deleted. -/
theorem nested_key_bucket_stuck :
    let e := smallEnv false
    let s := e.feed (putAndDelete "d/k") (smallDisk false)
    (e.readBucketMeta s "b").isOk = true ∧
      (Paging.follow (e.listObjectVersions s) (nextVersions { bucket := "b" }) 1
        { bucket := "b" }).toOption.join.map
          (fun pages => pages.map fun page => (page.versions.length, page.deleteMarkers.length)) =
        some [(0, 0)] ∧
      outcome (e.applyDisk { op := .deleteBucket, bucket := "b" }) s =
        .error (.api errBucketNotEmpty) := by
  decide +kernel

end Env

end D9Store
