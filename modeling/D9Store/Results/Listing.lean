import D9Store.Backend.Listing
import D9Store.Keyspace.Run

/-!
Listings and reads.

`ListObjectsV2` goes by the object files and reads by the history, so the two agree as long as
the latest version, when it is an object, lies at the key path. Deletions that take an entry in
front of a filed version and do not bring that version back leave a key that can be read and
is not listed.
-/

namespace Versioned

variable {β : Type}

namespace History

/-- The latest version is an object that is filed away. -/
def covered : History β → Bool
  | [] => false
  | en :: _ => !en.marker && en.blob != ""

theorem covered_settle (h : History β) : h.settle.covered = (h.covered && decide (1 < h.length)) := by
  match h with
  | [] => rfl
  | [en] =>
    cases filed : (!en.marker && en.blob != "") with
    | true => simp [settle, filed, covered]
    | false => simp [settle, filed, covered]
  | en :: en' :: rest => simp [settle, covered]

theorem covered_marked (h : History β) : h.marked.covered = h.covered := by
  cases h <;> rfl

theorem length_marked (h : History β) : h.marked.length = h.length := by
  cases h <;> rfl

theorem covered_promoted (h : History β) : h.promoted.covered = false := by
  cases h <;> simp [promoted, covered]

end History

/-- The act leaves a filed version as the latest one. -/
def Act.buries : Act β → History β → Bool
  | .remove id, h =>
    !(h.filter fun en => en.id == id).any Entry.here &&
      ((History.covered (h.filter fun en => en.id != id)) &&
        decide (1 < (h.filter fun en => en.id != id).length))
  | .deleteNull false, h => h.dropLatest.covered && decide (1 < h.dropLatest.length)
  | _, _ => false

theorem History.covered_run {act : Act β} {h : History β} (bare : h.covered = false)
    (ok : act.buries h = false) : (act.run h).covered = false := by
  cases act with
  | put enabled id body => simp [Act.run, History.put, History.push, covered]
  | mark id => simp [Act.run, History.mark, History.push, covered]
  | remove id =>
    rw [Act.run, History.remove, covered_settle]
    split
    · rw [covered_promoted, Bool.false_and]
    · rename_i away
      rw [covered_marked, length_marked]
      simpa only [Act.buries, Bool.eq_false_iff.mpr away, Bool.not_false, Bool.true_and] using ok
  | deleteNull suspended =>
    cases suspended with
    | true => simp [Act.run, History.deleteNull, History.push, covered]
    | false =>
      rw [Act.run, History.deleteNull, if_neg Bool.false_ne_true, covered_settle, covered_marked,
        length_marked]
      exact ok
  | keep => exact bare

end Versioned

namespace D9Store

open Posix FilePath Versioned

variable {e : Env} {keys : List (Site e)} {s t : Disk} {c : Command} {q : FilePath} {x : Site e}
    {i : Input} {bucket : String}

/-! ### No other object files -/

/-- Apart from the bucket `mpstaging`, the files of the data root are those of the keys. -/
def Only (keys : List (Site e)) (s : Disk) : Prop :=
  ∀ q, e.root <:+ q → ¬ e.root.join "mpstaging" <:+ q → (s.file q).isSome = true →
    ∃ x ∈ keys, q = x.op

theorem Only.fewer (only : Only keys s)
    (fewer : ∀ q, e.root <:+ q → ¬ e.root.join "mpstaging" <:+ q → (∀ x ∈ keys, q ≠ x.op) →
      t.file q = s.file q ∨ t.file q = none) : Only keys t := by
  intro q data outside file
  by_contra other
  have other : ∀ x ∈ keys, q ≠ x.op := fun x hx eq => other ⟨x, hx, eq⟩
  rcases fewer q data outside other with same | gone
  · obtain ⟨x, hx, eq⟩ := only q data outside (same ▸ file)
    exact other x hx eq
  · rw [gone] at file
    cases file

theorem not_aside (data : e.root <:+ q) (outside : ¬ e.root.join "mpstaging" <:+ q) :
    q ∉ e.asideFiles := by
  rintro (⟨kind, -, area⟩ | glob)
  · exact Env.data_not_area data area rfl
  · exact outside glob

/-- A command on a key makes no data file but that of the key. -/
theorem Site.Acts.fewer {act : Act Content} {O : Set FilePath} (h : x.Acts act O s t)
    (out : O ⊆ e.asideFiles) (data : e.root <:+ q) (outside : ¬ e.root.join "mpstaging" <:+ q)
    (other : q ≠ x.op) : t.file q = s.file q ∨ t.file q = none := by
  by_cases tmp : q = Env.tmpOf x.op
  · rw [tmp]
    exact h.tmp
  refine .inl (h.frame.file _ ?_)
  rintro (mem | aside)
  · rcases mem with eq | eq | eq | eq | ⟨id, -, plain, eq⟩ | ⟨-, area⟩
    · exact other eq
    · exact tmp eq
    · exact Env.data_not_area data x.area_hp eq
    · exact Env.data_not_area data x.area_hpTmp eq
    · exact Env.data_not_area data (Site.area_of_blob plain eq) rfl
    · exact Env.data_not_area data area rfl
  · exact not_aside data outside (out aside)

/-- The command goes through. -/
def Succeeds (e : Env) (s : Disk) : Input → Prop
  | .command c => (outcome (e.applyDisk c) s).isOk = true
  | _ => True

instance (i : Input) : Decidable (Succeeds e s i) :=
  match i with
  | .command _ => by unfold Succeeds; infer_instance
  | .blob .. | .part .. => inferInstanceAs (Decidable True)

theorem Only.step (only : Only keys s) (h : Step keys s t i) (ok : Succeeds e s i) :
    Only keys t := by
  cases h with
  | acts hx addr object fair run h =>
    exact only.fewer fun q data outside other =>
      h.fewer (besides_aside addr fair) data outside (other _ hx)
  | failed hx addr no h =>
    rw [Succeeds, no] at ok
    cases ok
  | @emptied c op plain last =>
    rcases Env.applyDeleteBucket_final (e := e) s c with eq | ⟨-, -, -, shrinks⟩
    · rwa [last, eq]
    · refine only.fewer fun q _ _ _ => ?_
      rw [last]
      exact (shrinks q).imp DirTree.file_of_get_eq fun gone => by rw [DirTree.file, gone]
  | aside plain other frame =>
    exact only.fewer fun q data outside _ => .inl (frame.file _ (not_aside data outside))

/-! ### The walk -/

theorem op_join (x : Site e) : x.op = (e.bucketDir x.bucket).join x.key :=
  (Env.confine_ok x.op_eq).1

/-- The walk finds the keys whose object file is there. -/
theorem mem_walkObjectTree (only : Only keys s) (apart : Apart keys)
    (clean : ∀ x ∈ keys, Clean x.key) {key : String} (plain : Plain bucket)
    (other : bucket ≠ "mpstaging") :
    key ∈ e.walkObjectTree s bucket ↔
      ∃ x ∈ keys, x.bucket = bucket ∧ x.key = key ∧ (s.file x.op).isSome = true := by
  simp only [Env.walkObjectTree, mem_sorted, Finset.mem_image, DirTree.mem_filesBelow]
  have dir : e.bucketDir bucket = bucket :: e.root := join_plain plain _
  constructor
  · rintro ⟨q, ⟨below, f, file⟩, rfl⟩
    rw [dir] at below
    have outside : ¬ e.root.join "mpstaging" <:+ q := fun glob => by
      rw [join_plain (show Plain "mpstaging" by decide)] at glob
      have eq := (List.suffix_of_suffix_length_le below glob (by simp)).eq_of_length (by simp)
      exact other (List.cons.inj eq).1
    obtain ⟨x, hx, rfl⟩ := only q ((List.suffix_cons _ _).trans below) outside (by rw [file]; rfl)
    have same : x.bucket = bucket := by
      have above := (Site.bucketDir_above (apart.proper x hx)).trans (List.tail_suffix _)
      have eq := (List.suffix_of_suffix_length_le above below (by simp)).eq_of_length (by simp)
      exact (List.cons.inj eq).1
    refine ⟨x, hx, same, ?_, by rw [file]; rfl⟩
    rw [← same, op_join x, Env.relKey_join (clean x hx)]
  · rintro ⟨x, hx, rfl, rfl, file⟩
    obtain ⟨f, file⟩ := Option.isSome_iff_exists.mp file
    refine ⟨x.op, ⟨?_, f, file⟩, ?_⟩
    · rw [op_join x]
      exact (below_join_clean (clean x hx) _).1
    · rw [op_join x, Env.relKey_join (clean x hx)]

theorem not_mem_walkObjectTree (only : Only keys s) (apart : Apart keys)
    (clean : ∀ x ∈ keys, Clean x.key) (plain : Plain bucket) (other : bucket ≠ "mpstaging") :
    "" ∉ e.walkObjectTree s bucket := by
  intro mem
  obtain ⟨x, hx, -, empty, -⟩ := (mem_walkObjectTree only apart clean plain other).mp mem
  have named := clean x hx
  rw [empty] at named
  exact absurd named (by decide)

/-! ### Agreement -/

namespace Site

variable {x : Site e} {v : ObjectMeta}

/-- The latest version, when it is an object. -/
theorem shown_eq (standing : x.Standing s) :
    e.shown s x.bucket x.key = (x.versions s).head?.filter fun v => !v.deleteMarker := by
  unfold Env.shown
  by_cases empty : x.versions s = []
  · rw [readKeyMeta_nil standing.ready standing.sound empty, empty]
    rfl
  · obtain ⟨flag, read⟩ := readKeyMeta_some standing.ready standing.sound empty
    rw [read]
    rfl

theorem shown_blob (standing : x.Standing s) (bare : (x.entries s).covered = false)
    (shown : e.shown s x.bucket x.key = some v) : v.blobID = "" := by
  rw [shown_eq standing, Option.filter_eq_some_iff] at shown
  obtain ⟨head, live⟩ := shown
  obtain ⟨rest, list⟩ := List.head?_eq_some_iff.mp head
  rw [entries, list, List.map_cons, History.covered] at bare
  simpa [entry, live] using bare

theorem file_iff_shown (standing : x.Standing s) (bare : (x.entries s).covered = false) :
    (s.file x.op).isSome = true ↔ ∃ v, e.shown s x.bucket x.key = some v := by
  rw [standing.sound.head, Option.any_eq_true]
  constructor
  · rintro ⟨v, head, here⟩
    refine ⟨v, ?_⟩
    rw [shown_eq standing, head]
    simp [(D9Store.History.atKeyPath_iff.mp here).2]
  · rintro ⟨v, shown⟩
    have blob := shown_blob standing bare shown
    rw [shown_eq standing, Option.filter_eq_some_iff] at shown
    exact ⟨v, shown.1, D9Store.History.atKeyPath_iff.mpr ⟨blob, by simpa using shown.2⟩⟩

theorem shown_key (standing : x.Standing s) (shown : e.shown s x.bucket x.key = some v) :
    v.key = x.key := by
  rw [shown_eq standing, Option.filter_eq_some_iff] at shown
  exact standing.sound.shape.own v (List.mem_of_mem_head? shown.1)

theorem headObject_shown (standing : x.Standing s) :
    (e.headObject s x.bucket x.key "").isOk = true ↔
      (e.readBucketMeta s x.bucket).isOk = true ∧ ∃ v, e.shown s x.bucket x.key = some v := by
  unfold Env.headObject Env.liveVersion
  cases bucket : e.readBucketMeta s x.bucket with
  | error err => simp [Env.resolveVersion, bucket, Except.isOk, Except.toBool]
  | ok bm =>
    have resolved := resolveVersion_latest standing.ready standing.sound bucket
    rw [shown_eq standing]
    cases run : e.resolveVersion s x.bucket x.key "" with
    | error err =>
      rw [run] at resolved
      cases head : (x.versions s).head? with
      | none => simp [Except.isOk, Except.toBool]
      | some v => simp [head, Except.map] at resolved
    | ok r =>
      rw [run] at resolved
      cases head : (x.versions s).head? with
      | none => simp [head, Except.map] at resolved
      | some v =>
        obtain rfl : r.1 = v := by simpa [head, Except.map] using resolved
        cases marker : r.1.deleteMarker <;>
          simp [marker, Except.isOk, Except.toBool]

end Site

/-! ### Runs -/

/-- The keys are in order, their object files are the only ones, and no latest version is an
object filed away. -/
structure Listable (keys : List (Site e)) (s : Disk) : Prop where
  space : Keyspace keys s
  only : Only keys s
  bare : ∀ x ∈ keys, (x.entries s).covered = false

/-- No deletion leaves a filed version as the latest one of its key. -/
def Unburied (keys : List (Site e)) (s : Disk) : Input → Prop
  | .command c =>
    Site.onKey c.op = true → ∀ x ∈ keys, x.Addresses c →
      (Site.actOf e s c).buries (x.entries s) = false
  | _ => True

instance (i : Input) : Decidable (Unburied keys s i) :=
  match i with
  | .command _ => by unfold Unburied; infer_instance
  | .blob .. | .part .. => inferInstanceAs (Decidable True)

/-- A successful step of a run after which listings can be trusted. -/
def Listed (keys : List (Site e)) (s : Disk) (i : Input) : Prop :=
  Orderly keys s i ∧ Succeeds e s i ∧ Unburied keys s i

instance (i : Input) : Decidable (Listed keys s i) := by
  unfold Listed; infer_instance

theorem buries_advance (ok : Unburied keys s i) (hx : x ∈ keys) :
    (x.advance s i).buries (x.entries s) = false := by
  cases i with
  | blob token payload => rfl
  | part uploadID number payload => rfl
  | command c =>
    rw [Site.advance]
    split
    · rename_i h
      exact ok h.1 x hx h.2.1
    · rfl

theorem Listable.step (apart : Apart keys) (inv : Listable keys s) (ok : Listed keys s i) :
    Listable keys (final (e.take i) s) := by
  have step := inv.space.stepped apart ok.1
  obtain ⟨space, moved⟩ := inv.space.step apart step
  refine ⟨space, inv.only.step step ok.2.1, fun x hx => ?_⟩
  rw [moved x hx]
  exact History.covered_run (inv.bare x hx) (buries_advance ok.2.2 hx)

theorem Listable.run (apart : Apart keys) {ins : List Input} (inv : Listable keys s)
    (ok : e.Along (Listed keys) ins s) : Listable keys (e.feed ins s) := by
  induction ins generalizing s with
  | nil => exact inv
  | cons i rest ih => exact ih (inv.step apart ok.1) ok.2

theorem Fresh.listable (fresh : Fresh e s) (apart : Apart keys) : Listable keys s where
  space := fresh.keyspace apart
  only q _ _ file := by
    rw [fresh.file q] at file
    cases file
  bare x _ := by
    rw [Site.entries_nil (fresh.file _) (fresh.file _)]
    rfl

/-- The pages show the latest versions of the keys of the bucket. -/
theorem Listable.mem_allPages (inv : Listable keys s) (apart : Apart keys)
    (clean : ∀ x ∈ keys, Clean x.key) (hx : x ∈ keys) {bm : BucketMeta}
    (found : e.readBucketMeta s x.bucket = .ok bm) {maxKeys : Int} {n : Nat}
    (fuel : (e.walkObjectTree s x.bucket).length < n) :
    (∃ v ∈ e.allPages s x.bucket maxKeys n "", v.key = x.key) ↔
      ∃ v, e.shown s x.bucket x.key = some v := by
  obtain ⟨plain, other⟩ := apart.proper x hx
  have walk : ∀ key, key ∈ e.walkObjectTree s x.bucket ↔ _ := fun key =>
    mem_walkObjectTree inv.only apart clean plain other
  have short : (e.pending s x.bucket "" (e.walkObjectTree s x.bucket)).length < n :=
    lt_of_le_of_lt Env.length_pending fuel
  have pages : e.allPages s x.bucket maxKeys n "" = _ :=
    Env.allPages_eq found (not_mem_walkObjectTree inv.only apart clean plain other) (sorted_lt _)
      short
  simp only [pages, List.mem_map, Env.mem_pending_all]
  constructor
  · rintro ⟨v, ⟨⟨key, w⟩, ⟨mem, shown⟩, rfl⟩, own⟩
    obtain ⟨y, hy, bucket, rfl, -⟩ := (walk key).mp mem
    rw [← bucket] at shown
    have key := Site.shown_key (inv.space.standing y hy) shown
    exact ⟨w, by rw [← own, ← bucket, key]; exact shown⟩
  · rintro ⟨v, shown⟩
    have standing := inv.space.standing x hx
    have file := (Site.file_iff_shown standing (inv.bare x hx)).mpr ⟨v, shown⟩
    exact ⟨v, ⟨(x.key, v), ⟨(walk x.key).mpr ⟨x, hx, rfl, rfl, file⟩, shown⟩, rfl⟩,
      Site.shown_key standing shown⟩

/-- The object file is there exactly when the latest version is an object, which then is not
filed, and the pages of a listing contain the key exactly when `HeadObject` succeeds. -/
structure ListsWhatItReads (x : Site e) (s : Disk) : Prop where
  file : (s.file x.op).isSome = true ↔ ∃ v, e.shown s x.bucket x.key = some v
  blob : ∀ v, e.shown s x.bucket x.key = some v → v.blobID = ""
  listed : ∀ maxKeys n, (e.walkObjectTree s x.bucket).length < n →
    ((∃ v ∈ e.allPages s x.bucket maxKeys n "", v.key = x.key) ↔
      (e.headObject s x.bucket x.key "").isOk = true)

/-- In every state that a run of fair and successful commands reaches, listings agree with reads,
as long as no deletion leaves a filed version as the latest one of its key. -/
theorem listing_agrees_with_reading {ins : List Input} {x : Site e} (start : Fresh e s)
    (apart : Apart keys) (clean : ∀ x ∈ keys, Clean x.key) (ok : e.Along (Listed keys) ins s)
    (hx : x ∈ keys) : ListsWhatItReads x (e.feed ins s) := by
  have inv := (start.listable apart).run apart ok
  generalize e.feed ins s = u at *
  have standing := inv.space.standing x hx
  have bare := inv.bare x hx
  refine ⟨Site.file_iff_shown standing bare, fun v => Site.shown_blob standing bare, ?_⟩
  intro maxKeys n fuel
  rw [Site.headObject_shown standing]
  cases found : e.readBucketMeta u x.bucket with
  | ok bm => simpa [Except.isOk, Except.toBool] using inv.mem_allPages apart clean hx found fuel
  | error err => simp [Env.allPages_missing found, Except.isOk, Except.toBool]

/-- A key with a version, a marker and a newer version. -/
def listedRewrite : List Input :=
  [.command Small.create, .command (Small.versioning "Enabled"), Small.payload 1,
   .command (Small.put "k" 1), .command (Small.delete "k" (uuid 2)), Small.payload 3,
   .command (Small.put "k" 3), .command (Small.deleteVersion "k" (uuid 3))]

theorem rewritten_key_lists_what_it_reads :
    ListsWhatItReads Small.k ((smallEnv false).feed listedRewrite (smallDisk false)) :=
  listing_agrees_with_reading (by decide +kernel) (show Apart [Small.k] by decide +kernel)
    (by decide +kernel) (by decide +kernel) (by decide)

/-- A key with two versions below a marker, and the marker deleted. -/
def uncoveredKey : List Input :=
  [.command Small.create, .command (Small.versioning "Enabled"), Small.payload 1,
   .command (Small.put "k" 1), Small.payload 2, .command (Small.put "k" 2),
   .command (Small.delete "k" (uuid 3)), .command (Small.deleteVersion "k" (uuid 3))]

/-- All commands succeed, the key is served again and no page of a listing has it. -/
theorem uncovered_key_not_listed :
    (smallEnv false).Along (Succeeds (smallEnv false)) uncoveredKey (smallDisk false) ∧
      ((smallEnv false).headObject ((smallEnv false).feed uncoveredKey (smallDisk false)) "b" "k"
        "").isOk = true ∧
      (((smallEnv false).feed uncoveredKey (smallDisk false)).file Small.k.op).isNone = true ∧
      ((smallEnv false).allPages ((smallEnv false).feed uncoveredKey (smallDisk false)) "b" 1000 9
        "").isEmpty = true := by
  decide +kernel

end D9Store
