import D9Store.Keyspace.Run

/-!
Deletions of a named version.

The entry goes, and its bytes with it; when it was the object file the next version takes its
place. One case is wrong: when the entry was not the object file and leaves a single filed
version behind, the history file is dropped although that version is not at the key path.
-/

namespace D9Store

open Posix FilePath Versioned

variable {e : Env} {keys : List (Site e)} {s t : Disk} {c : Command} {β : Type} {vid : String}

/-! ### The abstract histories -/

/-- The deletion leaves one filed version, and forgets it. -/
def forgets {β : Type} (vid : String) (h : Versioned.History β) : Bool :=
  !(h.filter fun en => en.id == vid).any Entry.here &&
    match h.filter fun en => en.id != vid with
    | [en] => !en.marker && en.blob != ""
    | _ => false

theorem versions_marked (h : Versioned.History β) : h.marked.versions = h.versions := by
  cases h <;> rfl

theorem versions_promoted (h : Versioned.History β) : h.promoted.versions = h.versions := by
  cases h <;> rfl

theorem versions_settle {h : Versioned.History β}
    (kept : ∀ en, h = [en] → (!en.marker && en.blob != "") = false) :
    h.settle.versions = h.versions := by
  match h with
  | [] => rfl
  | [en] => simp [Versioned.History.settle, kept en rfl]
  | en :: en' :: rest => rfl

/-- A deletion that forgets nothing takes the named version away and no other. -/
theorem versions_remove {h : Versioned.History β} (kept : forgets vid h = false) :
    (h.remove vid).versions = h.versions.filter fun v => v.id != vid := by
  have filtered : Versioned.History.versions (h.filter fun en => en.id != vid) =
      h.versions.filter fun v => v.id != vid := by
    unfold Versioned.History.versions
    rw [List.filter_map]
    rfl
  rw [← filtered, Versioned.History.remove]
  unfold forgets at kept
  split
  · refine (versions_settle fun en eq => ?_).trans (versions_promoted _)
    cases rest : h.filter fun en => en.id != vid with
    | nil => simp [rest, Versioned.History.promoted] at eq
    | cons x tail =>
      simp only [rest, Versioned.History.promoted, List.cons.injEq] at eq
      simp [← eq.1]
  · rename_i away
    refine (versions_settle fun en eq => ?_).trans (versions_marked _)
    rw [Bool.eq_false_iff.mpr away, Bool.not_false, Bool.true_and] at kept
    cases rest : h.filter fun en => en.id != vid with
    | nil => simp [rest, Versioned.History.marked] at eq
    | cons x tail =>
      simp only [rest, Versioned.History.marked, List.cons.injEq] at eq
      rw [rest, eq.2] at kept
      rw [← eq.1]
      exact kept

/-! ### The deletion -/

/-- The version `vid` is gone and nothing else: the others are listed in their order and
served, and the newest of them is served without a version id. -/
structure RemovesOne (x : Site e) (vid : String) (s t : Disk) : Prop where
  listed : listed x t = (listed x s).filter fun v => v.1 != vid
  served : ∀ vid' bytes, vid' ≠ "" → vid' ≠ vid → got x s vid' = .ok bytes → got x t vid' = .ok bytes
  newest : got x t "" =
    match ((D9Store.listed x s).filter fun v => v.1 != vid).head? with
    | some (id, false) => got x s id
    | _ => .error (.api errNoSuchKey)

theorem pick_filter {vs : List (Version β)} {vid' : String} (named : vid' ≠ "") (other : vid' ≠ vid) :
    pick (vs.filter fun v => v.id != vid) vid' = pick vs vid' := by
  unfold pick
  rw [if_neg named, if_neg named, List.find?_filter]
  congr 1
  funext v
  by_cases eq : v.id = vid'
  · simp [eq, other]
  · simp [eq]

/-- What is served without a version id after the version `vid` went. -/
theorem lookup_newest {vs : List (Version Content)} (named : ∀ v ∈ vs, v.id ≠ "") :
    e.lookup (vs.filter fun v => v.id != vid) "" =
      match ((vs.map fun v => (v.id, v.marker)).filter fun v => v.1 != vid).head? with
      | some (id, false) => e.lookup vs id
      | _ => .error (.api errNoSuchKey) := by
  have pairs : (vs.map fun v => (v.id, v.marker)).filter (fun v => v.1 != vid) =
      (vs.filter fun v => v.id != vid).map fun v => (v.id, v.marker) := by
    rw [List.filter_map]
    rfl
  rw [pairs, List.head?_map]
  cases rest : vs.filter fun v => v.id != vid with
  | nil => rfl
  | cons v tail =>
    have mem : v ∈ vs.filter fun v => v.id != vid := by
      rw [rest]
      exact List.mem_cons_self
    obtain ⟨memv, other⟩ := List.mem_filter.mp mem
    have found : pick vs v.id = some v := by
      rw [← pick_filter (named v memv) (by simpa using other), rest, pick, if_neg (named v memv)]
      exact List.find?_cons_of_pos (by simp)
    have newest : pick (v :: tail) "" = some v := rfl
    cases marker : v.marker with
    | true => simp [Env.lookup, newest, marker]
    | false => simp [Env.lookup, newest, found, marker]

/-- In every state that a run of fair commands reaches, the deletion of a version removes that
version alone, as long as the id names one entry and no single filed version is left behind
without its history. -/
theorem explicit_delete_removes_one {ins : List Input} {x : Site e} (start : Fresh e s)
    (apart : Apart keys) (ok : e.Along (Orderly keys) ins s) (hx : x ∈ keys) (addr : x.Addresses c)
    (op : c.op = .deleteObject) (explicit : Env.explicitVersion c = true)
    (status : (e.bucketMetaForWrite (e.feed ins s) x.bucket).versioning = "Enabled")
    (present : ((D9Store.listed x (e.feed ins s)).countP fun v => v.1 == c.versionID) = 1)
    (clear : x.Deletable (e.feed ins s) c)
    (kept : forgets c.versionID (x.entries (e.feed ins s)) = false) :
    ∃ t, e.applyDisk c (e.feed ins s) = .ok () t ∧ RemovesOne x c.versionID (e.feed ins s) t ∧
      (D9Store.listed x t).length + 1 = (D9Store.listed x (e.feed ins s)).length := by
  obtain ⟨inv, -⟩ := (start.keyspace apart).run apart ok
  generalize e.feed ins s = u at *
  have standing := inv.standing x hx
  have status' : (e.bucketMetaForWrite u x.bucket).versioning ≠ "" := by simp [status]
  have bucket := Site.readBucketMeta_of_status status'
  have fair : x.Fair u c := by
    simp only [Site.Fair, op]
    exact clear
  obtain ⟨t, run⟩ : ∃ t, e.applyDisk c u = .ok () t := by
    have spec := Site.applyDeleteObject_acts standing addr clear
    cases run : e.applyDeleteObject c u with
    | ok a t => exact ⟨t, by rw [Env.applyDisk, op]; exact run⟩
    | error err t => exact (wp_error spec run).elim
  obtain ⟨inv', own, -, acts⟩ := inv.applied apart hx addr (by rw [op]; rfl) fair run
  have standing' := inv'.standing x hx
  have bucket' := acts.readBucketMeta x.tame.1 addr fair bucket status'
  have known : x.versions u ≠ [] := fun empty => by
    rw [listed_eq standing, List.isEmpty_iff.mp (Site.isEmpty_versions.mpr empty)] at present
    cases present
  have act : Site.actOf e u c = .remove c.versionID := by
    have ahead := (Site.goesAhead_iff standing addr).mpr fun h => known h.1
    simp [Site.actOf, op, ahead, explicit]
  have versions : (x.entries t).versions =
      (x.entries u).versions.filter fun v => v.id != c.versionID := by
    rw [own, act]
    exact versions_remove kept
  have pairs : D9Store.listed x t = (D9Store.listed x u).filter fun v => v.1 != c.versionID := by
    rw [listed_eq standing, listed_eq standing', versions, List.filter_map]
    rfl
  refine ⟨t, run, ⟨pairs, fun vid' bytes named other h => ?_, ?_⟩, ?_⟩
  · rw [got, Site.getObject_lookup standing bucket] at h
    rw [got, Site.getObject_lookup standing' bucket', versions]
    exact lookup_congr (pick_filter named other) h
  · simp only [got, Site.getObject_lookup standing bucket, Site.getObject_lookup standing' bucket',
      versions, listed_eq standing]
    refine lookup_newest fun v mem => ?_
    obtain ⟨en, memEn, rfl⟩ := List.mem_map.mp mem
    obtain ⟨w, memw, rfl⟩ := List.mem_map.mp memEn
    exact standing.sound.shape.named w memw
  · have split := List.length_eq_countP_add_countP (fun v : String × Bool => v.1 == c.versionID)
      (l := D9Store.listed x u)
    rw [present] at split
    rw [pairs, ← List.countP_eq_length_filter, split, Nat.add_comm]
    congr 2
    funext v
    by_cases eq : v.1 = c.versionID <;> simp [eq]

/-- A key with two versions. -/
def versionPair : List Input :=
  [.command Small.create, .command (Small.versioning "Enabled"), Small.payload 1,
   .command (Small.put "k" 1), Small.payload 2, .command (Small.put "k" 2)]

theorem delete_of_current_restores_previous :
    ∃ t, (smallEnv false).applyDisk (Small.deleteVersion "k" (uuid 2))
        ((smallEnv false).feed versionPair (smallDisk false)) = .ok () t ∧
      RemovesOne Small.k (uuid 2) ((smallEnv false).feed versionPair (smallDisk false)) t ∧
      (D9Store.listed Small.k t).length + 1 =
        (D9Store.listed Small.k ((smallEnv false).feed versionPair (smallDisk false))).length :=
  explicit_delete_removes_one (by decide +kernel) (show Apart [Small.k] by decide +kernel)
    (by decide +kernel) (by decide) (by decide) rfl (by decide) (by decide +kernel) (by decide +kernel)
    (by decide +kernel) (by decide +kernel)

/-- A key with one version, deleted under versioning. -/
def deletedKey : List Input :=
  [.command Small.create, .command (Small.versioning "Enabled"), Small.payload 1,
   .command (Small.put "k" 1), .command (Small.delete "k" (uuid 2))]

/-- The deletion of the marker loses the version instead of making it current again. -/
theorem delete_of_marker_loses_version :
    D9Store.listed Small.k ((smallEnv false).feed deletedKey (smallDisk false)) =
        [(uuid 2, true), (uuid 1, false)] ∧
      (got Small.k ((smallEnv false).feed deletedKey (smallDisk false)) (uuid 1)).toOption = some [1] ∧
      (outcome ((smallEnv false).applyDisk (Small.deleteVersion "k" (uuid 2)))
        ((smallEnv false).feed deletedKey (smallDisk false))).isOk = true ∧
      D9Store.listed Small.k (final ((smallEnv false).applyDisk (Small.deleteVersion "k" (uuid 2)))
        ((smallEnv false).feed deletedKey (smallDisk false))) = [] := by
  decide +kernel

end D9Store
