import D9Store.Keyspace.Run

/-!
Deletions without a version in versioned buckets.

While versioning is on such a deletion files the latest version away and puts a marker in
front. When versioning is suspended it removes the bytes of the latest version whatever its
id is: they are spared only when that version is a marker or the unversioned one.
-/

namespace D9Store

open Posix FilePath Versioned

variable {e : Env} {keys : List (Site e)} {s t : Disk} {c : Command} {β : Type} {vid : String}

/-! ### The abstract histories -/

/-- The versions with an id of their own. -/
def owned {β : Type} (vs : List (Version β)) : List (Version β) := vs.filter fun v => v.id != "null"

theorem owned_dropLatest {h : Versioned.History β}
    (head : ∀ cur ∈ h.head?, cur.marker = false → cur.id = "null") :
    owned h.dropLatest.versions = owned h.versions := by
  cases h with
  | nil => rfl
  | cons cur rest =>
    rw [Versioned.History.dropLatest]
    split
    · rfl
    · rename_i live
      have null := head cur rfl (by simpa using live)
      rw [if_pos (.inl null)]
      simp [owned, Versioned.History.versions, Entry.version, null]

/-- A named version is found among those with an id of their own. -/
theorem pick_owned (vs : List (Version β)) (named : vid ≠ "") (own : vid ≠ "null") :
    pick vs vid = pick (owned vs) vid := by
  unfold pick owned
  rw [if_neg named, if_neg named, List.find?_filter]
  congr 1
  funext v
  by_cases eq : v.id = vid
  · simp [eq, own]
  · simp [eq]

/-- A marker in front hides no version of another name. -/
theorem pick_behind {vs ws : List (Version β)} {m : Version β} (named : vid ≠ "")
    (own : vid ≠ "null") (other : m.id ≠ vid) (same : owned ws = owned vs) :
    pick (m :: ws) vid = pick vs vid := by
  rw [pick_owned vs named own, ← same, ← pick_owned ws named own]
  unfold pick
  rw [if_neg named, if_neg named, List.find?_cons_of_neg (by simpa using other)]

/-! ### The deletion -/

namespace Site

variable {x : Site e}

/-- A deletion without a version finds what it needs: under versioning a new name, and a fresh
place for the latest version; otherwise a latest version that may go. -/
def Gentle (x : Site e) (s : Disk) (c : Command) : Prop :=
  if (e.bucketMetaForWrite s x.bucket).versioningEnabled = true then
    Nameable c.versionID ∧ x.Displaceable true s ∧ ∀ v ∈ x.versions s, v.versionID ≠ c.versionID
  else (x.versions s).isEmpty = false ∧
    ∀ v ∈ (x.versions s).head?, v.deleteMarker = false → v.versionID = "null"

instance : Decidable (x.Gentle s c) := by
  unfold Gentle; infer_instance

theorem Gentle.deletable (gentle : x.Gentle s c) (unqualified : Env.explicitVersion c = false) :
    x.Deletable s c := by
  intro _
  rw [if_neg (by simp [unqualified])]
  unfold Gentle at gentle
  split at gentle
  · rename_i enabled
    rw [if_pos enabled]
    exact ⟨gentle.1, gentle.2.1⟩
  · rename_i disabled
    rw [if_neg disabled]
    obtain ⟨-, head⟩ := gentle
    unfold entries
    cases eq : x.versions s with
    | nil => rfl
    | cons cur rest =>
      rw [eq] at head
      cases marker : cur.deleteMarker with
      | true => simp [Act.spoils, entry, marker]
      | false => simp [Act.spoils, entry, head cur rfl marker]

theorem Gentle.goesAhead (gentle : x.Gentle s c) (standing : x.Standing s) (addr : x.Addresses c) :
    goesAhead e s c = true := by
  rw [goesAhead_iff standing addr]
  rintro ⟨empty, off⟩
  unfold Gentle at gentle
  split at gentle
  · rename_i enabled
    exact off ⟨enabled, gentle.1.1⟩
  · rw [empty] at gentle
    cases gentle.1

/-- The versions after the deletion: a marker in front of those that had an id of their own. -/
theorem Gentle.versions (gentle : x.Gentle s c) (standing : x.Standing s) (addr : x.Addresses c)
    (op : c.op = .deleteObject) (unqualified : Env.explicitVersion c = false)
    (status : (e.bucketMetaForWrite s x.bucket).versioning = "Enabled" ∨
      (e.bucketMetaForWrite s x.bucket).versioning = "Suspended") :
    ∃ id ws, ((actOf e s c).run (x.entries s)).versions = ⟨id, true, none⟩ :: ws ∧
      owned ws = owned (x.entries s).versions ∧
      ∀ v ∈ (x.entries s).versions, v.id ≠ "null" → v.id ≠ id := by
  have ahead := gentle.goesAhead standing addr
  unfold Gentle at gentle
  simp only [actOf, op, ahead, unqualified, addr.1, Bool.not_true, Bool.false_eq_true, if_false]
  split at gentle
  · rename_i enabled
    rw [if_pos enabled]
    refine ⟨c.versionID, (x.entries s).versions, Versioned.History.versions_mark, rfl, ?_⟩
    intro v mem _
    obtain ⟨en, memEn, rfl⟩ := List.mem_map.mp mem
    obtain ⟨w, memw, rfl⟩ := List.mem_map.mp memEn
    exact gentle.2.2 w memw
  · rename_i disabled
    rw [if_neg disabled]
    have suspended : (e.bucketMetaForWrite s x.bucket).versioning = "Suspended" := by
      refine status.resolve_left fun enabled => disabled ?_
      simp [BucketMeta.versioningEnabled, enabled]
    rw [suspended]
    refine ⟨"null", (x.entries s).dropLatest.versions, ?_, owned_dropLatest fun cur mem live => ?_,
      fun v _ own => own⟩
    · simp only [decide_true, Act.run, Versioned.History.deleteNull, if_true]
      rw [Versioned.History.versions_push]
      rfl
    · rw [entries, List.head?_map] at mem
      obtain ⟨v, memv, rfl⟩ := Option.map_eq_some_iff.mp mem
      exact gentle.2 v memv live

end Site

/-- After the deletion the history starts with a marker, has every entry with an id of its own
still, and serves their bytes. -/
structure KeepsVersions (x : Site e) (s t : Disk) : Prop where
  marker : ∃ km, e.readKeyMeta t x.bucket x.key = .ok km ∧
    (km.versions.head?.any ObjectMeta.deleteMarker) = true
  present : ∀ km km', e.readKeyMeta s x.bucket x.key = .ok km →
    e.readKeyMeta t x.bucket x.key = .ok km' → ∀ v ∈ km.versions, v.versionID ≠ "null" →
    ∃ w ∈ km'.versions, w.versionID = v.versionID ∧ w.deleteMarker = v.deleteMarker
  served : ∀ vid bytes, vid ≠ "" → vid ≠ "null" →
    (e.getObject s x.bucket x.key { versionID := vid }).map GetResult.body = .ok bytes →
    (e.getObject t x.bucket x.key { versionID := vid }).map GetResult.body = .ok bytes

theorem mem_owned_entries {x : Site e} {v : ObjectMeta} (mem : v ∈ x.versions s)
    (own : v.versionID ≠ "null") : (x.entry s v).version ∈ owned (x.entries s).versions := by
  refine List.mem_filter.mpr ⟨?_, by simpa [Entry.version, Site.entry] using own⟩
  exact List.mem_map_of_mem (List.mem_map_of_mem mem)

/-- In every state that a run of fair commands reaches, a deletion without a version spares the
versions with an id of their own when it finds what it needs. -/
theorem unqualified_delete_spares_versions {ins : List Input} {x : Site e}
    (start : Fresh e s) (apart : Apart keys) (ok : e.Along (Orderly keys) ins s) (hx : x ∈ keys)
    (addr : x.Addresses c) (op : c.op = .deleteObject)
    (unqualified : Env.explicitVersion c = false)
    (status : (e.bucketMetaForWrite (e.feed ins s) x.bucket).versioning = "Enabled" ∨
      (e.bucketMetaForWrite (e.feed ins s) x.bucket).versioning = "Suspended")
    (gentle : x.Gentle (e.feed ins s) c) :
    ∃ t, e.applyDisk c (e.feed ins s) = .ok () t ∧ KeepsVersions x (e.feed ins s) t := by
  obtain ⟨inv, -⟩ := (start.keyspace apart).run apart ok
  generalize e.feed ins s = u at *
  have standing := inv.standing x hx
  have status' : (e.bucketMetaForWrite u x.bucket).versioning ≠ "" := by
    rcases status with h | h <;> simp [h]
  have bucket := Site.readBucketMeta_of_status status'
  have fair : x.Fair u c := by
    simp only [Site.Fair, op]
    exact gentle.deletable unqualified
  obtain ⟨t, run⟩ : ∃ t, e.applyDisk c u = .ok () t := by
    have spec := Site.applyDeleteObject_acts standing addr (gentle.deletable unqualified)
    cases run : e.applyDeleteObject c u with
    | ok a t => exact ⟨t, by rw [Env.applyDisk, op]; exact run⟩
    | error err t => exact (wp_error spec run).elim
  obtain ⟨inv', own, -, acts⟩ := inv.applied apart hx addr (by rw [op]; rfl) fair run
  have standing' := inv'.standing x hx
  obtain ⟨id, ws, versions, kept, apartID⟩ := gentle.versions standing addr op unqualified
    status
  rw [← own] at versions
  have full : x.versions t ≠ [] := fun empty => by
    rw [Site.isEmpty_versions.mpr empty |> List.isEmpty_iff.mp] at versions
    cases versions
  obtain ⟨flag, read⟩ := Site.readKeyMeta_some standing'.ready standing'.sound full
  refine ⟨t, run, ⟨_, read, ?_⟩, fun km km' old new v mem own' => ?_, fun vid bytes named own' h => ?_⟩
  · cases eq : x.versions t with
    | nil => exact absurd eq full
    | cons w rest =>
      rw [Site.entries, eq] at versions
      exact congrArg Version.marker (List.cons.inj versions).1
  · rw [standing.versions_read old] at mem
    rw [standing'.versions_read new]
    have found := mem_owned_entries mem own'
    rw [← kept] at found
    have found : (x.entry u v).version ∈ (x.entries t).versions := by
      rw [versions]
      exact List.mem_cons_of_mem _ (List.mem_of_mem_filter found)
    obtain ⟨en, memEn, eq⟩ := List.mem_map.mp found
    obtain ⟨w, memw, rfl⟩ := List.mem_map.mp memEn
    exact ⟨w, memw, congrArg Version.id eq, congrArg Version.marker eq⟩
  · have bucket' := acts.readBucketMeta x.tame.1 addr fair bucket status'
    rw [Site.getObject_lookup standing bucket] at h
    rw [Site.getObject_lookup standing' bucket', versions]
    refine lookup_congr (pick_behind named own' (fun eq => ?_) kept) h
    obtain ⟨v, -, found, -⟩ := lookup_ok h
    unfold pick at found
    rw [if_neg named] at found
    have name : v.id = vid := by simpa using List.find?_some found
    exact apartID v (List.mem_of_find?_eq_some found) (name ▸ own') (name.trans eq.symm)

/-- A key with two versions. -/
def twoVersions : List Input :=
  [.command Small.create, .command (Small.versioning "Enabled"), Small.payload 1,
   .command (Small.put "k" 1), Small.payload 2, .command (Small.put "k" 2)]

theorem delete_spares_two_versions :
    ∃ t, (smallEnv false).applyDisk (Small.delete "k" (uuid 3))
        ((smallEnv false).feed twoVersions (smallDisk false)) = .ok () t ∧
      KeepsVersions Small.k ((smallEnv false).feed twoVersions (smallDisk false)) t :=
  unqualified_delete_spares_versions (by decide +kernel) (show Apart [Small.k] by decide +kernel)
    (by decide +kernel) (by decide) (by decide) rfl (by decide) (by decide +kernel) (by decide +kernel)

/-- A version that is written while versioning is on, in a bucket that is suspended later. -/
def suspendedVersion : List Input :=
  [.command Small.create, .command (Small.versioning "Enabled"), Small.payload 1,
   .command (Small.put "k" 1), .command (Small.versioning "Suspended")]

/-- The deletion destroys the version. -/
theorem suspended_delete_destroys_version :
    ((smallEnv false).getObject ((smallEnv false).feed suspendedVersion (smallDisk false)) "b" "k"
        { versionID := uuid 1 }).toOption.map GetResult.body = some [1] ∧
      ((smallEnv false).getObject (final ((smallEnv false).applyDisk (Small.delete "k" ""))
        ((smallEnv false).feed suspendedVersion (smallDisk false))) "b" "k"
        { versionID := uuid 1 }).toOption = none := by
  decide +kernel

end D9Store
