import D9Store.Keyspace.Run

/-!
Version blobs across keys and versioning settings.

A blob is named by bucket and version id alone, and every unversioned object has the id
`null`: two such objects that are filed away share one blob. As long as no object is filed
over an existing blob, blobs belong to one entry each and hold what was written for it.
-/

namespace D9Store

open Posix FilePath Versioned

variable {e : Env} {keys : List (Site e)} {s t : Disk}

/-- No two entries of the histories name one blob. -/
structure Unshared (keys : List (Site e)) (t : Disk) : Prop where
  within : ∀ x ∈ keys, ∀ km, e.readKeyMeta t x.bucket x.key = .ok km →
    km.versions.Pairwise fun v w => v.blobID ≠ "" → v.blobID ≠ w.blobID
  across : ∀ x ∈ keys, ∀ y ∈ keys, x ≠ y → x.bucket = y.bucket →
    ∀ km km', e.readKeyMeta t x.bucket x.key = .ok km → e.readKeyMeta t y.bucket y.key = .ok km' →
    ∀ v ∈ km.versions, ∀ w ∈ km'.versions, v.blobID ≠ "" → v.blobID ≠ w.blobID

/-- The blobs that a history names hold the bodies of `ledger`, entry by entry. -/
def Holding (x : Site e) (t : Disk) (ledger : History Content) : Prop :=
  ∀ km, e.readKeyMeta t x.bucket x.key = .ok km →
    List.Forall₂ (fun v en => v.versionID = en.id ∧ (v.blobID ≠ "" →
      ∃ bytes, en.body = some bytes ∧ content t (e.vblobPath x.bucket v.blobID) = some bytes))
      km.versions ledger

theorem Keyspace.unshared (inv : Keyspace keys t) : Unshared keys t where
  within x hx km read := by
    have standing := inv.standing x hx
    have nodup := standing.nodup
    rw [standing.versions_read read]
    rw [History.blobs, Site.entries, List.map_map, List.Nodup, List.pairwise_filter,
      List.pairwise_map] at nodup
    refine nodup.imp fun {v w} h filed eq => ?_
    have filed' : w.blobID ≠ "" := eq ▸ filed
    exact h (decide_eq_true filed) (decide_eq_true filed') eq
  across x hx y hy ne same km km' read read' v memv w memw filed eq := by
    rw [(inv.standing x hx).versions_read read] at memv
    rw [(inv.standing y hy).versions_read read'] at memw
    refine inv.disjoint x hx y hy ne v.blobID ?_ w.blobID ?_ ?_
    · exact Site.mem_blobs_entries.mpr ⟨v, memv, rfl, filed⟩
    · exact Site.mem_blobs_entries.mpr ⟨w, memw, rfl, eq ▸ filed⟩
    · rw [Site.blob, Site.blob, same, eq]

theorem Keyspace.holding (inv : Keyspace keys t) {x : Site e} (hx : x ∈ keys)
    {ledger : History Content} (same : x.entries t = ledger) : Holding x t ledger := by
  intro km read
  have standing := inv.standing x hx
  rw [standing.versions_read read, ← same, Site.entries, List.forall₂_map_right_iff,
    List.forall₂_same]
  refine fun v mem => ⟨rfl, fun filed => ?_⟩
  have live : v.deleteMarker = false := by
    by_contra marker
    exact filed (standing.sound.shape.marker v mem (by simpa using marker))
  obtain ⟨bytes, body⟩ := Option.isSome_iff_exists.mp (Site.backed_iff.mp standing.backed v mem live)
  refine ⟨bytes, body, ?_⟩
  rwa [Site.bodyAt, live, if_neg Bool.false_ne_true, if_neg filed] at body

/-- In a run whose commands find what they need, and file no object over an existing blob,
every blob belongs to one entry and holds the bytes written for it. -/
theorem version_blobs_stay_apart {ins : List Input} (start : Fresh e s) (apart : Apart keys)
    (ok : e.Along (Orderly keys) ins s) :
    Unshared keys (e.feed ins s) ∧
      ∀ x ∈ keys, Holding x (e.feed ins s) (x.ledger ins s []) := by
  obtain ⟨inv, folded⟩ := (start.keyspace apart).run apart ok
  refine ⟨inv.unshared, fun x hx => inv.holding hx ?_⟩
  rw [folded x hx, Site.entries_nil (start.file _) (start.file _)]

/-! ### Two runs -/

/-- Two keys that are written before, while and after versioning is on. -/
def filedKeys : List Input :=
  [.command Small.create, Small.payload 1, .command (Small.put "k" 1),
   .command (Small.versioning "Enabled"), Small.payload 2, .command (Small.put "k" 2),
   Small.payload 3, .command (Small.put "l" 3), Small.payload 4, .command (Small.put "l" 4),
   .command (Small.delete "k" (uuid 5)), .command (Small.versioning "Suspended"),
   Small.payload 6, .command (Small.put "l" 6)]

theorem filed_keys_hold_their_blobs :
    ((smallEnv false).readKeyMeta ((smallEnv false).feed filedKeys (smallDisk false)) "b" "k").toOption.map
        (fun km => km.versions.map ObjectMeta.blobID) = some ["", uuid 2, "null"] ∧
      Unshared [Small.k, Small.l] ((smallEnv false).feed filedKeys (smallDisk false)) ∧
      ∀ x ∈ [Small.k, Small.l], Holding x ((smallEnv false).feed filedKeys (smallDisk false))
        (x.ledger filedKeys (smallDisk false) []) :=
  ⟨by decide +kernel, version_blobs_stay_apart (by decide +kernel) (by decide +kernel)
    (by decide +kernel)⟩

/-- Two keys that are written unversioned, then overwritten under versioning. -/
def sharedNull : List Input :=
  [.command Small.create, Small.payload 1, .command (Small.put "k" 1),
   Small.payload 2, .command (Small.put "l" 2), .command (Small.versioning "Enabled"),
   Small.payload 3, .command (Small.put "k" 3), Small.payload 4, .command (Small.put "l" 4)]

/-- Both old objects are filed at the blob `null`; the first key's version reads as the
second's. -/
theorem archived_nulls_share_a_blob :
    ((smallEnv false).readKeyMeta ((smallEnv false).feed sharedNull (smallDisk false)) "b" "k").toOption.map
        (fun km => km.versions.map ObjectMeta.blobID) = some ["", "null"] ∧
      ((smallEnv false).readKeyMeta ((smallEnv false).feed sharedNull (smallDisk false)) "b" "l").toOption.map
        (fun km => km.versions.map ObjectMeta.blobID) = some ["", "null"] ∧
      ((smallEnv false).getObject ((smallEnv false).feed sharedNull (smallDisk false)) "b" "k"
        { versionID := "null" }).toOption.map GetResult.body = some [2] := by
  decide +kernel

end D9Store
