import D9Store.Key.Spares
import D9Store.Versioned.Act

/-!
Commands on one key as acts on its abstract history.

`Acts x act O s t` says that between `s` and `t` the history of the key went through `act`,
and bounds what else changed: the key's own files, the blobs of its history, the blob the
act files the current body at, payloads, and the places in `O`.
-/

namespace D9Store

open Posix FilePath Versioned

namespace Site

variable {e : Env} {x : Site e} {s t : Disk} {O S F : Set FilePath} {act : Act Content}
    {nv v : ObjectMeta} {c : Command} {vid : String} {suspended : Bool}

/-! ### The abstract history and the recorded one -/

theorem filed_entries (enabled : Bool) (x : Site e) (s : Disk) :
    (x.entries s).filed enabled = History.archivedID enabled (x.versions s) := by
  unfold entries
  cases x.versions s with
  | nil => rfl
  | cons cur rest =>
    simp only [List.map_cons, History.filed, D9Store.History.archivedID, Entry.here, entry]
    cases cur.deleteMarker <;> by_cases blob : cur.blobID = "" <;> simp [blob]

theorem mem_blobs_entries {id : String} :
    id ∈ (x.entries s).blobs ↔ id ∈ blobsOf (x.versions s) := by
  simp only [History.mem_blobs, entries, List.mem_map, blobsOf, Set.mem_ofPred_eq]
  constructor
  · rintro ⟨ne, en, ⟨v, mem, rfl⟩, eq⟩
    exact ⟨v, mem, eq, ne⟩
  · rintro ⟨v, mem, eq, ne⟩
    exact ⟨ne, _, ⟨v, mem, rfl⟩, eq⟩

/-- Bodies are where the history says. -/
theorem backed_iff : (x.entries s).Backed ↔ x.Backed s := by
  unfold Versioned.History.Backed Backed entries
  constructor
  · intro h v mem live
    exact h _ (List.mem_map_of_mem mem) live
  · intro h en mem live
    obtain ⟨v, memv, rfl⟩ := List.mem_map.mp mem
    exact h v memv live

/-! ### Acts -/

/-- The blobs an act may touch. -/
def reach (act : Act Content) (h : Versioned.History Content) : Set String :=
  {id | id ∈ h.blobs ∨ act.files h = some id}

structure Acts (x : Site e) (act : Act Content) (O : Set FilePath) (s t : Disk) : Prop where
  frame : Framed (x.cells (reach act (x.entries s)) Set.univ ∪ O) x.dirs s t
  sound : x.Sound t
  entries : x.entries t = act.run (x.entries s)
  tmp : t.file (Env.tmpOf x.op) = s.file (Env.tmpOf x.op) ∨ t.file (Env.tmpOf x.op) = none

/-- A frame of the key's own files is one of the act. -/
theorem frame_acts {B : Set String} {D : Set FilePath} (frame : Framed (x.cells B S) D s t)
    (blobs : B ⊆ reach act (x.entries s)) (dirs : D ⊆ x.dirs) :
    Framed (x.cells (reach act (x.entries s)) Set.univ ∪ O) x.dirs s t :=
  frame.mono ((x.cells_mono blobs (Set.subset_univ _)).trans Set.subset_union_left) dirs

/-- Nothing happened to the history. -/
theorem Acts.keep (sound : x.Sound t) (same : x.entries t = x.entries s)
    (frame : Framed ({x.op, x.hp, Env.jsonTmp x.hp} : Set FilePath) x.dirs s t) :
    x.Acts .keep ∅ s t where
  frame := frame_acts (frame.mono (record_subset (B := ∅) (S := ∅)) subset_rfl)
    (Set.empty_subset _) subset_rfl
  sound := sound
  entries := same
  tmp := .inl (frame.file _ record_tmp_out)

theorem Installed.acts {enabled : Bool} {c : Content} (h : x.Installed enabled nv c S s t)
    (sound : x.Sound s) (fit : x.Fit nv)
    (fresh : ∀ id, D9Store.History.archivedID enabled (x.versions s) = some id →
      ∀ v ∈ x.versions s, v.blobID ≠ id) : x.Acts (.put enabled nv.versionID c) ∅ s t  where
  frame := by
    refine frame_acts h.frame (fun id mem => .inr ?_) subset_rfl
    rw [Act.files, filed_entries]
    exact mem
  sound := h.recorded.sound (fit.shape sound) (D9Store.History.Latest.prepended _ _)
    (by simp [D9Store.History.prepended])
  entries := h.entries sound fit fresh
  tmp := h.tmp

theorem Marked.acts (h : x.Marked true nv s t) (sound : x.Sound s) (own : nv.key = x.key)
    (id : Nameable nv.versionID) (blob : nv.blobID = "") (marker : nv.deleteMarker = true)
    (fresh : ∀ id, D9Store.History.archivedID true (x.versions s) = some id →
      ∀ v ∈ x.versions s, v.blobID ≠ id) : x.Acts (.mark nv.versionID) ∅ s t  where
  frame := by
    refine frame_acts h.frame (fun id mem => .inr ?_) subset_rfl
    rw [Act.files, filed_entries]
    exact mem
  sound := h.recorded.sound (marker_shape sound own id blob) (D9Store.History.Latest.prepended _ _)
    (by simp [D9Store.History.prepended])
  entries := h.entries sound own id blob marker fresh
  tmp := .inl h.tmp

/-! ### Deletions -/

theorem entries_kept (vid : String) :
    (x.entries s).filter (fun y => y.id != vid) =
      (D9Store.History.keptBy vid (x.versions s)).map (x.entry s) := by
  rw [entries, List.filter_map]
  rfl

theorem entries_removed (vid : String) :
    ((x.entries s).filter fun y => y.id == vid).any Entry.here =
      (D9Store.History.removedBy vid (x.versions s)).any Env.atKeyPath := by
  rw [entries, List.filter_map, List.any_map]
  rfl

/-- The kept entries after a deletion are those of before, with a new first one. -/
theorem Taken.map_entry (h : x.Taken vid s t) :
    (D9Store.History.taken vid (x.versions s)).map (x.entry t) =
      if ((x.entries s).filter fun y => y.id == vid).any Entry.here then
        Versioned.History.promoted ((x.entries s).filter fun y => y.id != vid)
      else Versioned.History.marked ((x.entries s).filter fun y => y.id != vid) := by
  have head := h.head
  have tail := h.tail
  rw [entries_removed, entries_kept]
  unfold D9Store.History.taken at head ⊢
  generalize D9Store.History.keptBy vid (x.versions s) = kept at head tail ⊢
  cases kept with
  | nil => split <;> rfl
  | cons v rest =>
    have behind : rest.map (x.entry t) = rest.map (x.entry s) :=
      List.map_congr_left fun w mem => by simp only [entry, tail w mem]
    split
    · rename_i here
      rw [if_pos here] at head
      have body := head v rest rfl _ _ rfl
      simp only [D9Store.History.promoted, Versioned.History.promoted, List.map_cons, behind]
      simp only [entry, body]
    · rename_i away
      rw [if_neg away] at head
      have body := head v rest rfl _ _ rfl
      simp only [D9Store.History.marked, Versioned.History.marked, List.map_cons, behind]
      simp only [entry, body]

theorem Taken.acts (h : x.Taken vid s t) (sound : x.Sound s)
    (full : D9Store.History.keptBy vid (x.versions s) ≠ []) : x.Acts (.remove vid) ∅ s t  where
  frame := frame_acts h.frame (fun id mem => .inl (mem_blobs_entries.mpr mem)) subset_rfl
  sound := by
    refine h.recorded.sound sound.shape.taken sound.latest.taken ?_
    unfold D9Store.History.taken
    cases kept : D9Store.History.keptBy vid (x.versions s) with
    | nil => exact absurd kept full
    | cons v rest => split <;> simp [D9Store.History.promoted, D9Store.History.marked]
  entries := by
    rw [h.recorded.entries sound.shape.taken sound.latest.taken, h.map_entry]
    rfl
  tmp := h.tmp

theorem entries_nil (op : t.file x.op = none) (hp : t.file x.hp = none) : x.entries t = [] := by
  rw [entries, versions_nil op hp]
  rfl

/-- The last entries of a key go. -/
theorem acts_of_gone (frame : Framed F ∅ s t)
    (cells : F ⊆ x.cells (reach act (x.entries s)) Set.univ ∪ O) (tmp : Env.tmpOf x.op ∉ F)
    (op : t.file x.op = none) (hp : t.file x.hp = none) (all : act.run (x.entries s) = []) :
    x.Acts act O s t where
  frame := frame.mono cells (Set.empty_subset _)
  sound := sound_nil op hp
  entries := by rw [entries_nil op hp, all]
  tmp := .inl (frame.file _ tmp)

theorem remove_eq_nil (last : D9Store.History.keptBy vid (x.versions s) = []) :
    (Act.remove vid).run (x.entries s) = [] := by
  rw [Act.run, Versioned.History.remove, entries_kept, last]
  split <;> rfl

/-! ### Deletion without versioning -/

/-- The blob of a dropped version is no other version's. -/
theorem droppedBlob_out (sound : x.Sound s) (nodup : (x.entries s).blobs.Nodup)
    (safe : ∀ suspended, (Act.deleteNull suspended).spoils (x.entries s) = false)
    (mem : v ∈ D9Store.History.dropped (x.versions s)) :
    Env.atKeyPath v = false ∧
      v.blobID ∉ {id | D9Store.History.droppedBlob (x.versions s) = some id} := by
  refine ⟨D9Store.History.dropped_archived sound.shape v mem, fun out => ?_⟩
  simp only [entries] at nodup safe
  cases eq : x.versions s with
  | nil =>
    rw [eq] at out
    cases out
  | cons cur rest =>
    rw [eq] at mem out nodup safe
    simp only [Set.mem_ofPred_eq, D9Store.History.droppedBlob] at out
    split at out
    · cases out
    · rename_i filed
      obtain ⟨live, blob⟩ : cur.deleteMarker = false ∧ cur.blobID ≠ "" := by
        simpa using filed
      have null : cur.versionID = "null" := by
        by_contra named
        have := safe true
        simp [Act.spoils, entry, live, blob, named] at this
      have behind : v ∈ rest := by
        simpa [D9Store.History.dropped, live, null] using mem
      have twice : cur.blobID ∈ (rest.map (x.entry s)).map Entry.blob :=
        List.mem_map.mpr ⟨_, List.mem_map_of_mem behind, (Option.some.inj out).symm⟩
      simp only [List.map_cons, Versioned.History.blobs, entry] at nodup twice
      rw [List.filter_cons_of_pos (by simpa using blob), List.nodup_cons] at nodup
      exact nodup.1 (List.mem_filter.mpr ⟨twice, by simpa using blob⟩)

/-- What is left of the history when the latest version is dropped. -/
theorem map_entry_dropped {D : Set FilePath} (sound : x.Sound s) (nodup : (x.entries s).blobs.Nodup)
    (safe : ∀ suspended, (Act.deleteNull suspended).spoils (x.entries s) = false)
    (frame : Framed (x.cells {id | D9Store.History.droppedBlob (x.versions s) = some id} S) D s t) :
    (D9Store.History.dropped (x.versions s)).map (x.entry t) = (x.entries s).dropLatest := by
  have same : ∀ v ∈ D9Store.History.dropped (x.versions s), x.entry t v = x.entry s v := by
    intro v mem
    obtain ⟨away, out⟩ := droppedBlob_out sound nodup safe mem
    have plain := sound.shape.dropped.plainBlob v mem
    simp only [entry, bodyAt_framed frame plain away out]
  rw [List.map_congr_left same, entries]
  cases eq : x.versions s with
  | nil => rfl
  | cons cur rest =>
    have keeps := safe true
    rw [entries, eq] at keeps
    cases marker : cur.deleteMarker with
    | true => simp [D9Store.History.dropped, Versioned.History.dropLatest, entry, marker]
    | false =>
      by_cases drop : cur.versionID = "null" ∨ cur.blobID = ""
      · simp [D9Store.History.dropped, Versioned.History.dropLatest, entry, marker, drop]
      · obtain ⟨named, filed⟩ := not_or.mp drop
        simp [Act.spoils, entry, marker, named, filed] at keeps

theorem shape_nulled (sound : x.Sound s) (addr : x.Addresses c) :
    D9Store.History.Shape x.key
      (D9Store.History.nulled suspended (e.marker c "null") (x.versions s)) := by
  unfold D9Store.History.nulled
  split
  · exact sound.shape.dropped.prepended (D9Store.History.dropped_archived sound.shape) addr.2
      (show "null" ≠ "" by decide) (show '/' ∉ "null".toList by decide) rfl
  · exact sound.shape.dropped.marked

theorem map_entry_marked (vs : List ObjectMeta) :
    (D9Store.History.marked vs).map (x.entry t) = Versioned.History.marked (vs.map (x.entry t)) := by
  cases vs <;> rfl

/-- A recorded deletion without versioning. -/
theorem acts_deleteNull (sound : x.Sound s) (addr : x.Addresses c)
    (nodup : (x.entries s).blobs.Nodup)
    (safe : ∀ suspended, (Act.deleteNull suspended).spoils (x.entries s) = false)
    (frame : Framed (x.cells {id | D9Store.History.droppedBlob (x.versions s) = some id} ∅) x.dirs s t)
    (tmp : t.file (Env.tmpOf x.op) = s.file (Env.tmpOf x.op))
    (full : D9Store.History.nulled suspended (e.marker c "null") (x.versions s) ≠ [])
    (recorded : x.Recorded (D9Store.History.nulled suspended (e.marker c "null") (x.versions s)) t) :
    x.Acts (.deleteNull suspended) ∅ s t where
  frame := by
    refine frame_acts frame (fun id mem => .inl (mem_blobs_entries.mpr ?_)) subset_rfl
    cases eq : x.versions s with
    | nil =>
      rw [eq] at mem
      cases mem
    | cons cur rest =>
      rw [eq] at mem
      simp only [Set.mem_ofPred_eq, D9Store.History.droppedBlob] at mem
      split at mem
      · cases mem
      · rename_i filed
        obtain ⟨-, blob⟩ : cur.deleteMarker = false ∧ cur.blobID ≠ "" := by simpa using filed
        exact ⟨cur, List.mem_cons_self, Option.some.inj mem, Option.some.inj mem ▸ blob⟩
  sound := recorded.sound (shape_nulled sound addr) sound.latest.nulled full
  entries := by
    have rest := map_entry_dropped sound nodup safe frame
    rw [recorded.entries (shape_nulled sound addr) sound.latest.nulled, Act.run,
      Versioned.History.deleteNull]
    unfold D9Store.History.nulled
    cases suspended with
    | true =>
      rw [if_pos rfl, if_pos rfl, map_entry_prepended, rest]
      have new : x.entry t (e.marker c "null") = { id := "null", marker := true } := by
        simp [entry, bodyAt, Env.marker]
      rw [new, Versioned.History.push]
      cases (x.entries s).dropLatest.map Entry.unlatest with
      | nil => rfl
      | cons y rest => rfl
    | false =>
      rw [if_neg (by simp), if_neg (by simp), map_entry_marked, rest]
  tmp := .inl tmp

theorem deleteNull_eq_nil (sound : x.Sound s) (nodup : (x.entries s).blobs.Nodup)
    (safe : ∀ suspended, (Act.deleteNull suspended).spoils (x.entries s) = false)
    (empty : D9Store.History.nulled suspended (e.marker c "null") (x.versions s) = []) :
    (Act.deleteNull suspended).run (x.entries s) = [] := by
  have rest := map_entry_dropped (S := ∅) (D := ∅) sound nodup safe (Framed.refl s)
  unfold D9Store.History.nulled at empty
  cases suspended with
  | true => cases empty
  | false =>
    rw [if_neg (by simp)] at empty
    rw [D9Store.History.marked_eq_nil.mp empty] at rest
    rw [Act.run, Versioned.History.deleteNull, if_neg (by simp), ← rest]
    rfl

end Site

end D9Store
