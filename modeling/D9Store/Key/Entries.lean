import D9Store.Key.Install
import D9Store.Versioned.Spec

/-!
The history of a key with the bodies of its versions, as the abstract history of
`D9Store.Versioned.Spec`, and what frames and installations do to it.
-/

namespace D9Store

open Posix FilePath

namespace Site

variable {e : Env} {x y : Site e} {s t : Disk} {id : String} {B : Set String} {S : Set FilePath}
    {v : ObjectMeta}

/-- The content a version stands for. -/
def bodyAt (x : Site e) (s : Disk) (v : ObjectMeta) : Option Content :=
  if v.deleteMarker then none
  else if v.blobID = "" then content s x.op
  else content s (x.blob v.blobID)

/-- A version as an abstract entry. -/
def entry (x : Site e) (s : Disk) (v : ObjectMeta) : Versioned.Entry Content :=
  ⟨v.versionID, v.blobID, v.deleteMarker, v.isLatest, x.bodyAt s v⟩

/-- The abstract history of the key. -/
def entries (x : Site e) (s : Disk) : Versioned.History Content :=
  (x.versions s).map (x.entry s)

theorem entry_here (v : ObjectMeta) : (x.entry s v).here = Env.atKeyPath v := rfl

/-! ### Frames -/

theorem blob_injective {id' : String} (h : '/' ∉ id.toList) (h' : '/' ∉ id'.toList)
    (eq : x.blob id = x.blob id') : id = id' :=
  Env.vblobPath_injective h h' eq

theorem blob_ne_blobTmp {id' : String} (h : '/' ∉ id.toList) (h' : '/' ∉ id'.toList) :
    x.blob id ≠ Env.tmpOf (y.blob id') := by
  rw [blob, blob, Env.vblobPath_eq h, Env.vblobPath_eq h', Env.tmpOf, suffixed]
  intro eq
  have names := (List.cons.inj eq).1
  have split : id' ++ ".blob" ++ ".d9tmp" = (id' ++ ".blob.") ++ "d9tmp" := by
    rw [String.append_assoc, String.append_assoc]
    rfl
  rw [split] at names
  exact ext_ne (by decide) (by decide) names

theorem blob_not_mem_cells (plain : '/' ∉ id.toList) (out : id ∉ B) : x.blob id ∉ x.cells B S := by
  rintro (h | h | h | h | ⟨id', mem, plain', h | h⟩ | ⟨-, h⟩)
  · exact x.op_ne_blob plain h.symm
  · exact Env.data_not_area x.root_tmp (x.area_blob plain) h.symm
  · exact x.hp_ne_blob plain h.symm
  · exact Env.area_ne (x.area_blob plain) x.area_hpTmp (by decide) h
  · exact out (blob_injective plain plain' h ▸ mem)
  · exact blob_ne_blobTmp plain plain' h
  · exact absurd (Env.area_unique (x.area_blob plain) h) (by decide)

/-- A filed body outside the frame stays. -/
theorem bodyAt_framed {D : Set FilePath} (frame : Framed (x.cells B S) D s t)
    (plain : '/' ∉ v.blobID.toList) (away : Env.atKeyPath v = false) (out : v.blobID ∉ B) :
    x.bodyAt t v = x.bodyAt s v := by
  unfold bodyAt
  by_cases marker : v.deleteMarker = true
  · simp [marker]
  · have filed : v.blobID ≠ "" := fun eq => by simp [Env.atKeyPath, eq, marker] at away
    rw [if_neg marker, if_neg marker, if_neg filed, if_neg filed]
    exact content_of_file_eq (frame.file _ (blob_not_mem_cells plain out))

theorem bodyAt_congr (op : t.file x.op = s.file x.op)
    (blob : v.blobID ≠ "" → t.file (x.blob v.blobID) = s.file (x.blob v.blobID)) :
    x.bodyAt t v = x.bodyAt s v := by
  unfold bodyAt
  split
  · rfl
  · split
    · exact content_of_file_eq op
    · rename_i filed
      exact content_of_file_eq (blob filed)

/-- A key none of whose files was touched keeps its history. -/
theorem entries_congr (op : t.file x.op = s.file x.op) (hp : t.file x.hp = s.file x.hp)
    (blob : ∀ v ∈ x.versions s, v.blobID ≠ "" → t.file (x.blob v.blobID) = s.file (x.blob v.blobID)) :
    x.entries t = x.entries s := by
  unfold entries
  rw [versions_congr op hp]
  refine List.map_congr_left fun v mem => ?_
  simp only [entry, bodyAt_congr op (blob v mem)]

/-! ### Recorded histories -/

variable {vs : List ObjectMeta} {enabled : Bool}

/-- A recorded history reads back as its entries, a single filed version excepted. -/
theorem Recorded.entries (h : x.Recorded vs t) (shape : History.Shape x.key vs)
    (latest : History.Latest vs) :
    x.entries t = Versioned.History.settle (vs.map (x.entry t)) := by
  rcases h.cases with ⟨many, eq⟩ | ⟨v, f, rfl, here, file, eq⟩ | ⟨v, rfl, live, blob, eq⟩
  · rw [Site.entries, eq]
    match vs, many with
    | [], _ => rfl
    | [v], many =>
      have marker : v.deleteMarker = true := by simpa [History.singleLive] using many
      simp [Versioned.History.settle, entry, marker]
    | v :: w :: rest, _ => rfl
  · have named := shape.named v List.mem_cons_self
    obtain ⟨blob, live⟩ := History.atKeyPath_iff.mp here
    have isLatest := (latest v [] rfl).1
    rw [Site.entries, eq]
    simp [Versioned.History.settle, entry, bodyAt, readBack, named, blob, live, isLatest]
  · rw [Site.entries, eq]
    simp [Versioned.History.settle, entry, live, blob]

/-- Displacement on the disk is displacement of entries, as long as no other version of the
key is filed under the same id. -/
theorem map_entry_displaced (sound : x.Sound s)
    (frame : Framed (x.cells {id | History.archivedID enabled (x.versions s) = some id} S) x.dirs s t)
    (archived : ∀ id, History.archivedID enabled (x.versions s) = some id →
      content t (x.blob id) = content s x.op)
    (fresh : ∀ id, History.archivedID enabled (x.versions s) = some id →
      ∀ v ∈ x.versions s, v.blobID ≠ id) :
    (History.displaced enabled (x.versions s)).map (x.entry t) =
      Versioned.History.displaced enabled (x.entries s) := by
  have shape := sound.shape
  -- the bodies of filed versions
  have rest_same : ∀ v ∈ x.versions s, Env.atKeyPath v = false → x.entry t v = x.entry s v := by
    intro v mem away
    have out : v.blobID ∉ {id | History.archivedID enabled (x.versions s) = some id} :=
      fun arch => fresh _ arch v mem rfl
    simp only [entry, bodyAt_framed frame (shape.plainBlob v mem) away out]
  cases arch : History.archivedID enabled (x.versions s) with
  | some id =>
    obtain ⟨cur, rest, eq, here, rfl, keep, list⟩ := History.archivedID_eq_some arch
    obtain ⟨blob, live⟩ := History.atKeyPath_iff.mp here
    have named := shape.named cur (by rw [eq]; exact List.mem_cons_self)
    have keep' : (enabled || cur.versionID != "null") = true := by
      rcases keep with h | h <;> simp [h]
    have moved : x.entry t { cur with blobID := cur.versionID } =
        { x.entry s cur with blob := cur.versionID } := by
      simp [entry, bodyAt, live, blob, named, archived _ arch]
    rw [list, entries, eq, List.map_cons, List.map_cons, moved]
    simp only [Versioned.History.displaced, entry_here, here, Bool.not_true, Bool.false_eq_true,
      if_false]
    rw [if_pos (show (enabled || (x.entry s cur).id != "null") = true from keep')]
    refine congrArg _ (List.map_congr_left fun v mem => ?_)
    refine rest_same v (by rw [eq]; exact List.mem_cons_of_mem _ mem) (shape.archived v ?_)
    rw [eq, List.tail_cons]
    exact mem
  | none =>
    rcases History.archivedID_eq_none arch with ⟨list, notHere⟩ | ⟨cur, rest, eq, here, off, null, list⟩
    · rw [list, entries]
      cases eq : x.versions s with
      | nil => rfl
      | cons cur rest =>
        have away : Env.atKeyPath cur = false := by simpa [eq] using notHere
        have same : ∀ v ∈ cur :: rest, x.entry t v = x.entry s v := by
          intro v mem
          rcases List.mem_cons.mp mem with rfl | mem'
          · exact rest_same v (by rw [eq]; exact mem) away
          · refine rest_same v (by rw [eq]; exact mem) (shape.archived v ?_)
            rw [eq, List.tail_cons]
            exact mem'
        rw [List.map_congr_left same, List.map_cons]
        simp [Versioned.History.displaced, entry_here, away]
    · rw [list, entries, eq, List.map_cons]
      have drop : (enabled || (x.entry s cur).id != "null") = false := by
        simp [off, entry, null]
      simp only [Versioned.History.displaced, entry_here, here, Bool.not_true, Bool.false_eq_true,
        if_false, drop]
      refine List.map_congr_left fun v mem => ?_
      refine rest_same v (by rw [eq]; exact List.mem_cons_of_mem _ mem) (shape.archived v ?_)
      rw [eq, List.tail_cons]
      exact mem

theorem map_entry_prepended (nv : ObjectMeta) :
    (History.prepended nv vs).map (x.entry t) =
      Versioned.History.push (x.entry t nv) (vs.map (x.entry t)) := by
  simp only [History.prepended, Versioned.History.push, List.map_cons, List.map_map]
  exact congrArg₂ _ rfl (List.map_congr_left fun v _ => rfl)

/-- An installed version is put in front of the history. -/
theorem Installed.entries {nv : ObjectMeta} {c : Content} (h : x.Installed enabled nv c S s t)
    (sound : x.Sound s) (fit : x.Fit nv)
    (fresh : ∀ id, History.archivedID enabled (x.versions s) = some id →
      ∀ v ∈ x.versions s, v.blobID ≠ id) :
    x.entries t = Versioned.History.put enabled nv.versionID c (x.entries s) := by
  rw [h.recorded.entries (fit.shape sound) (History.Latest.prepended _ _), map_entry_prepended,
    map_entry_displaced sound h.frame h.archived fresh]
  have new : x.entry t nv = { id := nv.versionID, body := some c, latest := nv.isLatest } := by
    simp [entry, bodyAt, fit.blob, fit.live, h.current]
  rw [new, Versioned.History.put, Versioned.History.push, Versioned.History.push]
  cases Versioned.History.displaced enabled (x.entries s) with
  | nil => rfl
  | cons y rest => rfl

end Site

end D9Store
