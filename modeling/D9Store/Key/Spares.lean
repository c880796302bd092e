import D9Store.Key.Delete

/-!
Keys that leave each other alone.

A key keeps its history and its bytes through a step that changes none of its files, puts no
file on the way to them and no directory in their place. `Spares x y` is a condition on the
two keys under which every command on `x` is such a step for `y`, apart from the blobs they
may share.
-/

namespace D9Store

open Posix FilePath

namespace Site

variable {e : Env} {x y : Site e} {s t : Disk} {F D S : Set FilePath} {q : FilePath}

/-- A key is known by its names. -/
theorem eq_of_names (h : x.bucket = y.bucket ∧ x.key = y.key) : x = y := by
  obtain ⟨bucket, key, tame, op, hp, op_eq, hp_eq⟩ := x
  obtain ⟨bucket', key', tame', op', hp', op_eq', hp_eq'⟩ := y
  obtain ⟨rfl, rfl⟩ := h
  cases op_eq.symm.trans op_eq'
  cases hp_eq.symm.trans hp_eq'
  rfl

instance : DecidableEq (Site e) := fun x y =>
  if h : x.bucket = y.bucket ∧ x.key = y.key then isTrue (eq_of_names h)
  else isFalse (by rintro rfl; exact h ⟨rfl, rfl⟩)

/-- A file the key does not depend on, blobs apart. -/
def Safe (y : Site e) (q : FilePath) : Prop :=
  q ≠ y.op ∧ q ≠ y.hp ∧ ¬ q <:+ y.hp.tail ∧ ¬ q <:+ e.versionsDir y.bucket

/-- A directory that is not in the way of the key. -/
def Vacant (y : Site e) (q : FilePath) : Prop := ¬ y.Place q ∧ q ≠ Env.tmpOf y.op

/-- Files of the data root other than the object file. -/
theorem safe_data (data : e.root <:+ q) (ne : q ≠ y.op) : y.Safe q := by
  refine ⟨ne, Env.data_not_area data y.area_hp, fun sub => ?_, fun sub => ?_⟩
  · exact Env.data_not_area (data.trans (sub.trans (List.tail_suffix _))) y.area_hp rfl
  · exact Env.data_not_area (data.trans sub) (Env.area_versionsDir y.tame) rfl

/-- Files of the state root outside history and blobs. -/
theorem safe_area {kind : String} (area : e.area kind <:+ q) (history : kind ≠ "history")
    (versions : kind ≠ "versions") : y.Safe q := by
  refine ⟨(Env.data_not_area y.root_op area).symm, Env.area_ne area y.area_hp history, fun sub => ?_,
    fun sub => ?_⟩
  · exact history (Env.area_unique (area.trans (sub.trans (List.tail_suffix _))) y.area_hp)
  · exact versions (Env.area_unique (area.trans sub) (Env.area_versionsDir y.tame))

/-- The key is as it was. -/
structure Rests (y : Site e) (s t : Disk) : Prop where
  ready : y.Ready t
  tmpFree : t.get (Env.tmpOf y.op) ≠ some .dir
  op : t.file y.op = s.file y.op
  hp : t.file y.hp = s.file y.hp
  blob : ∀ v ∈ y.versions s, v.blobID ≠ "" → t.file (y.blob v.blobID) = s.file (y.blob v.blobID)

theorem rests (ready : y.Ready s) (tmpFree : s.get (Env.tmpOf y.op) ≠ some .dir)
    (frame : Framed F D s t) (safe : ∀ q ∈ F, y.Safe q) (vacant : ∀ q ∈ D, y.Vacant q)
    (blobs : ∀ v ∈ y.versions s, v.blobID ≠ "" → y.blob v.blobID ∉ F) : y.Rests s t where
  ready := ready.keep frame (fun q mem => (safe q mem).2.2) fun q mem => (vacant q mem).1
  tmpFree dir := tmpFree (frame.dir _ (fun mem => (vacant _ mem).2 rfl) dir)
  op := frame.file _ fun mem => (safe _ mem).1 rfl
  hp := frame.file _ fun mem => (safe _ mem).2.1 rfl
  blob v mem filed := frame.file _ (blobs v mem filed)

namespace Rests

theorem versions (h : y.Rests s t) : y.versions t = y.versions s := versions_congr h.op h.hp

theorem sound (h : y.Rests s t) (sound : y.Sound s) : y.Sound t := sound.congr h.op h.hp

theorem entries (h : y.Rests s t) : y.entries t = y.entries s := entries_congr h.op h.hp h.blob

end Rests

/-- A blob of `y` that `x` does not reach. -/
theorem blob_out_of_reach {B : Set String} {id : String} (plain : '/' ∉ id.toList)
    (out : ∀ id' ∈ B, x.blob id' ≠ y.blob id) : y.blob id ∉ x.cells B S := by
  have area := y.area_blob plain
  rintro (h | h | h | h | ⟨id', mem, plain', h | h⟩ | ⟨-, h⟩)
  · exact Env.data_not_area x.root_op area h.symm
  · exact Env.data_not_area x.root_tmp area h.symm
  · exact Env.area_ne area x.area_hp (by decide) h
  · exact Env.area_ne area x.area_hpTmp (by decide) h
  · exact out id' mem h.symm
  · exact blob_ne_blobTmp plain plain' h
  · exact absurd (Env.area_unique area h) (by decide)

/-- Commands on `x` leave the files of `y` alone, shared blobs apart. -/
structure Spares (x y : Site e) : Prop where
  op : x.op ≠ y.op
  opTmp : Env.tmpOf x.op ≠ y.op
  hp : x.hp ≠ y.hp
  hpTmp : Env.jsonTmp x.hp ≠ y.hp
  above : ¬ x.hp <:+ y.hp.tail
  aboveTmp : ¬ Env.jsonTmp x.hp <:+ y.hp.tail
  below : ¬ y.hp <:+ x.hp.tail
  belowTmp : ¬ Env.jsonTmp y.hp <:+ x.hp.tail
  tmp : ¬ Env.tmpOf y.op <:+ x.op.tail
  blobs : e.versionsDir x.bucket = e.versionsDir y.bucket ∨
    (¬ e.versionsDir x.bucket <:+ e.versionsDir y.bucket ∧
      ¬ e.versionsDir y.bucket <:+ e.versionsDir x.bucket)

instance : Decidable (Spares x y) :=
  decidable_of_iff
    (x.op ≠ y.op ∧ Env.tmpOf x.op ≠ y.op ∧ x.hp ≠ y.hp ∧ Env.jsonTmp x.hp ≠ y.hp ∧
      ¬ x.hp <:+ y.hp.tail ∧ ¬ Env.jsonTmp x.hp <:+ y.hp.tail ∧ ¬ y.hp <:+ x.hp.tail ∧
      ¬ Env.jsonTmp y.hp <:+ x.hp.tail ∧ ¬ Env.tmpOf y.op <:+ x.op.tail ∧
      (e.versionsDir x.bucket = e.versionsDir y.bucket ∨
        (¬ e.versionsDir x.bucket <:+ e.versionsDir y.bucket ∧
          ¬ e.versionsDir y.bucket <:+ e.versionsDir x.bucket)))
    ⟨fun ⟨a, b, c, d, f, g, h, i, j, k⟩ => ⟨a, b, c, d, f, g, h, i, j, k⟩,
      fun ⟨a, b, c, d, f, g, h, i, j, k⟩ => ⟨a, b, c, d, f, g, h, i, j, k⟩⟩

namespace Spares

variable (spares : Spares x y) {q : FilePath}
include spares

theorem blob_above {id : String} (plain : '/' ∉ id.toList)
    (eq : q = x.blob id ∨ q = Env.tmpOf (x.blob id)) : ¬ q <:+ e.versionsDir y.bucket := by
  rcases spares.blobs with same | ⟨apart, -⟩
  · rw [← same]
    exact blob_not_versions plain eq
  · intro sub
    refine apart (List.IsSuffix.trans ?_ sub)
    rcases eq with rfl | rfl <;> rw [blob, Env.vblobPath_eq plain]
    · exact List.suffix_cons _ _
    · exact List.suffix_cons _ _

theorem cells_safe {B : Set String} {S : Set FilePath} (mem : q ∈ x.cells B S) : y.Safe q := by
  rcases mem with rfl | rfl | rfl | rfl | ⟨id, -, plain, eq⟩ | ⟨-, staging⟩
  · exact safe_data x.root_op spares.op
  · exact safe_data x.root_tmp spares.opTmp
  · refine ⟨(Env.data_not_area y.root_op x.area_hp).symm, spares.hp, spares.above, fun sub => ?_⟩
    exact absurd (Env.area_unique (x.area_hp.trans sub) (Env.area_versionsDir y.tame)) (by decide)
  · refine ⟨(Env.data_not_area y.root_op x.area_hpTmp).symm, spares.hpTmp, spares.aboveTmp,
      fun sub => ?_⟩
    exact absurd (Env.area_unique (x.area_hpTmp.trans sub) (Env.area_versionsDir y.tame)) (by decide)
  · have area := area_of_blob plain eq
    refine ⟨(Env.data_not_area y.root_op area).symm, Env.area_ne area y.area_hp (by decide),
      fun sub => ?_, spares.blob_above plain eq⟩
    exact absurd (Env.area_unique (area.trans (sub.trans (List.tail_suffix _))) y.area_hp) (by decide)
  · exact safe_area staging (by decide) (by decide)

theorem dirs_vacant (mem : q ∈ x.dirs) : y.Vacant q := by
  have history {r : FilePath} (area : e.area "history" <:+ r) (out : ¬ r <:+ x.hp.tail) :
      r ∉ x.dirs := x.not_mem_dirs_of_history area out
  have versions {id : String} (plain : '/' ∉ id.toList) {r : FilePath}
      (eq : r = y.blob id ∨ r = Env.tmpOf (y.blob id)) : ¬ r <:+ e.versionsDir x.bucket := by
    rcases spares.blobs with same | ⟨-, apart⟩
    · rw [same]
      exact blob_not_versions plain eq
    · intro sub
      refine apart (List.IsSuffix.trans ?_ sub)
      rcases eq with rfl | rfl <;> rw [blob, Env.vblobPath_eq plain]
      · exact List.suffix_cons _ _
      · exact List.suffix_cons _ _
  refine ⟨?_, ?_⟩
  · rintro (rfl | rfl | ⟨id, plain, eq⟩)
    · exact history y.area_hp spares.below mem
    · exact history y.area_hpTmp spares.belowTmp mem
    · exact x.not_mem_dirs_of_versions (area_of_blob plain eq) (versions plain eq) mem
  · rintro rfl
    rcases mem with h | h | h | h
    · exact spares.tmp h
    · exact Env.data_not_area (y.root_tmp.trans (h.trans (List.tail_suffix _))) x.area_hp rfl
    · exact Env.data_not_area (y.root_tmp.trans h) (Env.area_versionsDir x.tame) rfl
    · exact Env.data_not_area (y.root_tmp.trans h) List.suffix_rfl rfl

end Spares

end Site

end D9Store
