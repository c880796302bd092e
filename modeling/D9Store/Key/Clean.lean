import D9Store.Runs

/-!
Clean keys: keys whose segments are ordinary names. Both path checks accept them, different
ones have different files, and a walk over the bucket finds them under their own name.
-/

namespace D9Store

open Posix FilePath

namespace Env

variable {e : Env} {bucket key : String}

theorem root_ne_nil : e.root ≠ [] := fun h => e.state_outside (by rw [h]; exact List.nil_suffix)

theorem bucketDir_ne_nil (tame : Tame bucket) : e.bucketDir bucket ≠ [] := fun h => by
  have := root_bucketDir (e := e) tame
  rw [h] at this
  exact root_ne_nil (List.suffix_nil.mp this)

theorem historyDir_ne_nil (tame : Tame bucket) : e.historyDir bucket ≠ [] := fun h => by
  have := area_historyDir (e := e) tame
  rw [h] at this
  exact List.cons_ne_nil _ _ (List.suffix_nil.mp this)

theorem clean_json (clean : Clean key) : Clean (key ++ ".json") :=
  clean.append (by decide) (by decide)

/-- The site of a clean key. -/
def cleanSite (e : Env) (tame : Tame bucket) (clean : Clean key) : Site e where
  bucket := bucket
  key := key
  tame := tame
  op := (e.bucketDir bucket).join key
  hp := (e.historyDir bucket).join (key ++ ".json")
  op_eq := if_pos ⟨bucketDir_ne_nil tame, below_join_clean clean _⟩
  hp_eq := if_pos ⟨historyDir_ne_nil tame, below_join_clean (clean_json clean) _⟩

/-- The temporary file of a clean key is the object file of another one. -/
theorem tmpOf_join (clean : Clean key) (p : FilePath) :
    tmpOf (p.join key) = p.join (key ++ ".d9tmp") :=
  (join_suffixed clean (by decide) (by decide) p).symm

/-- `filepath.Rel` undoes the join. -/
theorem relKey_join (clean : Clean key) (base : FilePath) :
    relKey base (base.join key) = key := by
  rw [relKey, if_neg (below_join_clean clean base).2, join_clean clean]
  simp [unsegments_segments]

end Env

end D9Store
