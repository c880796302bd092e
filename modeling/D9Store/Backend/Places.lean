import D9Store.Backend.Apply

/-!
Where the engine's files lie.

Object files stand below the data root, everything else below the state root, one
top-level directory per kind. Two paths of different kinds are therefore different, and
so are two paths whose names end differently.
-/

namespace D9Store

open Posix FilePath

/-- A bucket name that keeps its files inside the directories of their kind. -/
def Tame (bucket : String) : Prop := '/' ∉ bucket.toList ∧ bucket ≠ ".."

instance (bucket : String) : Decidable (Tame bucket) := by
  unfold Tame; infer_instance

theorem Tame.suffix_join {bucket : String} (h : Tame bucket) (p : FilePath) :
    p <:+ p.join bucket := by
  rw [join_of_no_slash h.1, push]
  split
  · exact List.suffix_rfl
  · simp [h.2]

namespace Env

variable {e : Env} {kind kind' token uploadID bucket id : String} {p hp : FilePath}

/-! ### Kinds of paths -/

/-- The top-level directory of one kind of state. -/
def area (e : Env) (kind : String) : FilePath := kind :: e.state

theorem idir_single (plain : Plain kind) : e.idir [kind] = e.area kind := by
  simp [idir, area, join_plain plain]

theorem data_not_state {q : FilePath} (data : e.root <:+ p) (state : e.state <:+ q) : p ≠ q := by
  rintro rfl
  rcases suffix_total data state with h | h
  · exact e.state_outside h
  · exact e.root_outside h

theorem area_unique (h : e.area kind <:+ p) (h' : e.area kind' <:+ p) : kind = kind' := by
  have eq := (List.suffix_of_suffix_length_le h h' (by simp [area])).eq_of_length (by simp [area])
  exact (List.cons.inj eq).1

theorem state_of_area (h : e.area kind <:+ p) : e.state <:+ p :=
  (List.suffix_cons kind e.state).trans h

theorem data_not_area {q : FilePath} (data : e.root <:+ p) (h : e.area kind <:+ q) : p ≠ q :=
  data_not_state data (state_of_area h)

theorem area_ne {q : FilePath} (h : e.area kind <:+ p) (h' : e.area kind' <:+ q) (ne : kind ≠ kind') :
    p ≠ q := by
  rintro rfl
  exact ne (area_unique h h')

/-! ### The paths of one bucket -/

/-- The directory of a bucket's version blobs. -/
def versionsDir (e : Env) (bucket : String) : FilePath := e.idir ["versions", bucket]

theorem versionsDir_eq (bucket : String) :
    e.versionsDir bucket = (e.area "versions").join bucket := by
  have h : Plain "versions" := by decide
  simp [versionsDir, idir, area, join_plain h]

theorem historyDir_eq (bucket : String) :
    e.historyDir bucket = (e.area "history").join bucket := by
  have h : Plain "history" := by decide
  simp [historyDir, idir, area, join_plain h]

theorem stagingPath_eq (h : Plain token) : e.stagingPath token = token :: e.area "staging" := by
  have h' : Plain "staging" := by decide
  simp [stagingPath, idir, area, join_plain h', join_plain h]

theorem no_slash_digits (n : Nat) : '/' ∉ Nat.toDigits 10 n := by
  intro mem
  have digit := Nat.isDigit_of_mem_toDigits (by decide) (by decide) mem
  revert digit
  decide

/-- A part number is written in digits. -/
theorem no_slash_pad5 (n : Int) : '/' ∉ (pad5 n).toList := by
  cases n with
  | ofNat m => simp [pad5, List.leftpad, no_slash_digits m]
  | negSucc m => simp [pad5, List.leftpad, no_slash_digits (m + 1)]

theorem mpPartPath_eq (h : '/' ∉ uploadID.toList) (part : Int) :
    e.mpPartPath uploadID part = (uploadID ++ "__" ++ pad5 part) :: e.area "mpstaging" := by
  have plain : Plain (uploadID ++ "__" ++ pad5 part) := by
    refine plain_of_long ?_ (by simp [h, no_slash_pad5])
    have long : 0 < (pad5 part).length := by
      cases part with
      | ofNat m => simp [pad5, List.leftpad]; omega
      | negSucc m =>
        rw [pad5, String.length_append]
        exact Nat.add_pos_left (by decide) _
    simp only [String.length_append]
    have : "__".length = 2 := rfl
    omega
  simp only [mpPartPath, idir, List.foldl_cons, List.foldl_nil, join_plain plain,
    join_plain (show Plain "mpstaging" by decide), area]

theorem mpuMetaPath_eq (h : '/' ∉ uploadID.toList) (bucket : String) :
    e.mpuMetaPath bucket uploadID = (uploadID ++ ".json") :: (e.area "mpu").join bucket := by
  have plain : Plain (uploadID ++ ".json") := plain_append (by decide) (by decide) h
  simp only [mpuMetaPath, idir, List.foldl_cons, List.foldl_nil, join_plain plain,
    join_plain (show Plain "mpu" by decide), area]

theorem bucketMetaPath_eq (h : '/' ∉ bucket.toList) :
    e.bucketMetaPath bucket = (bucket ++ ".json") :: e.area "buckets" := by
  have h' : Plain "buckets" := by decide
  have ext : Plain (bucket ++ ".json") := plain_append (by decide) (by decide) h
  simp [bucketMetaPath, idir, area, join_plain h', join_plain ext]

theorem vblobPath_eq (h : '/' ∉ id.toList) (bucket : String) :
    e.vblobPath bucket id = (id ++ ".blob") :: e.versionsDir bucket := by
  have ext : Plain (id ++ ".blob") := plain_append (by decide) (by decide) h
  simp [vblobPath, versionsDir, idir, join_plain ext]

theorem confine_ok {base full : FilePath} (h : confine base full = .ok p) :
    p = full ∧ base ≠ [] ∧ Below base p := by
  unfold confine at h
  split at h
  · rename_i ok
    cases h
    exact ⟨rfl, ok.1, ok.2⟩
  · cases h

section Bucket

variable {bucket key id : String} (tame : Tame bucket)

include tame

theorem root_bucketDir : e.root <:+ e.bucketDir bucket := tame.suffix_join e.root

theorem area_versionsDir : e.area "versions" <:+ e.versionsDir bucket := by
  rw [versionsDir_eq]
  exact tame.suffix_join _

theorem area_historyDir : e.area "history" <:+ e.historyDir bucket := by
  rw [historyDir_eq]
  exact tame.suffix_join _

theorem root_objectPath {op : FilePath} (h : e.objectPath bucket key = .ok op) : e.root <:+ op :=
  (root_bucketDir tame).trans (confine_ok h).2.2.1

theorem area_historyPath {hp : FilePath} (h : e.historyPath bucket key = .ok hp) :
    e.area "history" <:+ hp :=
  (area_historyDir tame).trans (confine_ok h).2.2.1

theorem area_vblobPath (h : '/' ∉ id.toList) : e.area "versions" <:+ e.vblobPath bucket id := by
  rw [vblobPath_eq h]
  exact (area_versionsDir tame).trans (List.suffix_cons _ _)

end Bucket

theorem historyPath_name {key : String} (h : e.historyPath bucket key = .ok hp) :
    ∃ name dir, hp = (name ++ ".json") :: dir := by
  rw [(confine_ok h).1]
  exact join_append (by decide) (by decide) _ _

theorem vblobPath_injective {id' : String} (h : '/' ∉ id.toList) (h' : '/' ∉ id'.toList)
    (eq : e.vblobPath bucket id = e.vblobPath bucket id') : id = id' := by
  rw [vblobPath_eq h, vblobPath_eq h'] at eq
  have := congrArg String.toList (List.cons.inj eq).1
  simp only [String.toList_append, List.append_cancel_right_eq] at this
  exact String.toList_injective this

theorem file_of_readMPU {s : Disk} {mp : MultipartUpload} (found : e.readMPU s bucket id = .ok mp) :
    ∃ f, s.file (e.mpuMetaPath bucket id) = some f := by
  unfold readMPU readUpload at found
  cases file : s.file (e.mpuMetaPath bucket id) with
  | none => simp [file] at found
  | some f => exact ⟨f, rfl⟩

end Env

end D9Store
