import D9Store.Key.Clean

/-!
Keys and paths.

The path of a key is cleaned: empty, `.` and `..` segments disappear. On keys without such
segments the mapping is one to one and the walks report the key itself; any other key that is
accepted shares its path with one of them.
-/

namespace D9Store

open Posix FilePath

namespace Env

variable {e : Env} {bucket key key' name : String} {base op dir hp : FilePath} {α : Type}
    {keys : Set String}

/-- The key a walk reports for a path is the key it was made of exactly when that is clean. -/
theorem relKey_join_iff (below : Below base (base.join key)) :
    relKey base (base.join key) = key ↔ Clean key := by
  refine ⟨fun same => ?_, fun clean => relKey_join clean base⟩
  obtain ⟨pushed, left, eq, sub, own⟩ := foldl_push_split (segments key) base
  have place : base.join key = pushed ++ left := eq
  obtain ⟨rel, split⟩ := below.1
  have ne : rel ≠ [] := fun empty => below.2 (by rw [← split, empty, List.nil_append])
  -- what lies above the start was pushed by the key
  have mem : ∀ seg ∈ rel, seg ∈ pushed := by
    have lengths := congrArg List.length (split.trans place)
    simp only [List.length_append] at lengths
    have short : rel.length ≤ pushed.length := by
      have := sub.length_le
      omega
    have front : rel = pushed.take rel.length := by
      have := congrArg (List.take rel.length) (split.trans place)
      rwa [List.take_left' rfl, List.take_append_of_le_length short] at this
    intro seg mem
    rw [front] at mem
    exact List.mem_of_mem_take mem
  have segs : segments key = rel.reverse := by
    rw [← same, relKey, if_neg below.2, ← split, List.length_append, Nat.add_sub_cancel,
      List.take_left' rfl]
    exact segments_unsegments (by simpa using ne) fun seg h =>
      no_slash_of_mem_segments (own seg (mem seg (by simpa using h))).2
  intro seg h
  rw [segs] at h
  exact (own seg (mem seg (by simpa using h))).1

theorem relKey_objectPath_iff (place : e.objectPath bucket key = .ok op) :
    relKey (e.bucketDir bucket) op = key ↔ Clean key := by
  obtain ⟨rfl, -, below⟩ := confine_ok place
  exact relKey_join_iff below

theorem objectPath_injective (clean : Clean key) (clean' : Clean key')
    (place : e.objectPath bucket key = .ok op) (place' : e.objectPath bucket key' = .ok op) :
    key = key' := by
  rw [← (relKey_objectPath_iff place).mpr clean, (relKey_objectPath_iff place').mpr clean']

/-- A file that ends in `.json` is reported with that ending. -/
theorem relKey_json (below : Below base op) (eq : op = (name ++ ".json") :: dir) :
    ∃ front, relKey base op = front ++ ".json" := by
  obtain ⟨rel, rfl⟩ := below.1
  have ne : rel ≠ [] := fun empty => below.2 (by rw [empty, List.nil_append])
  obtain ⟨first, rest, rfl⟩ := List.exists_cons_of_ne_nil ne
  obtain rfl : first = name ++ ".json" := (List.cons.inj eq).1
  rw [relKey, if_neg below.2, List.length_append, Nat.add_sub_cancel, List.take_left' rfl,
    List.reverse_cons]
  exact unsegments_concat_append rest.reverse name ".json"

/-! ### History files -/

/-- The key `walkAllKeys` reports for a history file. -/
def historyKey (base p : FilePath) : String := ((relKey base p).dropEnd 5).toString

theorem dropEnd_json (s : String) : ((s ++ ".json").dropEnd 5).toString = s := by
  refine String.toList_inj.mp ?_
  have drop := String.toList_copy_dropEnd (s := s ++ ".json") (n := 5)
  rw [show ((s ++ ".json").dropEnd 5).toString = ((s ++ ".json").dropEnd 5).copy from rfl, drop]
  simp

theorem join_json (p : FilePath) (key : String) :
    ∃ name dir, p.join (key ++ ".json") = (name ++ ".json") :: dir :=
  join_append (by decide) (by decide) p key

/-- The key reported for a history file is the one it was made of exactly when its name is clean. -/
theorem historyKey_iff (place : e.historyPath bucket key = .ok hp) :
    historyKey (e.historyDir bucket) hp = key ↔ Clean (key ++ ".json") := by
  obtain ⟨rfl, -, below⟩ := confine_ok place
  rw [← relKey_join_iff below, historyKey]
  constructor
  · intro same
    obtain ⟨name, dir, eq⟩ := join_json (e.historyDir bucket) key
    obtain ⟨front, rel⟩ := relKey_json below eq
    rw [rel, dropEnd_json] at same
    rw [rel, same]
  · intro same
    rw [same, dropEnd_json]

theorem historyPath_injective (clean : Clean (key ++ ".json")) (clean' : Clean (key' ++ ".json"))
    (place : e.historyPath bucket key = .ok hp) (place' : e.historyPath bucket key' = .ok hp) :
    key = key' := by
  rw [← (historyKey_iff place).mpr clean, (historyKey_iff place').mpr clean']

theorem endsWith_json (s : String) : (s ++ ".json").endsWith ".json" = true := by
  rw [← String.endsWith_toSlice, String.Slice.endsWith_string_iff]
  simp

theorem historyKey_mem_walkAllKeys (place : e.historyPath bucket key = .ok hp) {s : Disk} {f : File}
    (file : s.file hp = some f) : historyKey (e.historyDir bucket) hp ∈ e.walkAllKeys s bucket := by
  obtain ⟨rfl, -, below⟩ := confine_ok place
  refine mem_sorted.mpr (Finset.mem_image_of_mem _ (Finset.mem_filter.mpr ⟨?_, ?_⟩))
  · exact DirTree.mem_filesBelow.mpr ⟨below.1, f, file⟩
  · obtain ⟨name, dir, eq⟩ := join_json (e.historyDir bucket) key
    rw [eq]
    exact endsWith_json name

/-! ### One to one -/

/-- Keys and places of a bucket correspond: no two keys share an object or a history path, the
walks report the key for its files, and no put goes through the object file of another key. -/
structure OneToOne (e : Env) (bucket : String) (keys : Set String) : Prop where
  objects : ∀ key ∈ keys, ∀ key' ∈ keys, ∀ op, e.objectPath bucket key = .ok op →
    e.objectPath bucket key' = .ok op → key = key'
  histories : ∀ key ∈ keys, ∀ key' ∈ keys, ∀ hp, e.historyPath bucket key = .ok hp →
    e.historyPath bucket key' = .ok hp → key = key'
  objectKey : ∀ key ∈ keys, ∀ op, e.objectPath bucket key = .ok op →
    relKey (e.bucketDir bucket) op = key ∧
      ∀ s f, s.file op = some f → key ∈ e.walkObjectTree s bucket
  historyKey : ∀ key ∈ keys, ∀ hp, e.historyPath bucket key = .ok hp →
    historyKey (e.historyDir bucket) hp = key ∧
      ∀ s f, s.file hp = some f → key ∈ e.walkAllKeys s bucket
  /-- Between volumes a payload arrives through the temporary file beside its target. -/
  spared : e.separateVolumes = true → ∀ key ∈ keys, ∀ key' ∈ keys, ∀ op op',
    e.objectPath bucket key = .ok op → e.objectPath bucket key' = .ok op' → op' ≠ tmpOf op

/-- The keys whose paths survive cleaning, none of them the temporary name of another. -/
structure Proper (e : Env) (bucket : String) (keys : Set String) : Prop where
  object : ∀ key ∈ keys, (e.objectPath bucket key).isOk → Clean key
  history : ∀ key ∈ keys, (e.historyPath bucket key).isOk → Clean (key ++ ".json")
  temporary : e.separateVolumes = true → ∀ key ∈ keys, ∀ key' ∈ keys,
    (e.objectPath bucket key).isOk → (e.objectPath bucket key').isOk → key' ≠ key ++ ".d9tmp"

theorem isOk_of_eq {x : Except Err α} {a : α} (h : x = .ok a) : x.isOk = true := by
  rw [h]; rfl

theorem eq_of_isOk {x : Except Err α} (h : x.isOk = true) : ∃ a, x = .ok a := by
  cases x with
  | error err => cases h
  | ok a => exact ⟨a, rfl⟩

theorem OneToOne.proper (h : OneToOne e bucket keys) : Proper e bucket keys := by
  have clean : ∀ key ∈ keys, (e.objectPath bucket key).isOk → Clean key := by
    intro key mem ok
    obtain ⟨op, place⟩ := eq_of_isOk ok
    exact (relKey_objectPath_iff place).mp (h.objectKey key mem op place).1
  refine ⟨clean, fun key mem ok => ?_, fun cross key mem key' mem' ok ok' eq => ?_⟩
  · obtain ⟨hp, place⟩ := eq_of_isOk ok
    exact (historyKey_iff place).mp (h.historyKey key mem hp place).1
  · obtain ⟨op, place⟩ := eq_of_isOk ok
    obtain ⟨op', place'⟩ := eq_of_isOk ok'
    refine h.spared cross key mem key' mem' op op' place place' ?_
    obtain ⟨rfl, -, -⟩ := confine_ok place
    obtain ⟨rfl, -, -⟩ := confine_ok place'
    rw [tmpOf_join (clean key mem ok), eq]

theorem Proper.oneToOne (h : Proper e bucket keys) : OneToOne e bucket keys  where
  objects key mem key' mem' op place place' :=
    objectPath_injective (h.object key mem (isOk_of_eq place)) (h.object key' mem' (isOk_of_eq place'))
      place place'
  histories key mem key' mem' hp place place' :=
    historyPath_injective (h.history key mem (isOk_of_eq place))
      (h.history key' mem' (isOk_of_eq place')) place place'
  objectKey key mem op place := by
    have same := (relKey_objectPath_iff place).mpr (h.object key mem (isOk_of_eq place))
    refine ⟨same, fun s f file => ?_⟩
    obtain ⟨rfl, -, below⟩ := confine_ok place
    rw [← same]
    exact mem_sorted.mpr (Finset.mem_image_of_mem _ (DirTree.mem_filesBelow.mpr ⟨below.1, f, file⟩))
  historyKey key mem hp place := by
    have same := (historyKey_iff place).mpr (h.history key mem (isOk_of_eq place))
    refine ⟨same, fun s f file => ?_⟩
    have found := historyKey_mem_walkAllKeys place file
    rwa [same] at found
  spared cross key mem key' mem' op op' place place' eq := by
    have ok := isOk_of_eq place
    have ok' := isOk_of_eq place'
    refine h.temporary cross key mem key' mem' ok ok' ?_
    obtain ⟨rfl, -, -⟩ := confine_ok place
    obtain ⟨rfl, -, -⟩ := confine_ok place'
    rw [tmpOf_join (h.object key mem ok)] at eq
    exact join_clean_injective (h.object key' mem' ok')
      ((h.object key mem ok).append (by decide) (by decide)) eq

/-- Keys and paths correspond one to one exactly among the proper keys. -/
theorem one_to_one_iff_proper (e : Env) (bucket : String) (keys : Set String) :
    OneToOne e bucket keys ↔ Proper e bucket keys :=
  ⟨OneToOne.proper, Proper.oneToOne⟩

/-- Two spellings of one path: the second put overwrites the first object, and only one key is
listed. -/
theorem spellings_share_path :
    (smallEnv false).objectPath "b" "a//c" = (smallEnv false).objectPath "b" "a/c" ∧
      ((smallEnv false).objectPath "b" "a//c").isOk ∧
      ¬ OneToOne (smallEnv false) "b" {"a//c", "a/c"} := by
  have same : (smallEnv false).objectPath "b" "a//c" = (smallEnv false).objectPath "b" "a/c" := by
    decide +kernel
  have ok : ((smallEnv false).objectPath "b" "a//c").isOk := by decide +kernel
  refine ⟨same, ok, fun h => ?_⟩
  obtain ⟨op, place⟩ := eq_of_isOk ok
  have := h.objects "a//c" (by simp) "a/c" (by simp) op place (same ▸ place)
  revert this
  decide

end Env

end D9Store
