import Mathlib

/-!
Lexical paths of a POSIX file system.

A path is the stack of its segments, innermost first, so the directory of a path
is its tail and a path lies below another when the latter is a list suffix of it.
`join` is the lexical cleaning of `p/s`: it resolves empty, `.` and `..` segments
against the stack and never consults the disk.
-/

namespace Posix

/-- An absolute, lexically clean path, innermost segment first; `[]` is the root. -/
abbrev FilePath := List String

namespace FilePath

/-- One segment of an unclean path. Empty and `.` segments vanish; `..` drops the
innermost segment and stays put at the root. -/
def push (p : FilePath) (seg : String) : FilePath :=
  if seg = "" ∨ seg = "." then p
  else if seg = ".." then p.tail
  else seg :: p

/-- The slash-separated segments of a string, empty ones included. -/
def segments (s : String) : List String :=
  (s.toList.splitOn '/').map String.ofList

/-- The clean path of `p/s`. -/
def join (p : FilePath) (s : String) : FilePath :=
  (segments s).foldl push p

/-- Append text to the innermost segment (`path + ext` on the path's string). -/
def suffixed : FilePath → String → FilePath
  | [], ext => [ext]
  | name :: dir, ext => (name ++ ext) :: dir

/-- The slash-separated text of a list of segments, outermost first. -/
def unsegments (segs : List String) : String :=
  String.ofList (['/'].intercalate (segs.map String.toList))

/-- `p` lies strictly below `base`. -/
def Below (base p : FilePath) : Prop := base <:+ p ∧ p ≠ base

instance (base p : FilePath) : Decidable (Below base p) := by
  unfold Below; infer_instance

theorem below_cons (name : String) (p : FilePath) : Below p (name :: p) :=
  ⟨List.suffix_cons _ _, fun eq => by simpa using congrArg List.length eq⟩

variable {p : FilePath}

/-- Below a directory and not the directory above it. -/
theorem Below.of_suffix {q r : FilePath} (h : Below q r) (sub : p <:+ q) : Below p r := by
  refine ⟨sub.trans h.1, fun eq => h.2 ?_⟩
  rw [eq] at h ⊢
  exact sub.eq_of_length_le h.1.length_le

/-! ### Segments -/

/-- A segment that `push` keeps as it is. -/
def Ordinary (seg : String) : Prop := seg ≠ "" ∧ seg ≠ "." ∧ seg ≠ ".."

instance (seg : String) : Decidable (Ordinary seg) := by
  unfold Ordinary; infer_instance

/-- A name: an ordinary segment without a slash. -/
def Plain (name : String) : Prop := Ordinary name ∧ '/' ∉ name.toList

instance (name : String) : Decidable (Plain name) := by
  unfold Plain; infer_instance

/-- A slash path none of whose segments is empty, `.` or `..`. -/
def Clean (s : String) : Prop := ∀ seg ∈ segments s, Ordinary seg

instance (s : String) : Decidable (Clean s) := by
  unfold Clean; infer_instance

theorem push_ordinary {seg : String} (h : Ordinary seg) (p : FilePath) :
    push p seg = seg :: p := by
  obtain ⟨h₁, h₂, h₃⟩ := h
  simp [push, h₁, h₂, h₃]

theorem segments_ne_nil (s : String) : segments s ≠ [] := by
  simp [segments]

variable {s : String}

theorem segments_of_no_slash (h : '/' ∉ s.toList) : segments s = [s] := by
  simp [segments, List.splitOn_eq_singleton h]

theorem unsegments_segments (s : String) : unsegments (segments s) = s := by
  have texts : (s.toList.splitOn '/').map (String.toList ∘ String.ofList) = s.toList.splitOn '/' := by
    conv_rhs => rw [← List.map_id (s.toList.splitOn '/')]
    exact List.map_congr_left fun x _ => by simp
  simp only [unsegments, segments, List.map_map, texts, List.intercalate_splitOn,
    String.ofList_toList]

variable {segs : List String}

theorem segments_unsegments (ne : segs ≠ []) (noSlash : ∀ seg ∈ segs, '/' ∉ seg.toList) :
    segments (unsegments segs) = segs := by
  have split : (['/'].intercalate (segs.map String.toList)).splitOn '/' = segs.map String.toList := by
    refine List.splitOn_intercalate _ (fun l mem => ?_) (by simpa using ne)
    obtain ⟨seg, memSeg, rfl⟩ := List.mem_map.mp mem
    exact noSlash seg memSeg
  rw [segments, unsegments, String.toList_ofList, split, List.map_map]
  simp

/-- The text of a path ends like its last segment. -/
theorem unsegments_concat_append (segs : List String) (name ext : String) :
    ∃ front, unsegments (segs ++ [name ++ ext]) = front ++ ext := by
  induction segs with
  | nil => exact ⟨name, by simp [unsegments, List.intercalate]⟩
  | cons seg segs ih =>
    obtain ⟨front, eq⟩ := ih
    refine ⟨seg ++ "/" ++ front, ?_⟩
    have step : unsegments (seg :: (segs ++ [name ++ ext])) =
        seg ++ "/" ++ unsegments (segs ++ [name ++ ext]) := by
      refine String.toList_inj.mp ?_
      cases segs <;> simp [unsegments, List.intercalate]
    rw [List.cons_append, step, eq]
    simp only [String.append_assoc]

theorem segments_injective : Function.Injective segments := fun s t h => by
  rw [← unsegments_segments s, h, unsegments_segments]

/-- Text without a slash is appended to the last segment. -/
theorem segments_append {t : String} (h : '/' ∉ t.toList) :
    ∃ init last, segments s = init ++ [last] ∧ segments (s ++ t) = init ++ [last ++ t] := by
  suffices ∀ xs : List Char, ∃ init last,
      xs.splitOn '/' = init ++ [last] ∧
        (xs ++ t.toList).splitOn '/' = init ++ [last ++ t.toList] by
    obtain ⟨init, last, eq, eq'⟩ := this s.toList
    refine ⟨init.map String.ofList, String.ofList last, by simp [segments, eq], ?_⟩
    simp [segments, eq']
  intro xs
  induction xs with
  | nil => exact ⟨[], [], by simp, by simpa using List.splitOn_eq_singleton h⟩
  | cons x xs ih =>
    obtain ⟨init, last, eq, eq'⟩ := ih
    by_cases slash : x = '/'
    · refine ⟨[] :: init, last, ?_, ?_⟩
      · simp [List.splitOn_cons_eq_if_modifyHead, slash, eq]
      · simp [List.splitOn_cons_eq_if_modifyHead, slash, eq']
    · -- The head segment grows; it is also the last one when there is no other.
      cases init with
      | nil =>
        exact ⟨[], x :: last, by simp [List.splitOn_cons_eq_if_modifyHead, slash, eq],
          by simp [List.splitOn_cons_eq_if_modifyHead, slash, eq']⟩
      | cons head rest =>
        exact ⟨(x :: head) :: rest, last,
          by simp [List.splitOn_cons_eq_if_modifyHead, slash, eq],
          by simp [List.splitOn_cons_eq_if_modifyHead, slash, eq']⟩

/-! ### Joining -/

theorem join_of_no_slash (h : '/' ∉ s.toList) (p : FilePath) : p.join s = p.push s := by
  simp [join, segments_of_no_slash h]

theorem join_plain (h : Plain s) (p : FilePath) : p.join s = s :: p := by
  rw [join_of_no_slash h.2, push_ordinary h.1]

variable {ext : String}

/-- An extension makes any text an ordinary segment. -/
theorem ordinary_append (long : 2 < ext.length) (s : String) : Ordinary (s ++ ext) := by
  have len : 2 < (s ++ ext).length := by rw [String.length_append]; omega
  refine ⟨?_, ?_, ?_⟩ <;> intro eq <;> rw [eq] at len <;> revert len <;> decide

theorem plain_append (long : 2 < ext.length) (noSlash : '/' ∉ ext.toList) (h : '/' ∉ s.toList) :
    Plain (s ++ ext) :=
  ⟨ordinary_append long s, by simp [h, noSlash]⟩

theorem plain_of_long (long : 2 < s.length) (noSlash : '/' ∉ s.toList) : Plain s := by
  have := plain_append (s := "") long noSlash (by decide)
  simpa using this

/-- Text with an extension joins to a path whose name carries the extension. -/
theorem join_append (noSlash : '/' ∉ ext.toList) (long : 2 < ext.length) (p : FilePath) (s : String) :
    ∃ name dir, p.join (s ++ ext) = (name ++ ext) :: dir := by
  obtain ⟨init, last, -, segs⟩ := segments_append (s := s) noSlash
  refine ⟨last, init.foldl push p, ?_⟩
  rw [join, segs, List.foldl_append]
  simp [push_ordinary (ordinary_append long last)]

theorem foldl_push_ordinary (h : ∀ seg ∈ segs, Ordinary seg) (p : FilePath) :
    segs.foldl push p = segs.reverse ++ p := by
  induction segs generalizing p with
  | nil => rfl
  | cons seg segs ih =>
    rw [List.foldl_cons, push_ordinary (h seg List.mem_cons_self),
      ih (fun x mem => h x (List.mem_cons_of_mem seg mem))]
    simp

/-- Where a walk along segments ends: on segments it has pushed, above what it has left of its
start. -/
theorem foldl_push_split (segs : List String) (p : FilePath) :
    ∃ pushed base, segs.foldl push p = pushed ++ base ∧ base <:+ p ∧
      ∀ seg ∈ pushed, Ordinary seg ∧ seg ∈ segs := by
  induction segs using List.reverseRecOn with
  | nil => exact ⟨[], p, rfl, List.suffix_rfl, by simp⟩
  | append_singleton segs seg ih =>
    obtain ⟨pushed, base, eq, sub, own⟩ := ih
    have own' : ∀ x ∈ pushed, Ordinary x ∧ x ∈ segs ++ [seg] := fun x mem =>
      ⟨(own x mem).1, List.mem_append_left _ (own x mem).2⟩
    rw [List.foldl_append, eq, List.foldl_cons, List.foldl_nil, push]
    split
    · exact ⟨pushed, base, rfl, sub, own'⟩
    · rename_i there
      split
      · cases pushed with
        | nil => exact ⟨[], base.tail, rfl, (List.tail_suffix base).trans sub, by simp⟩
        | cons x pushed =>
          exact ⟨pushed, base, rfl, sub, fun y mem => own' y (List.mem_cons_of_mem _ mem)⟩
      · rename_i notUp
        refine ⟨seg :: pushed, base, rfl, sub, fun x mem => ?_⟩
        rcases List.mem_cons.mp mem with rfl | mem
        · exact ⟨⟨fun h => there (.inl h), fun h => there (.inr h), notUp⟩, by simp⟩
        · exact own' x mem

theorem no_slash_of_mem_segments {seg : String} (mem : seg ∈ segments s) : '/' ∉ seg.toList := by
  suffices ∀ xs : List Char, ∀ l ∈ xs.splitOn '/', '/' ∉ l by
    obtain ⟨l, meml, rfl⟩ := List.mem_map.mp mem
    rw [String.toList_ofList]
    exact this s.toList l meml
  intro xs
  induction xs with
  | nil => simp
  | cons c xs ih =>
    intro l meml
    rw [List.splitOn_cons_eq_if_modifyHead] at meml
    split at meml
    · rcases List.mem_cons.mp meml with rfl | meml
      · simp
      · exact ih l meml
    · rename_i other
      cases rest : xs.splitOn '/' with
      | nil => exact absurd rest (List.splitOn_ne_nil _ _)
      | cons first rest' =>
        rw [rest] at meml ih
        rw [List.modifyHead_cons] at meml
        rcases List.mem_cons.mp meml with rfl | meml
        · have := ih first List.mem_cons_self
          simp only [beq_iff_eq] at other
          simp [Ne.symm other, this]
        · exact ih l (List.mem_cons_of_mem _ meml)

theorem join_clean (h : Clean s) (p : FilePath) : p.join s = (segments s).reverse ++ p :=
  foldl_push_ordinary h p

theorem below_join_clean (h : Clean s) (p : FilePath) : Below p (p.join s) := by
  rw [join_clean h]
  refine ⟨List.suffix_append _ _, fun eq => ?_⟩
  have := congrArg List.length eq
  simp only [List.length_append, List.length_reverse, Nat.add_eq_right] at this
  exact segments_ne_nil s (List.eq_nil_of_length_eq_zero this)

theorem join_clean_injective {t : String} (hs : Clean s) (ht : Clean t) (eq : p.join s = p.join t) :
    s = t := by
  rw [join_clean hs, join_clean ht, List.append_cancel_right_eq] at eq
  exact segments_injective (List.reverse_injective eq)

/-! ### Suffixed names -/

theorem Clean.append (h : Clean s) (noSlash : '/' ∉ ext.toList) (long : 2 < ext.length) :
    Clean (s ++ ext) := by
  obtain ⟨init, last, eq, eq'⟩ := segments_append (s := s) noSlash
  rw [Clean, eq] at h
  rw [Clean, eq']
  intro seg mem
  rcases List.mem_append.mp mem with mem | mem
  · exact h seg (List.mem_append_left _ mem)
  · rw [List.mem_singleton.mp mem]
    exact ordinary_append long last

/-- Extending a clean name extends the innermost segment. -/
theorem join_suffixed (h : Clean s) (noSlash : '/' ∉ ext.toList) (long : 2 < ext.length)
    (p : FilePath) : p.join (s ++ ext) = (p.join s).suffixed ext := by
  obtain ⟨init, last, eq, eq'⟩ := segments_append (s := s) noSlash
  rw [join_clean (h.append noSlash long), join_clean h, eq, eq']
  simp [suffixed]

theorem suffixed_tail (ext : String) (h : p ≠ []) : (p.suffixed ext).tail = p.tail := by
  cases p with
  | nil => exact absurd rfl h
  | cons name dir => rfl

theorem suffixed_ne (h : ext ≠ "") : p.suffixed ext ≠ p := by
  cases p with
  | nil => simp [suffixed]
  | cons name dir =>
    intro eq
    have len := congrArg String.length (List.cons.inj eq).1
    rw [String.length_append] at len
    exact h (String.length_eq_zero_iff.mp (by omega))

theorem suffixed_ne_nil (p : FilePath) (ext : String) : p.suffixed ext ≠ [] := by
  cases p <;> simp [suffixed]

theorem length_le_suffixed (p : FilePath) (ext : String) : p.length ≤ (p.suffixed ext).length := by
  cases p <;> simp [suffixed]

/-- A path at least as long as `p` is no directory on the way to `p`. -/
theorem not_suffix_tail {q : FilePath} (proper : p ≠ []) (long : p.length ≤ q.length) :
    ¬ q <:+ p.tail := fun h => by
  have len := h.length_le
  have pos := List.length_pos_iff.mpr proper
  rw [List.length_tail] at len
  omega

theorem tail_ne_suffixed (p : FilePath) (ext : String) : p.tail ≠ p.suffixed ext := fun eq => by
  have len := congrArg List.length eq
  cases p <;> simp [suffixed] at len

/-- A path keeps what it lies strictly below when its name is extended. -/
theorem below_suffixed {base : FilePath} (ext : String) (h : Below base p) :
    base <:+ p.suffixed ext := by
  obtain ⟨⟨r, rfl⟩, ne⟩ := h
  cases r with
  | nil => exact absurd rfl ne
  | cons name r => exact ⟨(name ++ ext) :: r, rfl⟩

/-- Two names with different endings of one length differ. -/
theorem ext_ne {x y a b : String} (len : a.length = b.length) (ne : a ≠ b) : x ++ a ≠ y ++ b := by
  intro eq
  have texts := congrArg String.toList eq
  simp only [String.toList_append] at texts
  refine ne (String.toList_injective ?_)
  exact (List.append_inj_right' texts (by rw [String.length_toList, String.length_toList, len]))

/-- Two tops of one tree are comparable. -/
theorem suffix_total {q r : FilePath} (hp : p <:+ r) (hq : q <:+ r) : p <:+ q ∨ q <:+ p := by
  rcases Nat.le_total p.length q.length with le | le
  · exact .inl (List.suffix_of_suffix_length_le hp hq le)
  · exact .inr (List.suffix_of_suffix_length_le hq hp le)

theorem Below.ne_nil {base : FilePath} (h : Below base p) : p ≠ [] := by
  rintro rfl
  exact h.2 (List.suffix_nil.mp h.1).symm

theorem Below.suffix_tail {base : FilePath} (h : Below base p) : base <:+ p.tail := by
  obtain ⟨⟨r, rfl⟩, ne⟩ := h
  cases r with
  | nil => exact absurd rfl ne
  | cons x r => exact ⟨r, rfl⟩

end FilePath

end Posix
