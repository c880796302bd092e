import D9Store.Node.Restore

/-!
What a restored disk has in common with the one its snapshot was taken of. The two nodes may keep
their trees in different places.

The sweep leaves no replicated object file and nothing of the histories, blobs, configurations
and uploads. The archive brings back the files, and the directories on the way to them.
-/

namespace D9Store

open Posix FilePath

namespace Env

variable {e e' : Env} {s s' s₁ t : Disk} {q rel : FilePath} {bucket : String}

/-! ### The sweep -/

/-- The names in the data tree are names of files. -/
def Regular (e : Env) (s : Disk) : Prop :=
  ∀ q ∈ s.filesBelow e.root, ∀ seg ∈ q.take (q.length - e.root.length), Plain seg

instance : Decidable (Regular e s) := by
  unfold Regular; infer_instance

/-- The key of an object file leads back to it. -/
theorem objectPath_relKey (plain : Plain bucket) (ne : rel ≠ []) (names : ∀ seg ∈ rel, Plain seg) :
    e.objectPath bucket (relKey (e.bucketDir bucket) (rel ++ e.bucketDir bucket)) =
      .ok (rel ++ e.bucketDir bucket) := by
  have other : rel ++ e.bucketDir bucket ≠ e.bucketDir bucket := fun eq => ne (by simpa using eq)
  have key : segments (relKey (e.bucketDir bucket) (rel ++ e.bucketDir bucket)) = rel.reverse := by
    rw [relKey, if_neg other, List.length_append, Nat.add_sub_cancel, List.take_left']
    · exact segments_unsegments (by simpa using ne) fun seg mem => (names seg (by simpa using mem)).2
    · rfl
  have clean : Clean (relKey (e.bucketDir bucket) (rel ++ e.bucketDir bucket)) := by
    intro seg mem
    rw [key] at mem
    exact (names seg (by simpa using mem)).1
  have tame : Tame bucket := ⟨plain.2, plain.1.2.2⟩
  have here : (e.bucketDir bucket).join (relKey (e.bucketDir bucket) (rel ++ e.bucketDir bucket)) =
      rel ++ e.bucketDir bucket := by
    rw [join_clean clean, key, List.reverse_reverse]
  rw [objectPath, confine, here, if_pos]
  exact ⟨bucketDir_ne_nil tame, List.suffix_append _ _, other⟩

theorem mem_walkObjectTree_relKey (below : e.bucketDir bucket <:+ q) {f : File}
    (file : s.file q = some f) : relKey (e.bucketDir bucket) q ∈ e.walkObjectTree s bucket :=
  mem_sorted.mpr (Finset.mem_image_of_mem _ (DirTree.mem_filesBelow.mpr ⟨below, f, file⟩))

/-- No replicated object file is left in a bucket. -/
theorem removeReplicated_data (regular : Regular e s)
    (run : e.removeReplicatedObjectFiles s = .ok () t) (plain : Plain bucket)
    (below : Below (bucket :: e.root) q) {g : File} (file : t.file q = some g) :
    s.file q = some g ∧ g.xattrs.managed = false := by
  obtain ⟨t', run', swept, gone⟩ := removeManagedIn_spec (e := e)
    ((sorted (s.children e.root)).filter fun name => s.isDir (name :: e.root)) s
  have all : e.removeReplicatedObjectFiles s = .ok () t' :=
    bind_ok.mpr ⟨_, s, reading_run rfl, run'⟩
  cases run.symm.trans all
  have before := swept.kept q g file
  refine ⟨before, ?_⟩
  by_contra managed
  have dir : s.get (bucket :: e.root) = some .dir :=
    DirTree.get_ancestor (by simp [DirTree.file_eq_some.mp before]) below.1 (Ne.symm below.2)
  have mem : bucket ∈ (sorted (s.children e.root)).filter fun name => s.isDir (name :: e.root) := by
    refine List.mem_filter.mpr ⟨mem_sorted.mpr ?_, DirTree.isDir_iff.mpr dir⟩
    refine Finset.mem_image.mpr ⟨bucket :: e.root, Finset.mem_filter.mpr ⟨?_, by simp⟩, rfl⟩
    exact (s.mem_dom _).mpr (by simp [dir])
  obtain ⟨s₂, -, after, free⟩ := gone bucket mem
  have file₂ := after.kept q g file
  have place : e.bucketDir bucket = bucket :: e.root := join_plain plain _
  obtain ⟨rel, rfl⟩ := below.1
  have key : relKey (e.bucketDir bucket) (rel ++ bucket :: e.root) ∈ e.walkObjectTree s₂ bucket :=
    mem_walkObjectTree_relKey (by rw [place]; exact List.suffix_append rel _) file₂
  rw [← place] at key file
  refine free _ key _ (objectPath_relKey plain (fun empty => ?_) fun seg mem => ?_) ⟨g, file, by simpa using managed⟩
  · rw [empty] at below
    exact below.2 rfl
  · refine regular _ (DirTree.mem_filesBelow.mpr ⟨?_, g, before⟩) seg ?_
    · exact (List.suffix_cons _ _).trans (List.suffix_append _ _)
    · rw [show rel ++ bucket :: e.root = (rel ++ [bucket]) ++ e.root by simp, List.length_append,
        Nat.add_sub_cancel, List.take_left' rfl]
      exact List.mem_append_left _ mem

theorem plain_resetDirs : ∀ d ∈ resetDirs, Plain d := by decide

theorem resetDirs_carried : ∀ d ∈ resetDirs, d ∉ snapSkip ∧ d ∈ stateDirs := by decide

theorem plain_stateDirs : ∀ d ∈ stateDirs, Plain d := by decide

theorem mkdirAll_clear (p : FilePath) (s : Disk) :
    wp (sys (mkdirAll p)) (fun _ t => ∀ q, q <:+ p → t.file q = none) (fun _ _ => True) s := by
  rw [wp_sys]
  refine wp_cases (fun _ t made => ?_) fun _ _ _ => trivial
  obtain ⟨clear, rfl⟩ := mkdirAll_ok made
  intro q sub
  rw [DirTree.file_addDirs clear q]
  exact clear q sub

theorem mkdirEach_clear {ps : List FilePath} (run : mkdirEach ps s = .ok () t) :
    ∀ p ∈ ps, ∀ q, q <:+ p → t.file q = none := by
  induction ps generalizing s with
  | nil => simp
  | cons p rest ih =>
    obtain ⟨⟨⟩, s₁, run₁, run₂⟩ := bind_ok.mp run
    have frame := wp_ok (mkdirEach_wp rest s₁) run₂
    intro p' mem q sub
    rcases List.mem_cons.mp mem with rfl | mem
    · rw [frame.file q (Set.notMem_empty _)]
      exact wp_ok (mkdirAll_clear p' s) run₁ q sub
    · exact ih run₂ p' mem q sub

/-- What the sweep leaves. -/
structure Bare (e : Env) (s s₁ : Disk) : Prop where
  /-- Only prefilled files are left in the buckets. -/
  data : Regular e s → ∀ bucket, Plain bucket → ∀ q, Below (bucket :: e.root) q → ∀ g, s₁.file q = some g →
    s.file q = some g ∧ g.xattrs.managed = false
  dataDir : ∀ q, Below e.root q → s₁.get q = some .dir → s.get q = some .dir
  state : ∀ kind ∈ resetDirs, ∀ q, Below (e.area kind) q → s₁.get q = none
  areas : ∀ kind ∈ stateDirs, ∀ q, q <:+ e.area kind → s₁.file q = none

theorem sweep_bare (run : e.sweep s = .ok () s₁) : Bare e s s₁ := by
  obtain ⟨⟨⟩, s₂, run₂, run⟩ := bind_ok.mp run
  obtain ⟨⟨⟩, s₃, run₃, run₄⟩ := bind_ok.mp run
  obtain ⟨s₃', run₃', get⟩ := removeAllEach_spec (resetDirs.map fun d => e.idir [d]) s₂
  cases run₃.symm.trans run₃'
  have frame := wp_ok (mkdirEach_wp _ s₃) run₄
  have swept : Cleared s s₂ := by
    obtain ⟨s₂', run₂', swept⟩ := removeReplicatedObjectFiles_spec (e := e) s
    cases run₂.symm.trans run₂'
    exact swept
  have kept : ∀ q, e.root <:+ q → s₃.get q = s₂.get q := fun q data => by
    rw [get, if_neg]
    rintro ⟨⟨p, mem, sub⟩, -⟩
    obtain ⟨d, dmem, rfl⟩ := List.mem_map.mp mem
    rw [idir_single (plain_resetDirs d dmem)] at sub
    exact data_not_area data sub rfl
  have made : ∀ q p, p ∈ stateDirs.map (fun d => e.idir [d]) → q <:+ p → ∃ d, q <:+ e.area d := by
    rintro q p mem sub
    obtain ⟨d, dmem, rfl⟩ := List.mem_map.mp mem
    rw [idir_single (plain_stateDirs d dmem)] at sub
    exact ⟨d, sub⟩
  refine ⟨fun regular bucket plain q below g file => ?_, fun q below dir => ?_, fun kind mem q below => ?_,
    fun kind mem q sub => ?_⟩
  · rw [frame.file q (Set.notMem_empty _),
      DirTree.file_of_get_eq (kept q ((List.suffix_cons _ _).trans below.1))] at file
    exact removeReplicated_data regular run₂ plain below file
  · refine swept.frame.dir q (Set.notMem_empty _) ?_
    rw [← kept q below.1]
    refine frame.dir q ?_ dir
    rintro ⟨p, mem, sub⟩
    obtain ⟨d, sub⟩ := made q p mem sub
    rcases List.suffix_cons_iff.mp sub with eq | sub
    · have area : e.area d <:+ q := by
        rw [eq]
        exact List.suffix_rfl
      exact data_not_area below.1 area rfl
    · exact e.state_outside (below.1.trans sub)
  · have none : s₃.get q = none := by
      rw [get, if_pos]
      refine ⟨⟨e.area kind, List.mem_map.mpr ⟨kind, mem, idir_single (plain_resetDirs kind mem)⟩,
        below.1⟩, ?_⟩
      rintro rfl
      exact below.2 (List.suffix_nil.mp below.1).symm
    rcases node : s₁.get q with _ | _ | f
    · rfl
    · have := frame.dir q ?_ node
      · rw [none] at this
        cases this
      · rintro ⟨p, mem', sub⟩
        obtain ⟨d, sub⟩ := made q p mem' sub
        have long := below.1.length_le.trans sub.length_le
        have same : q.length = (e.area kind).length := by
          have := below.1.length_le
          have := sub.length_le
          simp only [area, List.length_cons] at *
          omega
        exact below.2 (below.1.eq_of_length same.symm).symm
    · have := frame.file q (Set.notMem_empty _)
      rw [DirTree.file_eq_some.mpr node, DirTree.file, none] at this
      cases this
  · exact mkdirEach_clear run₄ (e.area kind)
      (List.mem_map.mpr ⟨kind, mem, idir_single (plain_stateDirs kind mem)⟩) q sub

/-! ### The extraction -/

theorem extractAll_frame {archive : Archive} (run : e.extractAll archive s = .ok () t) :
    Framed (e.targets archive) {q | ∃ entry ∈ archive, q <:+ (e.target entry).tail} s t := by
  induction archive generalizing s with
  | nil =>
    cases run
    exact Framed.refl _
  | cons entry rest ih =>
    obtain ⟨⟨⟩, s₁, run₁, run₂⟩ := bind_ok.mp run
    obtain ⟨frame, -⟩ := wp_ok (extract_wp entry s) run₁
    refine (frame.mono ?_ ?_).trans ((ih run₂).mono ?_ ?_)
    · rintro q rfl
      exact ⟨entry, List.mem_cons_self, rfl⟩
    · exact fun q sub => ⟨entry, List.mem_cons_self, sub⟩
    · rintro q ⟨b, mem, eq⟩
      exact ⟨b, List.mem_cons_of_mem _ mem, eq⟩
    · rintro q ⟨b, mem, sub⟩
      exact ⟨b, List.mem_cons_of_mem _ mem, sub⟩

/-! ### The whole restoration -/

/-- What a restoration by `e` of the snapshot `e'` took of `s'` makes of the swept disk. -/
structure Restores (e e' : Env) (s' s₁ t : Disk) : Prop where
  carried : ∀ part rel f, Carried part rel → s'.file (rel ++ e'.sectionRoot part) = some f →
    content t (rel ++ e.sectionRoot part) = some f.content
  other : ∀ q, (∀ part rel, Carried part rel → q = rel ++ e.sectionRoot part →
    s'.file (rel ++ e'.sectionRoot part) = none) → t.file q = s₁.file q
  dir : ∀ q, t.get q = some .dir → s₁.get q = some .dir ∨
    ∃ part rel f, Below q (rel ++ e.sectionRoot part) ∧ s'.file (rel ++ e'.sectionRoot part) = some f

theorem restoreDisk_restores (run : e.restoreDisk (e'.snapshotTo s') s = .ok () t) :
    ∃ s₁, e.sweep s = .ok () s₁ ∧ Restores e e' s' s₁ t := by
  rw [restoreDisk_eq] at run
  obtain ⟨⟨⟩, s₁, swept, run⟩ := bind_ok.mp run
  obtain ⟨others, entries⟩ := extractAll_ok (distinct_snapshotTo s') run
  refine ⟨s₁, swept, fun part rel f carried file => ?_, fun q out => ?_, fun q dir => ?_⟩
  · have mem : ⟨part, rel, f.content, if part = .data then f.xattrs else {}⟩ ∈ e'.snapshotTo s' :=
      mem_snapshotTo.mpr ⟨carried, f, file, rfl, rfl⟩
    have now := entries _ mem
    rw [target] at now
    rw [content, now]
    cases s₁.file (rel ++ e.sectionRoot part) <;> simp [extracted, written]
  · refine others q ?_
    rintro ⟨entry, mem, rfl⟩
    obtain ⟨carried, f, file, -⟩ := mem_snapshotTo.mp mem
    cases (out _ _ carried rfl).symm.trans file
  · by_cases before : s₁.get q = some .dir
    · exact .inl before
    · by_contra none
      refine before ((extractAll_frame run).dir q ?_ dir)
      rintro ⟨entry, mem, sub⟩
      obtain ⟨carried, f, file, -⟩ := mem_snapshotTo.mp mem
      refine none (.inr ⟨entry.part, entry.rel, f, ⟨sub.trans (List.tail_suffix _), fun eq => ?_⟩, file⟩)
      have pos := List.length_pos_iff.mpr carried.1
      have short := sub.length_le
      rw [← eq, target, List.length_tail, List.length_append] at short
      omega

namespace Restores

variable {kind : String} {rel : FilePath}

theorem append_area : rel ++ e.area kind = (rel ++ [kind]) ++ e.sectionRoot .state := by
  simp [area, sectionRoot]

theorem other_at {part : Section} (h : Restores e e' s' s₁ t)
    (none : s'.file (rel ++ e'.sectionRoot part) = none) :
    t.file (rel ++ e.sectionRoot part) = s₁.file (rel ++ e.sectionRoot part) := by
  refine h.other _ fun part' rel' _ eq => ?_
  obtain ⟨rfl, rfl⟩ := section_inj eq
  exact none

/-- Below a state directory that is made anew there are the files of the snapshot. -/
theorem content_state (h : Restores e e' s' s₁ t) (bare : Bare e s s₁) (mem : kind ∈ resetDirs)
    (ne : rel ≠ []) : content t (rel ++ e.area kind) = content s' (rel ++ e'.area kind) := by
  cases file : s'.file (rel ++ e'.area kind) with
  | some f =>
    have carried : Carried .state (rel ++ [kind]) :=
      ⟨by simp, fun _ => by simpa using (resetDirs_carried kind mem).1⟩
    rw [content.eq_def s', file, append_area]
    rw [append_area] at file
    exact h.carried _ _ f carried file
  | none =>
    have below : Below (e.area kind) (rel ++ e.area kind) := ⟨List.suffix_append _ _, by simpa using ne⟩
    have same : t.file (rel ++ e.area kind) = s₁.file (rel ++ e.area kind) := by
      rw [append_area] at file ⊢
      exact h.other_at file
    rw [content, content, same, file, DirTree.file, bare.state kind mem _ below]

/-- A directory is there only when the snapshotted disk has one. -/
theorem dir_state (h : Restores e e' s' s₁ t) (bare : Bare e s s₁) (mem : kind ∈ resetDirs)
    (ne : rel ≠ []) (dir : t.get (rel ++ e.area kind) = some .dir) :
    s'.get (rel ++ e'.area kind) = some .dir := by
  rcases h.dir _ dir with before | ⟨part, rel', f, under, file⟩
  · rw [bare.state kind mem _ ⟨List.suffix_append _ _, by simpa using ne⟩] at before
    cases before
  · obtain ⟨up, eq⟩ := under.1
    rw [append_area, ← List.append_assoc] at eq
    obtain ⟨rfl, rfl⟩ := section_inj eq
    rw [List.append_assoc, ← append_area] at file under
    refine DirTree.get_ancestor (by simp [DirTree.file_eq_some.mp file]) (List.suffix_append up _)
      fun same => under.2 ?_
    have empty : up = [] := by simpa using same
    rw [empty, List.nil_append]

theorem file_above (h : Restores e e' s' s₁ t) (bare : Bare e s s₁) (mem : kind ∈ resetDirs)
    (seat : s'.file (e'.area kind) = none) (above : q <:+ e.area kind) : t.file q = none := by
  rw [h.other q fun part rel carried eq => ?_]
  · exact bare.areas kind (resetDirs_carried kind mem).2 q above
  · rw [eq] at above
    cases part with
    | data =>
      have data : e.root <:+ e.area kind := (List.suffix_append rel e.root).trans above
      exact absurd rfl (data_not_area data List.suffix_rfl)
    | state =>
      obtain ⟨up, whole⟩ := above
      have name : up ++ rel = [kind] := List.append_cancel_right (by simpa [area, sectionRoot] using whole)
      rcases List.append_eq_singleton_iff.mp name with ⟨-, rfl⟩ | ⟨-, rfl⟩
      · exact seat
      · exact absurd rfl carried.1

end Restores

end Env

end D9Store
