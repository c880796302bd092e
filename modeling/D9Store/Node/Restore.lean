import D9Store.Key.Clean
import D9Store.Node.Snapshot

/-!
What each stage of a restoration does to the files it finds.

Object files written through the log are removed, the state directories are emptied and
made again, and the entries of the archive are written out one after the other.
-/

namespace D9Store

open Posix FilePath

/-- A file that was written through the log. -/
def Managed (s : Disk) (q : FilePath) : Prop := ∃ f, s.file q = some f ∧ f.xattrs.managed = true

namespace Env

variable {e e' : Env} {s t u : Disk} {part : Section} {skip : List String} {entry a : ArchiveEntry}

/-! ### Removal of the replicated object files -/

/-- The files `t` has are files of `s`, and only managed ones are gone. -/
structure Cleared (s t : Disk) : Prop where
  frame : Framed {q | Managed s q} ∅ s t
  kept : ∀ q f, t.file q = some f → s.file q = some f

theorem Cleared.refl (s : Disk) : Cleared s s := ⟨Framed.refl s, fun _ _ h => h⟩

theorem Cleared.trans (h : Cleared s t) (h' : Cleared t u) : Cleared s u  where
  frame := by
    refine h.frame.trans (h'.frame.mono ?_ subset_rfl)
    rintro q ⟨f, file, managed⟩
    exact ⟨f, h.kept q f file, managed⟩
  kept q f file := h.kept q f (h'.kept q f file)

theorem removeCurrent_swept {bucket key : String} {op : FilePath}
    (place : e.objectPath bucket key = .ok op) (managed : Managed s op) :
    ∃ t, e.removeCurrent bucket key s = .ok () t ∧ Cleared s t ∧ t.file op = none := by
  obtain ⟨f, file, -⟩ := id managed
  obtain ⟨t, run, frame, gone⟩ := removeCurrent_spec (s := s) place
    fun q sub _ => clear_of_file file q sub
  refine ⟨t, run, ⟨frame.mono ?_ subset_rfl, fun q g found => ?_⟩, gone⟩
  · rintro q rfl
    exact managed
  · by_cases eq : q = op
    · rw [eq, gone] at found
      cases found
    · rw [← frame.file q eq, found]

theorem Cleared.managed (h : Cleared s t) {q : FilePath} (managed : Managed t q) : Managed s q := by
  obtain ⟨f, file, flag⟩ := managed
  exact ⟨f, h.kept q f file, flag⟩

/-- One key of the sweep. -/
theorem removeManaged_cons (bucket key : String) (rest : List String) (s : Disk) :
    ∃ s₁, e.removeManaged bucket (key :: rest) s = e.removeManaged bucket rest s₁ ∧ Cleared s s₁ ∧
      ∀ op, e.objectPath bucket key = .ok op → ¬ Managed s₁ op := by
  rw [removeManaged]
  cases place : e.objectPath bucket key with
  | error err => exact ⟨s, rfl, Cleared.refl s, by simp⟩
  | ok op =>
    have read : reading (fun s : Disk => (.ok ((s.file op).any fun f => f.xattrs.managed) :
        Except Err Bool)) s = .ok ((s.file op).any fun f => f.xattrs.managed) s := rfl
    by_cases managed : Managed s op
    · obtain ⟨f, file, flag⟩ := id managed
      obtain ⟨s₁, run, swept, gone⟩ := removeCurrent_swept place managed
      refine ⟨s₁, ?_, swept, ?_⟩
      · simp only [bind_apply, read, file, Option.any_some, flag, if_true, run]
      · rintro op' ⟨⟩ ⟨g, found, -⟩
        rw [gone] at found
        cases found
    · refine ⟨s, ?_, Cleared.refl s, ?_⟩
      · have off : (s.file op).any (fun f => f.xattrs.managed) = false := by
          cases file : s.file op with
          | none => rfl
          | some f =>
            cases flag : f.xattrs.managed with
            | true => exact absurd ⟨f, file, flag⟩ managed
            | false => simp [flag]
        simp only [bind_apply, read, off, Bool.false_eq_true, if_false]
      · rintro op' ⟨⟩
        exact managed

theorem removeManaged_spec (bucket : String) (keys : List String) (s : Disk) :
    ∃ t, e.removeManaged bucket keys s = .ok () t ∧ Cleared s t ∧
      ∀ key ∈ keys, ∀ op, e.objectPath bucket key = .ok op → ¬ Managed t op := by
  induction keys generalizing s with
  | nil => exact ⟨s, rfl, Cleared.refl s, by simp⟩
  | cons key rest ih =>
    obtain ⟨s₁, run₁, swept₁, gone₁⟩ := removeManaged_cons (e := e) bucket key rest s
    obtain ⟨t, run, swept, gone⟩ := ih s₁
    refine ⟨t, by rw [run₁, run], swept₁.trans swept, ?_⟩
    intro k mem op place managed
    rcases List.mem_cons.mp mem with rfl | mem
    · exact gone₁ op place (swept.managed managed)
    · exact gone k mem op place managed

/-- The buckets are swept one after the other, each by the keys it has when its turn comes. -/
theorem removeManagedIn_spec (buckets : List String) (s : Disk) :
    ∃ t, e.removeManagedIn buckets s = .ok () t ∧ Cleared s t ∧
      ∀ bucket ∈ buckets, ∃ s₁, Cleared s s₁ ∧ Cleared s₁ t ∧
        ∀ key ∈ e.walkObjectTree s₁ bucket, ∀ op, e.objectPath bucket key = .ok op →
          ¬ Managed t op := by
  induction buckets generalizing s with
  | nil => exact ⟨s, rfl, Cleared.refl s, by simp⟩
  | cons bucket rest ih =>
    obtain ⟨s₁, run₁, swept₁, gone₁⟩ :=
      removeManaged_spec (e := e) bucket (e.walkObjectTree s bucket) s
    obtain ⟨t, run, swept, gone⟩ := ih s₁
    refine ⟨t, ?_, swept₁.trans swept, ?_⟩
    · refine bind_ok.mpr ⟨_, s, reading_run rfl, bind_ok.mpr ⟨(), s₁, run₁, run⟩⟩
    · intro b mem
      rcases List.mem_cons.mp mem with rfl | mem
      · refine ⟨s, Cleared.refl s, swept₁.trans swept, fun key found op place managed => ?_⟩
        exact gone₁ key found op place (swept.managed managed)
      · obtain ⟨s₂, before, after, free⟩ := gone b mem
        exact ⟨s₂, swept₁.trans before, after, free⟩

theorem removeReplicatedObjectFiles_spec (s : Disk) :
    ∃ t, e.removeReplicatedObjectFiles s = .ok () t ∧ Cleared s t := by
  obtain ⟨t, run, swept, -⟩ := removeManagedIn_spec (e := e)
    ((sorted (s.children e.root)).filter fun name => s.isDir (name :: e.root)) s
  exact ⟨t, bind_ok.mpr ⟨_, s, reading_run rfl, run⟩, swept⟩

/-! ### The state directories -/

theorem removeAllEach_spec (ps : List FilePath) (s : Disk) :
    ∃ t, removeAllEach ps s = .ok () t ∧
      ∀ q, t.get q = if (∃ p ∈ ps, p <:+ q) ∧ q ≠ [] then none else s.get q := by
  induction ps generalizing s with
  | nil => exact ⟨s, rfl, by simp⟩
  | cons p rest ih =>
    obtain ⟨t, run, get⟩ := ih (s.removeTree p)
    refine ⟨t, bind_ok.mpr ⟨(), s.removeTree p, rfl, run⟩, fun q => ?_⟩
    rw [get, DirTree.get_removeTree]
    by_cases sub : p <:+ q <;> by_cases rest : ∃ p ∈ rest, p <:+ q <;> by_cases nil : q = [] <;>
      simp_all

/-- Directories are made, files stay. -/
theorem mkdirEach_wp (ps : List FilePath) (s : Disk) :
    wp (mkdirEach ps) (fun _ t => Framed ∅ {q | ∃ p ∈ ps, q <:+ p} s t)
      (fun _ t => Framed ∅ {q | ∃ p ∈ ps, q <:+ p} s t) s := by
  induction ps generalizing s with
  | nil => exact Framed.refl s
  | cons p rest ih =>
    unfold mkdirEach
    rw [wp_bind, wp_sys]
    refine wp_cases (fun _ s₁ made => ?_) (fun _ s₁ failed => ?_)
    · have frame₁ : Framed ∅ {q | ∃ p' ∈ p :: rest, q <:+ p'} s s₁ := by
        refine (Framed.mkdirAll made).mono subset_rfl ?_
        intro q sub
        exact ⟨p, List.mem_cons_self, sub⟩
      have widen : {q | ∃ p' ∈ rest, q <:+ p'} ⊆ {q | ∃ p' ∈ p :: rest, q <:+ p'} := by
        rintro q ⟨p', mem, sub⟩
        exact ⟨p', List.mem_cons_of_mem _ mem, sub⟩
      exact wp_mono (ih s₁) (fun _ t h => frame₁.trans (h.mono subset_rfl widen))
        (fun _ t h => frame₁.trans (h.mono subset_rfl widen))
    · rw [(mkdirAll_error failed).1]
      exact Framed.refl s

/-- What is done before the archive is read. -/
def sweep (e : Env) : M Unit := do
  e.removeReplicatedObjectFiles
  removeAllEach (resetDirs.map fun d => e.idir [d])
  mkdirEach (stateDirs.map fun d => e.idir [d])

theorem restoreDisk_eq (archive : Archive) :
    e.restoreDisk archive = (do e.sweep; e.extractAll archive) := by
  simp only [restoreDisk, sweep, bind_assoc]

/-! ### Extraction -/

/-- Where an entry is written to. -/
def target (e : Env) (entry : ArchiveEntry) : FilePath := entry.rel ++ e.sectionRoot entry.part

/-- The file an entry leaves in the place of `old`. -/
def extracted (entry : ArchiveEntry) (old : Option File) : File :=
  let f := (old.map (written entry.content)).getD ⟨entry.content, {}, .wall⟩
  { f with xattrs := entry.xattrs.overlay f.xattrs }

theorem extract_wp (entry : ArchiveEntry) (s : Disk) :
    wp (e.extract entry)
      (fun _ t => Framed {e.target entry} {q | q <:+ (e.target entry).tail} s t ∧
        t.file (e.target entry) = some (extracted entry (s.file (e.target entry))))
      (fun _ t => Framed ∅ {q | q <:+ (e.target entry).tail} s t) s := by
  unfold extract
  simp only [show entry.rel ++ e.sectionRoot entry.part = e.target entry from rfl]
  rw [wp_bind, wp_sys]
  refine wp_cases (fun _ s₁ made => ?_) (fun _ s₁ failed => ?_)
  swap
  · rw [(mkdirAll_error failed).1]
    exact Framed.refl s
  have frame₁ := Framed.mkdirAll made
  have same₁ := frame₁.file (e.target entry) (Set.notMem_empty _)
  rw [wp_bind, wp_sys]
  refine wp_cases (fun _ s₂ opened => ?_) (fun _ s₂ failed => ?_)
  swap
  · rw [(writeFile_error failed).1]
    exact frame₁
  have frame₂ := Framed.writeFile opened
  have file₂ := file_writeFile opened
  rw [wp_sys]
  refine wp_cases (fun _ t set => ?_) (fun _ t failed => ?_)
  · refine ⟨?_, ?_⟩
    · refine (frame₁.mono (Set.empty_subset _) subset_rfl).trans
        ((frame₂.trans (Framed.amend set)).mono subset_rfl (Set.empty_subset _))
    · rw [file_amend file₂ set, same₁]
      rfl
  · rw [(amend_error failed).2.1] at file₂
    cases file₂

/-- The files an archive is written to. -/
def targets (e : Env) (archive : Archive) : Set FilePath := {q | ∃ entry ∈ archive, q = e.target entry}

/-- An archive that names no place twice leaves each of its entries. -/
theorem extractAll_ok {archive : Archive}
    (distinct : archive.Pairwise fun a b => e.target a ≠ e.target b)
    (run : e.extractAll archive s = .ok () t) :
    (∀ q, q ∉ e.targets archive → t.file q = s.file q) ∧
      ∀ entry ∈ archive, t.file (e.target entry) = some (extracted entry (s.file (e.target entry))) := by
  induction archive generalizing s with
  | nil =>
    cases run
    exact ⟨fun _ _ => rfl, by simp⟩
  | cons entry rest ih =>
    obtain ⟨⟨⟩, s₁, run₁, run₂⟩ := bind_ok.mp run
    obtain ⟨frame, file⟩ := wp_ok (extract_wp entry s) run₁
    obtain ⟨apart, distinct⟩ := List.pairwise_cons.mp distinct
    obtain ⟨others, later⟩ := ih distinct run₂
    have out : e.target entry ∉ e.targets rest := by
      rintro ⟨b, mem, eq⟩
      exact apart b mem eq
    refine ⟨fun q notMem => ?_, fun b mem => ?_⟩
    · have ne : q ≠ e.target entry := fun eq => notMem ⟨entry, List.mem_cons_self, eq⟩
      have notRest : q ∉ e.targets rest := fun ⟨b, mem, eq⟩ =>
        notMem ⟨b, List.mem_cons_of_mem _ mem, eq⟩
      rw [others q notRest, frame.file q ne]
    · rcases List.mem_cons.mp mem with rfl | mem
      · rw [others _ out, file]
      · rw [later b mem, frame.file _ (fun eq => apart b mem eq.symm)]

/-! ### What an archive holds -/

/-- The entries of one section are the files below its root, skipped directories apart. -/
theorem mem_tarTree :
    entry ∈ e.tarTree s part skip ↔
      entry.part = part ∧ entry.rel ≠ [] ∧ entry.rel.getLastD "" ∉ skip ∧
      ∃ f, s.file (entry.rel ++ e.sectionRoot part) = some f ∧ entry.content = f.content ∧
        entry.xattrs = if part = .data then f.xattrs else {} := by
  obtain ⟨part', rel, c, xattrs⟩ := entry
  simp only [tarTree, List.mem_filterMap, mem_walkOrder, DirTree.mem_filesBelow]
  constructor
  · rintro ⟨p, ⟨⟨r, rfl⟩, f, file⟩, eq⟩
    simp only [List.length_append, Nat.add_sub_cancel, List.take_left', file,
      Option.ite_none_left_eq_some, not_or, Option.some.injEq, ArchiveEntry.mk.injEq] at eq
    obtain ⟨⟨ne, out⟩, rfl, rfl, rfl, rfl⟩ := eq
    exact ⟨rfl, ne, out, f, file, rfl, rfl⟩
  · rintro ⟨rfl, ne, out, f, file, rfl, rfl⟩
    refine ⟨rel ++ e.sectionRoot part', ⟨List.suffix_append _ _, f, file⟩, ?_⟩
    simp only [List.length_append, Nat.add_sub_cancel, List.take_left', file]
    rw [if_neg (not_or.mpr ⟨ne, out⟩)]

theorem rel_of_tarred {r : FilePath} (eq : (match s.file (r ++ e.sectionRoot part) with
      | some f => if (r ++ e.sectionRoot part).take ((r ++ e.sectionRoot part).length -
          (e.sectionRoot part).length) = [] ∨ ((r ++ e.sectionRoot part).take
            ((r ++ e.sectionRoot part).length - (e.sectionRoot part).length)).getLastD "" ∈ skip
          then none
          else some (⟨part, (r ++ e.sectionRoot part).take ((r ++ e.sectionRoot part).length -
            (e.sectionRoot part).length), f.content, if part = .data then f.xattrs else {}⟩ :
              ArchiveEntry)
      | none => none) = some a) : a.rel = r := by
  cases file : s.file (r ++ e.sectionRoot part) with
  | none =>
    rw [file] at eq
    cases eq
  | some f =>
    simp only [file, List.length_append, Nat.add_sub_cancel, List.take_left',
      Option.ite_none_left_eq_some, Option.some.injEq] at eq
    rw [← eq.2]

theorem nodup_tarTree (part : Section) (skip : List String) :
    (e.tarTree s part skip).Pairwise fun a b => a.rel ≠ b.rel := by
  rw [tarTree, List.pairwise_filterMap]
  refine (nodup_walkOrder (s.filesBelow (e.sectionRoot part))).imp_of_mem ?_
  intro p q memp memq ne a eqa b eqb same
  obtain ⟨r, rfl⟩ := (DirTree.mem_filesBelow.mp (mem_walkOrder.mp memp)).1
  obtain ⟨r', rfl⟩ := (DirTree.mem_filesBelow.mp (mem_walkOrder.mp memq)).1
  rw [rel_of_tarred eqa, rel_of_tarred eqb] at same
  exact ne (by rw [same])

/-- The names that snapshots carry: those of the object tree, and those in the state directories
that are not skipped. -/
def Carried (part : Section) (rel : FilePath) : Prop :=
  rel ≠ [] ∧ (part = .state → rel.getLastD "" ∉ snapSkip)

theorem mem_snapshotTo :
    entry ∈ e.snapshotTo s ↔ Carried entry.part entry.rel ∧ ∃ f, s.file (e.target entry) = some f ∧
      entry.content = f.content ∧ entry.xattrs = if entry.part = .data then f.xattrs else {} := by
  obtain ⟨part, rel, c, xattrs⟩ := entry
  rw [snapshotTo, List.mem_append, mem_tarTree, mem_tarTree]
  cases part <;> simp [Carried, target, and_assoc]

/-- The sections have no place in common. -/
theorem section_inj {part' : Section} {rel rel' : FilePath}
    (eq : rel ++ e.sectionRoot part = rel' ++ e.sectionRoot part') : part = part' ∧ rel = rel' := by
  cases part <;> cases part'
  · exact ⟨rfl, List.append_cancel_right eq⟩
  · exact absurd eq (data_not_state (List.suffix_append _ _) (List.suffix_append _ _))
  · exact absurd eq.symm (data_not_state (List.suffix_append _ _) (List.suffix_append _ _))
  · exact ⟨rfl, List.append_cancel_right eq⟩

/-- A snapshot names no place twice. -/
theorem distinct_snapshotTo (s' : Disk) :
    (e'.snapshotTo s').Pairwise fun a b => e.target a ≠ e.target b := by
  have apart {part : Section} {skip : List String} :
      (e'.tarTree s' part skip).Pairwise fun a b => e.target a ≠ e.target b :=
    (nodup_tarTree part skip).imp fun ne eq => ne (section_inj eq).2
  rw [snapshotTo, List.pairwise_append]
  refine ⟨apart, apart, fun a mema b memb eq => ?_⟩
  have same := (section_inj eq).1
  rw [(mem_tarTree.mp mema).1, (mem_tarTree.mp memb).1] at same
  cases same

end Env

end D9Store
