import D9Store.Backend.Everywhere
import D9Store.Key.Site

/-!
What a key reads as once a command has recorded its history.

The facts hold of every disk: they follow from the last calls of a command that succeeded, not
from the state it started in.
-/

namespace D9Store

open Posix FilePath

/-! ### Values of programs -/

theorem reading_ok {α ε σ : Type} {f : σ → Except ε α} {s t : σ} {a : α} :
    (reading f : EStateM ε σ α) s = .ok a t ↔ f s = .ok a ∧ t = s := by
  unfold reading
  cases f s with
  | ok b => simp [eq_comm]
  | error err => simp

theorem sys_ok {α : Type} {x : Call File α} {s t : Disk} {a : α} :
    sys x s = .ok a t ↔ x s = .ok a t := by
  unfold sys failing
  cases x s <;> simp

/-- The invariant every file meets. -/
def FileInv.any : FileInv where
  content _ := True
  xattrs _ := True
  raw _ := trivial
  doc _ _ := trivial
  bare := trivial

/-- What a program returns, whatever the files. -/
theorem FileInv.value {α ε : Type} {Q : α → Prop} {x : EStateM ε Disk α} {s t : Disk} {a : α}
    (h : FileInv.any.Guards Q x) (run : x s = .ok a t) : Q a := by
  have spec := wp_ok (h s fun _ _ _ => ⟨trivial, trivial⟩) run
  exact spec.2

namespace Env

variable {e : Env} {s t : Disk} {p op hp : FilePath} {bucket key : String} {doc : Doc}
    {km : KeyMeta} {v : ObjectMeta}

/-- The versions of a key. -/
def versionsOf (e : Env) (s : Disk) (bucket key : String) : List ObjectMeta :=
  match e.readKeyMeta s bucket key with
  | .error _ => []
  | .ok km => km.versions

/-! ### The history file -/

theorem readDoc_of_content (h : content s p = some (.json doc)) : e.readDoc s p = .ok doc := by
  obtain ⟨f, file, holds⟩ := Option.map_eq_some_iff.mp h
  exact readDoc_of_document file (by rw [holds]; rfl)

/-- A missing file below directories reads as absent. -/
theorem readDoc_absent (gone : s.get p = none) (clear : ∀ q, q <:+ p.tail → s.file q = none) :
    e.readDoc s p = .error (.os .noent) := by
  have open_ : s.blocked p = false := DirTree.not_blocked_iff.mpr clear
  simp [Env.readDoc, DirTree.readFile, gone, DirTree.missing, open_]

theorem readDoc_error_noent (h : e.readDoc s p = .error (.os .noent)) :
    s.get p = none ∧ ∀ q, q <:+ p.tail → s.file q = none := by
  unfold Env.readDoc DirTree.readFile at h
  cases node : s.get p with
  | none =>
    rw [node] at h
    simp only [DirTree.missing] at h
    split at h
    · cases h
    · rename_i open_
      exact ⟨rfl, DirTree.not_blocked_iff.mp (by simpa using open_)⟩
  | some n =>
    rw [node] at h
    cases n with
    | dir => cases h
    | file f =>
      simp only at h
      split at h <;> cases h

theorem removeIfPresent_absent (run : removeIfPresent p s = .ok () t) :
    e.readDoc t p = .error (.os .noent) := by
  obtain ⟨r, s₁, tried, rest⟩ := bind_ok.mp run
  unfold attempt at tried
  cases removal : (remove p : Call File Unit) s with
  | ok _ s' =>
    rw [removal] at tried
    cases tried
    cases rest
    obtain ⟨proper, -, present, effect⟩ := remove_ok removal
    refine readDoc_absent (by simp [effect]) fun q above => ?_
    have ne : q ≠ p := by
      rintro rfl
      exact not_suffix_tail proper le_rfl above
    have dir := DirTree.get_ancestor present (above.trans (List.tail_suffix p)) ne
    exact DirTree.file_eq_none.mpr (.inr (by rw [effect, if_neg ne, dir]))
  | error err s' =>
    rw [removal] at tried
    cases tried
    cases err with
    | noent =>
      cases rest
      obtain rfl := remove_error removal
      unfold remove at removal
      cases node : t.get p with
      | none =>
        rw [node] at removal
        simp only [EStateM.Result.error.injEq, and_true] at removal
        simp [Env.readDoc, DirTree.readFile, node, removal]
      | some _ =>
        rw [node] at removal
        simp only at removal
        split at removal <;> cases removal
    | _ => cases rest

theorem writeHistory_run (place : e.historyPath km.bucket km.key = .ok hp) :
    e.writeHistory km s =
      (if History.singleLive km.versions then removeIfPresent hp
        else writeThrough hp (.json (.keyMeta km))) s := by
  have marshal : e.marshal (.keyMeta km) = .ok (.keyMeta km) := rfl
  have read : (reading fun _ => e.historyPath km.bucket km.key : M FilePath) s = .ok hp s :=
    reading_run place
  rw [← writeJSON_eq marshal, writeHistory, bind_apply, read]
  obtain ⟨b, k, vs, flag⟩ := km
  match vs with
  | [] => rfl
  | [v] => cases live : v.deleteMarker <;> simp [History.singleLive, live]
  | _ :: _ :: _ => rfl

theorem writeHistory_reads (place : e.historyPath km.bucket km.key = .ok hp)
    (run : e.writeHistory km s = .ok () t) :
    e.readDoc t hp =
      if History.singleLive km.versions then .error (.os .noent) else .ok (.keyMeta km) := by
  rw [writeHistory_run place] at run
  split at run
  · rename_i single
    rw [if_pos single]
    exact removeIfPresent_absent run
  · rename_i many
    rw [if_neg many]
    obtain ⟨-, written, -⟩ := wp_ok (writeThrough_wp _) run
    exact readDoc_of_content written

theorem writeHistory_keeps (place : e.historyPath km.bucket km.key = .ok hp) (apart : p ≠ hp)
    (apartTmp : p ≠ jsonTmp hp) (run : e.writeHistory km s = .ok () t) : t.file p = s.file p := by
  rw [writeHistory_run place] at run
  split at run
  · obtain ⟨frame, -⟩ := wp_ok (removeIfPresent_wp hp) run
    exact frame.file p apart
  · obtain ⟨frame, -, -⟩ := wp_ok (writeThrough_wp _) run
    exact frame.file p (by simp [apart, apartTmp])

/-! ### The key -/

theorem readKeyMeta_of_doc (place : e.historyPath bucket key = .ok hp)
    (found : e.readDoc s hp = .ok doc) : e.readKeyMeta s bucket key = .ok doc.asKeyMeta := by
  simp [readKeyMeta, place, found]

theorem versionsOf_of_doc (place : e.historyPath bucket key = .ok hp)
    (found : e.readDoc s hp = .ok (.keyMeta km)) : e.versionsOf s bucket key = km.versions := by
  simp [versionsOf, readKeyMeta_of_doc place found, Doc.asKeyMeta]

/-- Without a history file the key is what its object file says. -/
theorem versionsOf_of_absent (place : e.historyPath bucket key = .ok hp)
    (absent : e.readDoc s hp = .error (.os .noent)) :
    e.versionsOf s bucket key =
      match e.objectPath bucket key with
      | .ok op => ((s.file op).map fun f => (e.fileMeta bucket key f).1).toList
      | .error _ => [] := by
  cases at_ : e.objectPath bucket key with
  | error err => simp [versionsOf, readKeyMeta, place, absent, at_]
  | ok op =>
    cases file : s.file op with
    | none => simp [versionsOf, readKeyMeta, place, absent, at_, readCurrentMeta, file]
    | some f => simp [versionsOf, readKeyMeta, place, absent, at_, readCurrentMeta, file]

theorem fileMeta_live (bucket key : String) (f : File) :
    (e.fileMeta bucket key f).1.deleteMarker = false := by
  unfold fileMeta
  split <;> rfl

theorem writeKeyMeta_reads (place : e.historyPath km.bucket km.key = .ok hp)
    (run : e.writeKeyMeta km s = .ok () t) :
    e.readDoc t hp =
      if History.singleLive km.versions then .error (.os .noent) else .ok (.keyMeta km) := by
  obtain ⟨_, s₁, -, history⟩ := bind_ok.mp run
  exact writeHistory_reads place history

/-- Attributes go on one file, and its bytes stay. -/
theorem writeCurrentXattrs_files (run : writeCurrentXattrs p v s = .ok () t) (q : FilePath) :
    t.file q = s.file q ∨ q = p ∧ ∃ f, s.file p = some f ∧ t.file p = some (f.stamp v) := by
  cases file : s.file p with
  | some f =>
    obtain ⟨s₁, same, frame, stamped⟩ := writeCurrentXattrs_spec file v
    rw [same] at run
    cases run
    by_cases eq : q = p
    · exact .inr ⟨eq, f, rfl, stamped⟩
    · exact .inl (frame.file q eq)
  | none =>
    -- a directory takes attributes as well
    have rest : ∀ (g : File → File) (s₁ : Disk), amend p g s = .ok () s₁ → s₁ = s := by
      intro g s₁ amended
      rcases amend_ok amended with ⟨old, found, -⟩ | ⟨-, same⟩
      · rw [file] at found
        cases found
      · exact same
    obtain ⟨_, s₁, stored, stamp⟩ := bind_ok.mp run
    obtain rfl := rest _ s₁ (sys_ok.mp stored)
    left
    split at stamp
    · cases stamp
      rfl
    · unfold ignore at stamp
      split at stamp
      · rename_i touched
        cases stamp
        rw [rest _ _ touched]
      · rename_i failed
        cases stamp
        rw [(amend_error failed).1]

theorem writeHead_files (run : e.writeHead km s = .ok () t) (q : FilePath) :
    t.file q = s.file q ∨ e.objectPath km.bucket km.key = .ok q ∧
      ∃ f v, s.file q = some f ∧ t.file q = some (f.stamp v) := by
  unfold writeHead at run
  cases latest : km.latest with
  | none =>
    rw [latest] at run
    cases run
    exact .inl rfl
  | some cur =>
    rw [latest] at run
    dsimp only at run
    split at run
    · obtain ⟨op, s₁, asked, stored⟩ := bind_ok.mp run
      obtain ⟨place, rfl⟩ := reading_ok.mp asked
      rcases writeCurrentXattrs_files stored q with same | ⟨rfl, f, file, stamped⟩
      · exact .inl same
      · exact .inr ⟨place, f, _, file, stamped⟩
    · cases run
      exact .inl rfl

/-- A recorded head at the key path is on the object file. -/
theorem writeKeyMeta_stamped {rest : List ObjectMeta} {f : File}
    (history : e.historyPath km.bucket km.key = .ok hp)
    (object : e.objectPath km.bucket km.key = .ok op) (apart : op ≠ hp) (apartTmp : op ≠ jsonTmp hp)
    (versions : km.versions = v :: rest) (here : atKeyPath v = true) (file : s.file op = some f)
    (run : e.writeKeyMeta km s = .ok () t) : t.file op = some (f.stamp v) := by
  obtain ⟨_, s₁, head, written⟩ := bind_ok.mp run
  obtain ⟨s₂, stampRun, -, stamped⟩ := writeCurrentXattrs_spec file v
  have same : e.writeHead km s = .ok () s₂ := by
    have guard : (!v.deleteMarker && v.blobID == "") = true := by
      rw [Bool.and_comm]
      exact here
    simp only [writeHead, KeyMeta.latest, versions, List.head?_cons, guard, if_true]
    exact bind_ok.mpr ⟨op, s, reading_run object, stampRun⟩
  rw [same] at head
  cases head
  rw [writeHistory_keeps history apart apartTmp written, stamped]

end Env

end D9Store
