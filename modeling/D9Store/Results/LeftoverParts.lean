import D9Store.Uploads.Assembly

/-!
What a finished upload leaves behind.

Parts are staged below the state root, and the cleanup looks for them below the data root. A
completion therefore always leaves the parts that it assembled, an abort leaves whatever was staged,
and both remove the clients' files that the pattern happens to find.
-/

namespace D9Store

open Posix FilePath

namespace Env

variable {e : Env} {s t : Disk} {c : Command} {mp : MultipartUpload}

/-- No part and no record of the upload is left, and no file of the data tree is gone. -/
structure CleanedUp (e : Env) (c : Command) (s t : Disk) : Prop where
  parts : ∀ number, t.file (e.mpPartPath c.uploadID number) = none
  record : t.file (e.mpuMetaPath c.bucket c.uploadID) = none
  data : ∀ p, e.root <:+ p → (s.file p).isSome = true → (t.file p).isSome = true

theorem completed_ne_nil {parts : List Part} (h : Site.completed e s c = .ok (mp, parts)) :
    parts ≠ [] := by
  obtain ⟨_, -, rest⟩ := except_bind_ok h
  obtain ⟨ordered, order, same⟩ := except_bind_ok rest
  cases same
  obtain ⟨resolved, -, checked⟩ := except_bind_ok order
  split at checked
  · cases checked
  · rename_i ne
    split at checked
    · cases checked
    · cases checked
      exact ne

/-- A completion leaves the first part that it assembled. -/
theorem complete_leaves_part (tidy : e.Tidy s) (tame : Tame c.bucket) (token : Plain c.blobToken)
    (upload : Plain c.uploadID) (run : e.applyCompleteMultipart c s = .ok () t) :
    ∃ number, (t.file (e.mpPartPath c.uploadID number)).isSome = true := by
  obtain ⟨mp, parts, total, _, _, _, _, completed, assembled, -⟩ :=
    applyCompleteMultipart_ok tame token run
  obtain ⟨p, rest, rfl⟩ := List.exists_cons_of_ne_nil (completed_ne_nil completed)
  obtain ⟨f, file⟩ := Option.isSome_iff_exists.mp
    ((assembled.payload upload.2).2.2 p List.mem_cons_self)
  obtain ⟨-, u, ⟨frame, -⟩, cleanup⟩ :=
    wp_ok (applyCompleteMultipart_reaches tidy tame token upload) run
  have area : e.area "mpstaging" <:+ e.mpPartPath c.uploadID p.partNumber := by
    rw [mpPartPath_eq upload.2]
    exact List.suffix_cons _ _
  have before : u.file (e.mpPartPath c.uploadID p.partNumber) = some f := by
    rw [frame.file _ fun mem => ?_, file]
    exact absurd (objectFiles_area mem area) (by decide)
  refine ⟨p.partNumber, ?_⟩
  rw [((cleanupUpload_effect cleanup).2 _ f before).2 (not_swept upload area (by decide) tame)]
  rfl

/-- What an abort leaves behind. -/
theorem abort_cleaned_iff (found : e.readMPU s c.bucket c.uploadID = .ok mp)
    (run : e.applyAbortMultipart c s = .ok () t) :
    e.CleanedUp c s t ↔
      (∀ number, (s.file (e.mpPartPath c.uploadID number)).isSome = true →
        e.Swept c.bucket c.uploadID (e.mpPartPath c.uploadID number)) ∧
      ∀ p, e.root <:+ p → (s.file p).isSome = true → ¬ e.Swept c.bucket c.uploadID p := by
  have cleanup : e.cleanupUpload c.bucket c.uploadID s = .ok () t := by
    obtain ⟨r, s₁, read, rest⟩ := bind_ok.mp run
    obtain ⟨⟨⟩, rfl⟩ := reading_ok.mp read
    rwa [found] at rest
  obtain ⟨shrinks, effect⟩ := cleanupUpload_effect cleanup
  constructor
  · rintro ⟨parts, -, data⟩
    refine ⟨fun number present => ?_, fun p below present swept => ?_⟩
    · by_contra spared
      obtain ⟨f, file⟩ := Option.isSome_iff_exists.mp present
      have kept := (effect _ f file).2 spared
      rw [parts number] at kept
      cases kept
    · obtain ⟨f, file⟩ := Option.isSome_iff_exists.mp present
      have still := data p below present
      rw [(effect p f file).1 swept] at still
      cases still
  · rintro ⟨swept, spared⟩
    obtain ⟨f, record⟩ := file_of_readMPU found
    refine ⟨fun number => ?_, (effect _ f record).1 (.inl rfl), fun p below present => ?_⟩
    · cases file : s.file (e.mpPartPath c.uploadID number) with
      | none => exact shrinks.file file
      | some g => exact (effect _ g file).1 (swept number (by rw [file]; rfl))
    · obtain ⟨g, file⟩ := Option.isSome_iff_exists.mp present
      rw [(effect p g file).2 (spared p below present)]
      rfl

/-- A finished upload is cleaned up exactly when it was aborted, the pattern found all its parts and
it found nothing in the data tree. -/
theorem finished_cleaned_iff {mp : MultipartUpload}
    (op : c.op = .completeMultipart ∨ c.op = .abortMultipart)
    (names : c.op = .completeMultipart → c.Tidy ∧ e.Tidy s)
    (found : e.readMPU s c.bucket c.uploadID = .ok mp) (run : e.applyDisk c s = .ok () t) :
    e.CleanedUp c s t ↔
      c.op = .abortMultipart ∧
        (∀ number, (s.file (e.mpPartPath c.uploadID number)).isSome = true →
          e.Swept c.bucket c.uploadID (e.mpPartPath c.uploadID number)) ∧
        ∀ p, e.root <:+ p → (s.file p).isSome = true → ¬ e.Swept c.bucket c.uploadID p := by
  rcases op with complete | abort
  · rw [applyDisk, complete] at run
    obtain ⟨ok, tidy⟩ := names complete
    refine iff_of_false (fun clean => ?_) fun h => by rw [complete] at h; cases h.1
    obtain ⟨number, left⟩ := complete_leaves_part tidy
      (tame_of_plain (ok.bucket (by rw [Command.onDisk, complete]))) (ok.token (.inr complete))
      (ok.upload (.inr (.inr (.inl complete)))) run
    rw [clean.parts number] at left
    cases left
  · rw [applyDisk, abort] at run
    rw [abort_cleaned_iff found run]
    exact (and_iff_right abort).symm

/-- An upload without parts is aborted. -/
theorem empty_upload_cleaned :
    let e := smallEnv false
    let s := e.feed [.command Small.create, .command (Small.beginUpload "k" 0)] (smallDisk false)
    let c := Small.abort "k" 0
    e.CleanedUp c s (final (e.applyDisk c) s) := by
  intro e s c
  have op : c.op = .abortMultipart := rfl
  have found : (e.readMPU s c.bucket c.uploadID).isOk = true := by decide +kernel
  have ran : (outcome (e.applyDisk c) s).isOk = true := by decide +kernel
  have bare : ∀ p ∈ s.dom, (s.file p).isSome = true →
      ¬ e.area "mpstaging" <:+ p ∧ ¬ e.root <:+ p := by
    decide +kernel
  have upload : Plain c.uploadID := by decide +kernel
  clear_value c s e
  have none {p : FilePath} (present : (s.file p).isSome = true) :
      ¬ e.area "mpstaging" <:+ p ∧ ¬ e.root <:+ p := by
    obtain ⟨f, file⟩ := Option.isSome_iff_exists.mp present
    exact bare p ((s.mem_dom p).mpr (by simp [DirTree.file_eq_some.mp file])) present
  cases read : e.readMPU s c.bucket c.uploadID with
  | error err =>
    rw [read] at found
    cases found
  | ok mp =>
    refine (finished_cleaned_iff (.inr op) (fun h => by rw [op] at h; cases h) read
      (run_of_isOk ran)).mpr
      ⟨op, fun number present => ?_, fun p below present => absurd below (none present).2⟩
    refine absurd ?_ (none present).1
    rw [mpPartPath_eq upload.2]
    exact List.suffix_cons _ _

/-- The part of a completed upload stays. -/
theorem completed_part_stays :
    let e := smallEnv false
    let s := e.feed [.command Small.create, .command (Small.beginUpload "k" 0), Small.part 0 1 [7],
      .command (Small.uploadPart "k" 0 1)] (smallDisk false)
    let c := Small.complete "k" 0 [1]
    (e.readMPU s c.bucket c.uploadID).isOk = true ∧ (outcome (e.applyDisk c) s).isOk = true ∧
      ((final (e.applyDisk c) s).file (e.mpPartPath c.uploadID 1)).isSome = true := by
  decide +kernel

end Env

end D9Store
