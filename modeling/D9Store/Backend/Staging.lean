import D9Store.Backend.FileOps
import D9Store.Backend.Places

/-!
The staging area apart from everything else.

A completion assembles its payload in the staging area before it looks at the key. No
history, object file or bucket configuration lies there, so none of them reads differently
afterwards.
-/

namespace D9Store

open Posix FilePath

/-- The two disks agree outside the staging area. -/
def SameButStaging (e : Env) (s t : Disk) : Prop :=
  ∀ q, ¬ e.area "staging" <:+ q → t.get q = s.get q

namespace SameButStaging

variable {e : Env} {s t u : Disk} {bucket key : String} {kind : String} {p : FilePath}

theorem trans (h : SameButStaging e s t) (h' : SameButStaging e t u) : SameButStaging e s u :=
  fun q out => (h' q out).trans (h q out)

/-- A step that changes one place of the staging area. -/
theorem of_get (area : e.area "staging" <:+ p) (same : ∀ q, q ≠ p → t.get q = s.get q) :
    SameButStaging e s t := fun q out => same q fun eq => out (eq ▸ area)

theorem file (h : SameButStaging e s t) (out : ¬ e.area "staging" <:+ p) : t.file p = s.file p :=
  DirTree.file_of_get_eq (h p out)

theorem readDoc (h : SameButStaging e s t) (area : e.area kind <:+ p) (other : kind ≠ "staging") :
    e.readDoc t p = e.readDoc s p := by
  have out : ∀ q, q <:+ p → ¬ e.area "staging" <:+ q := fun q sub staging =>
    other (Env.area_unique area (staging.trans sub))
  have blocked : t.blocked p = s.blocked p := by
    rw [Bool.eq_iff_iff, DirTree.blocked_iff, DirTree.blocked_iff]
    have same : ∀ q, q <:+ p.tail → t.file q = s.file q := fun q sub =>
      h.file (out q (sub.trans (List.tail_suffix p)))
    constructor
    · rintro ⟨q, f, sub, file⟩
      exact ⟨q, f, sub, by rw [← same q sub, file]⟩
    · rintro ⟨q, f, sub, file⟩
      exact ⟨q, f, sub, by rw [same q sub, file]⟩
  unfold Env.readDoc DirTree.readFile DirTree.missing
  rw [h p (out p List.suffix_rfl), blocked]

theorem readKeyMeta (h : SameButStaging e s t) (tame : Tame bucket) :
    e.readKeyMeta t bucket key = e.readKeyMeta s bucket key := by
  unfold Env.readKeyMeta
  cases hp : e.historyPath bucket key with
  | error err => rfl
  | ok p =>
    rw [except_ok_bind, except_ok_bind, h.readDoc (Env.area_historyPath tame hp) (by decide)]
    cases place : e.objectPath bucket key with
    | error err => rfl
    | ok op =>
      have out : ¬ e.area "staging" <:+ op := fun staging =>
        Env.data_not_area (Env.root_objectPath tame place) staging rfl
      simp only [except_ok_bind, Env.readCurrentMeta, h.file out]

theorem loadKeyMetaOrNew (h : SameButStaging e s t) (tame : Tame bucket) :
    e.loadKeyMetaOrNew t bucket key = e.loadKeyMetaOrNew s bucket key := by
  simp only [Env.loadKeyMetaOrNew, h.readKeyMeta tame]

end SameButStaging

namespace Env

variable {e : Env} {tmp : FilePath} {uploadID : String}

/-- Assembly changes the payload and nothing else. -/
theorem appendParts_get (parts : List Part) (s : Disk) :
    wp (e.appendParts uploadID tmp parts) (fun _ t => ∀ q, q ≠ tmp → t.get q = s.get q)
      (fun _ t => ∀ q, q ≠ tmp → t.get q = s.get q) s := by
  induction parts generalizing s with
  | nil => exact fun _ _ => rfl
  | cons p rest ih =>
    unfold appendParts
    rw [wp_bind, wp_attempt, wp_reading]
    cases s.readFile (e.mpPartPath uploadID p.partNumber) with
    | error err =>
      simp only
      rw [wp_bind, wp_ignore]
      refine wp_cases (fun _ t gone => ?_) fun _ t failed => ?_
      · intro q ne
        rw [(remove_ok gone).2.2.2 q, if_neg ne]
      · rw [remove_error failed]
        exact fun _ _ => rfl
    | ok part =>
      simp only
      rw [wp_bind, wp_sys]
      refine wp_cases (fun _ s₁ set => ?_) fun _ t failed => ?_
      · have same : ∀ q, q ≠ tmp → s₁.get q = s.get q := by
          rcases amend_ok set with ⟨old, -, get⟩ | ⟨-, rfl⟩
          · exact fun q ne => by rw [get, if_neg ne]
          · exact fun _ _ => rfl
        rw [wp_bind]
        refine wp_mono (ih s₁) (fun _ t h q ne => ?_) fun _ t h q ne => ?_
        · rw [h q ne, same q ne]
        · rw [h q ne, same q ne]
      · rw [(amend_error failed).1]
        exact fun _ _ => rfl

end Env

end D9Store
