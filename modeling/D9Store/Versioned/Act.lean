import D9Store.Versioned.Spec

/-!
What a command does to a history, as a value.

`blobs` and `names` are what histories that share a blob store must keep apart: the places
their bodies are filed at, and their version ids other than `null`. No command brings more
than one of either, and a deletion brings none.
-/

namespace Versioned

variable {β : Type}

inductive Act (β : Type) where
  | put (enabled : Bool) (id : String) (body : β)
  | mark (id : String)
  | remove (id : String)
  | deleteNull (suspended : Bool)
  | keep

namespace Act

def run : Act β → History β → History β
  | .put enabled id body, h => h.put enabled id body
  | .mark id, h => h.mark true id
  | .remove id, h => h.remove id
  | .deleteNull suspended, h => h.deleteNull suspended
  | .keep, h => h

/-- The blob the act files the current body at. -/
def files : Act β → History β → Option String
  | .put enabled _ _, h => h.filed enabled
  | .mark _, h => h.filed true
  | _, _ => none

/-- A deletion that takes the body of a filed version and keeps its entry. -/
def spoils : Act β → History β → Bool
  | .deleteNull _, cur :: _ => !cur.marker && cur.blob != "" && cur.id != "null"
  | _, _ => false

theorem spoils_deleteNull (suspended suspended' : Bool) (h : History β) :
    (deleteNull suspended).spoils h = (deleteNull suspended').spoils h := by
  cases h <;> rfl

end Act

namespace History

/-- The places bodies are filed at. -/
def blobs (h : History β) : List String := (h.map Entry.blob).filter (· ≠ "")

/-- Every object version has a body. -/
def Backed (h : History β) : Prop := ∀ x ∈ h, x.marker = false → x.body.isSome = true

variable {h : History β}

theorem mem_blobs {b : String} : b ∈ h.blobs ↔ b ≠ "" ∧ ∃ x ∈ h, x.blob = b := by
  simp [blobs, and_comm]

/-! ### Blobs -/

theorem blobs_sublist {h' : History β} (sub : (h.map Entry.blob).Sublist (h'.map Entry.blob)) :
    h.blobs.Sublist h'.blobs := sub.filter _

variable {new : Entry β}

theorem blobs_push (here : new.blob = "") (h : History β) : (push new h).blobs = h.blobs := by
  have same : (Entry.blob ∘ Entry.unlatest : Entry β → String) = Entry.blob := rfl
  simp [push, blobs, here, same]

theorem blobs_displaced (enabled : Bool) (h : History β) :
    (displaced enabled h).blobs.Sublist ((filed enabled h).toList ++ h.blobs) := by
  cases h with
  | nil => exact List.Sublist.refl _
  | cons cur rest =>
    by_cases here : cur.here = true
    · have blob : cur.blob = "" := by simp_all [Entry.here]
      by_cases moves : (enabled || cur.id != "null") = true
      · simp only [displaced, filed, here, moves, Bool.not_true, Bool.and_true, if_true, blobs]
        by_cases id : cur.id = "" <;> simp [blob, id]
      · simp [displaced, filed, here, moves, blobs, blob]
    · simp [displaced, filed, here]

theorem blobs_settle (h : History β) : h.settle.blobs.Sublist h.blobs := by
  unfold settle
  split
  · split
    · exact List.nil_sublist _
    · exact List.Sublist.refl _
  · exact List.Sublist.refl _

theorem blobs_marked (h : History β) : h.marked.blobs = h.blobs := by
  cases h <;> rfl

theorem blobs_promoted (h : History β) : h.promoted.blobs.Sublist h.blobs := by
  cases h with
  | nil => exact List.Sublist.refl _
  | cons x rest =>
    by_cases blob : x.blob = "" <;> simp [promoted, blobs, blob]

theorem blobs_dropLatest (h : History β) : h.dropLatest.blobs.Sublist h.blobs := by
  cases h with
  | nil => exact List.Sublist.refl _
  | cons cur rest =>
    simp only [dropLatest]
    split
    · exact List.Sublist.refl _
    · split
      · exact ((List.sublist_cons_self cur rest).map Entry.blob).filter _
      · exact List.Sublist.refl _

theorem blobs_remove (id : String) (h : History β) : (h.remove id).blobs.Sublist h.blobs := by
  have kept : blobs (h.filter fun x => x.id != id) |>.Sublist h.blobs :=
    blobs_sublist (List.filter_sublist.map Entry.blob)
  refine (blobs_settle _).trans ?_
  split
  · exact (blobs_promoted _).trans kept
  · rwa [blobs_marked]

theorem blobs_run (act : Act β) (h : History β) :
    (act.run h).blobs.Sublist ((act.files h).toList ++ h.blobs) := by
  cases act with
  | put enabled id body =>
    rw [Act.run, put, blobs_push rfl]
    exact blobs_displaced enabled h
  | mark id =>
    rw [Act.run, mark, blobs_push rfl]
    exact blobs_displaced true h
  | remove id => exact blobs_remove id h
  | deleteNull suspended =>
    rw [Act.run, deleteNull]
    split
    · rw [blobs_push rfl]
      exact blobs_dropLatest h
    · refine (blobs_settle _).trans ?_
      rw [blobs_marked]
      exact blobs_dropLatest h
  | keep => exact List.Sublist.refl _

/-! ### Bodies -/

theorem backed_push (old : h.Backed) (body : new.marker = false → new.body.isSome = true) :
    (push new h).Backed := by
  intro x mem live
  rcases List.mem_cons.mp mem with rfl | mem
  · exact body live
  · obtain ⟨y, memy, rfl⟩ := List.mem_map.mp mem
    exact old y memy live

theorem backed_displaced {enabled : Bool} (old : h.Backed) : (displaced enabled h).Backed := by
  cases h with
  | nil => exact old
  | cons cur rest =>
    have behind : Backed rest := fun x mem => old x (List.mem_cons_of_mem _ mem)
    simp only [displaced]
    split
    · exact old
    · split
      · intro x mem live
        rcases List.mem_cons.mp mem with rfl | mem
        · exact old cur List.mem_cons_self live
        · exact behind x mem live
      · exact behind

theorem backed_settle (old : h.Backed) : h.settle.Backed := by
  unfold settle
  split
  · split
    · intro x mem
      cases mem
    · exact old
  · exact old

theorem backed_marked (old : h.Backed) : h.marked.Backed := by
  cases h with
  | nil => exact old
  | cons cur rest =>
    intro x mem live
    rcases List.mem_cons.mp mem with rfl | mem
    · exact old cur List.mem_cons_self live
    · exact old x (List.mem_cons_of_mem _ mem) live

theorem backed_promoted (old : h.Backed) : h.promoted.Backed := by
  cases h with
  | nil => exact old
  | cons cur rest =>
    intro x mem live
    rcases List.mem_cons.mp mem with rfl | mem
    · exact old cur List.mem_cons_self live
    · exact old x (List.mem_cons_of_mem _ mem) live

theorem backed_run {act : Act β} (old : h.Backed) (safe : act.spoils h = false) :
    (act.run h).Backed := by
  cases act with
  | put enabled id body => exact backed_push (backed_displaced old) fun _ => rfl
  | mark id => exact backed_push (backed_displaced old) fun h => by cases h
  | remove id =>
    have kept : Backed (h.filter fun x => x.id != id) := fun x mem =>
      old x (List.mem_of_mem_filter mem)
    refine backed_settle ?_
    split
    · exact backed_promoted kept
    · exact backed_marked kept
  | deleteNull suspended =>
    have dropped : Backed h.dropLatest := by
      cases h with
      | nil => exact old
      | cons cur rest =>
        simp only [dropLatest]
        split
        · exact old
        · split
          · exact fun x mem => old x (List.mem_cons_of_mem _ mem)
          · rename_i live keep
            simp_all [Act.spoils]
    rw [Act.run, deleteNull]
    split
    · exact backed_push dropped fun h => by cases h
    · exact backed_settle (backed_marked dropped)
  | keep => exact old

end History

end Versioned
