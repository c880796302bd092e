import Mathlib

/-!
Histories of a versioned key, apart from any storage.

An entry is a version or a delete marker together with its body. Bodies are kept in one of
two places: the latest body may lie in the open under the key itself, all others are filed
under an identifier. The operations are those of an object store whose versioning can be
on, off or suspended. `Version` forgets where a body is kept; on a store whose versioning
is always on the operations act on versions alone.
-/

namespace Versioned

variable {β : Type}

structure Entry (β : Type) where
  id : String
  /-- Where the body is filed; empty for a body in the open. -/
  blob : String := ""
  marker : Bool := false
  latest : Bool := false
  body : Option β := none
  deriving DecidableEq

abbrev History (β : Type) := List (Entry β)

/-- The body of the entry lies in the open. -/
def Entry.here (x : Entry β) : Bool := x.blob == "" && !x.marker

def Entry.unlatest (x : Entry β) : Entry β := { x with latest := false }

namespace History

/-! ### Operations -/

/-- Before a new entry comes in, a body in the open is filed under its version id, or
dropped when it is an unversioned one and versioning is not on. -/
def displaced (enabled : Bool) : History β → History β
  | [] => []
  | cur :: rest =>
    if !cur.here then cur :: rest
    else if enabled || cur.id != "null" then { cur with blob := cur.id } :: rest
    else rest

/-- The identifier a body in the open is filed under. -/
def filed (enabled : Bool) : History β → Option String
  | [] => none
  | cur :: _ => if cur.here && (enabled || cur.id != "null") then some cur.id else none

/-- A new entry in front. -/
def push (new : Entry β) (h : History β) : History β :=
  { new with latest := true } :: h.map Entry.unlatest

def put (enabled : Bool) (id : String) (body : β) (h : History β) : History β :=
  push { id, body := some body } (displaced enabled h)

def mark (enabled : Bool) (id : String) (h : History β) : History β :=
  push { id, marker := true } (displaced enabled h)

/-- The first entry becomes the latest one. -/
def marked : History β → History β
  | [] => []
  | x :: rest => { x with latest := true } :: rest

/-- The first entry becomes the latest one and its body comes into the open. -/
def promoted : History β → History β
  | [] => []
  | x :: rest => { x with latest := true, blob := "" } :: rest

/-- A history of one filed version is forgotten. -/
def settle : History β → History β
  | [x] => if !x.marker && x.blob != "" then [] else [x]
  | h => h

/-- Removal of all entries named `id`. -/
def remove (id : String) (h : History β) : History β :=
  let kept := h.filter fun x => x.id != id
  settle (if (h.filter fun x => x.id == id).any Entry.here then promoted kept else marked kept)

/-- The latest entry loses its body, and goes unless it is a filed version with an id of
its own. -/
def dropLatest : History β → History β
  | [] => []
  | cur :: rest =>
    if cur.marker then cur :: rest
    else if cur.id = "null" ∨ cur.blob = "" then rest
    else { cur with body := none } :: rest

/-- Deletion without versioning. -/
def deleteNull (suspended : Bool) (h : History β) : History β :=
  if suspended then push { id := "null", marker := true } (dropLatest h)
  else settle (marked (dropLatest h))

end History

/-! ### Versions -/

/-- A version or delete marker, wherever its body is kept. -/
structure Version (β : Type) where
  id : String
  marker : Bool := false
  body : Option β := none
  deriving DecidableEq

def Version.map {γ : Type} (f : β → γ) (x : Version β) : Version γ :=
  { id := x.id, marker := x.marker, body := x.body.map f }

/-- Delete markers have no body. -/
def Entry.version (x : Entry β) : Version β :=
  { id := x.id, marker := x.marker, body := if x.marker then none else x.body }

/-- The versions of a history, newest first. -/
def History.versions (h : History β) : List (Version β) := h.map Entry.version

namespace History

variable {h : History β} {enabled : Bool} {id : String} {body : β}

@[simp] theorem versions_map_unlatest (h : History β) :
    versions (h.map Entry.unlatest) = versions h := by
  simp only [versions, List.map_map]
  exact List.map_congr_left fun x _ => rfl

theorem versions_push (new : Entry β) (h : History β) :
    versions (push new h) = new.version :: versions h := by
  rw [push, versions, List.map_cons]
  exact congrArg _ (versions_map_unlatest h)

/-- With versioning on, displacement only moves a body. -/
theorem versions_displaced (h : History β) : versions (displaced true h) = versions h := by
  cases h with
  | nil => rfl
  | cons cur rest =>
    simp only [displaced, Bool.true_or, if_true]
    split <;> rfl

theorem versions_put : versions (put true id body h) = { id, body := some body } :: versions h := by
  rw [put, versions_push, versions_displaced]
  rfl

theorem versions_mark : versions (mark true id h) = { id, marker := true } :: versions h := by
  rw [mark, versions_push, versions_displaced]
  rfl

end History

end Versioned
