import Mathlib

/-!
JSON values and the way Go's `encoding/json` fills a variable from one.

A decoder takes the variable's value before and the JSON value to what the variable holds after,
`none` when `Unmarshal` reports an error. What an error leaves behind is not modelled: callers
drop the variable then. Objects keep their members in order, repeated names included, because a
later member is decoded over what an earlier one left.
-/

namespace D9Store

inductive Json where
  | null
  | bool (b : Bool)
  | num (text : String)
  | str (s : String)
  | arr (elems : List Json)
  | obj (members : List (String × Json))

/-- How a variable of type `α` is filled. -/
abbrev Decoder (α : Type) := α → Json → Option α

namespace Decoder

variable {α β γ : Type} {d : Decoder α}

/-- Into a `string`: `null` leaves it alone. -/
def string : Decoder String
  | old, .null => some old
  | _, .str s => some s
  | _, _ => none

/-- Into a `json.RawMessage`: the value itself, `null` included. -/
def raw : Decoder (Option Json) := fun _ j => some (some j)

/-- A slice and the elements of its array, those past its length included. -/
structure Slice (α : Type) where
  backing : List α := []
  length : Nat := 0

def Slice.toList (s : Slice α) : List α := s.backing.take s.length

/-- The elements of an array one after the other, each over what the backing array holds there. -/
def elems (d : Decoder α) (zero : α) : List α → List Json → Option (List α)
  | _, [] => some []
  | [], j :: rest => do
    let a ← d zero j
    return a :: (← elems d zero [] rest)
  | old :: held, j :: rest => do
    let a ← d old j
    return a :: (← elems d zero held rest)

/-- Into a slice. An empty array gives a new one. -/
def slice (d : Decoder α) (zero : α) : Decoder (Slice α)
  | _, .null => some {}
  | _, .arr [] => some {}
  | old, .arr js => do
    let as ← elems d zero old.backing js
    return { backing := as ++ old.backing.drop as.length, length := as.length }
  | _, _ => none

/-- A map entry is replaced or added. -/
def put (k : String) (a : α) (m : List (String × α)) : List (String × α) :=
  (k, a) :: m.filter (·.1 != k)

/-- Into a `map[string]`: entries are decoded from zero and set one after the other. -/
def map (d : Decoder α) (zero : α) : Decoder (List (String × α))
  | _, .null => some []
  | old, .obj members => members.foldlM (fun m x => (d zero x.2).map (put x.1 · m)) old
  | _, _ => none

/-- Into a field of a structure. -/
def field (get : β → α) (set : α → β → β) (d : Decoder α) : Decoder β := fun b j =>
  (d (get b) j).map (set · b)

/-- Into a structure: a member goes to the first field of its name, members without one are
skipped. `same` compares the names. -/
def struct (same : String → String → Bool) (fields : List (String × Decoder α)) : Decoder α
  | old, .null => some old
  | old, .obj members =>
    members.foldlM (fun a m =>
      match fields.find? fun f => same f.1 m.1 with
      | some f => f.2 a m.2
      | none => some a) old
  | _, _ => none

/-! ### What is accepted -/

/-- Whether a decoder reports an error does not depend on what the variable held. -/
def Uniform (d : Decoder α) : Prop := ∀ a b j, (d a j).isSome = (d b j).isSome

theorem uniform_string : Uniform string := by
  intro a b j
  cases j <;> rfl

theorem uniform_raw : Uniform raw := fun _ _ _ => rfl

theorem uniform_field {get : β → α} {set : α → β → β} (h : Uniform d) :
    Uniform (field get set d) := by
  intro a b j
  simpa [field] using h (get a) (get b) j

/-- A fold whose steps fail regardless of the accumulator succeeds if all of them do. -/
theorem isSome_foldlM {step : α → γ → Option α} {ok : γ → Bool}
    (h : ∀ a x, (step a x).isSome = ok x) (a : α) (xs : List γ) :
    (xs.foldlM step a).isSome = xs.all ok := by
  induction xs generalizing a with
  | nil => rfl
  | cons x xs ih =>
    rw [List.foldlM_cons, List.all_cons, ← h a x]
    cases step a x with
    | none => rfl
    | some b => simpa using ih b

theorem isSome_map_obj (d : Decoder α) (zero : α) (m : List (String × α))
    (members : List (String × Json)) :
    (map d zero m (.obj members)).isSome = members.all fun x => (d zero x.2).isSome := by
  refine isSome_foldlM (fun m x => ?_) m members
  exact Option.isSome_map

theorem uniform_map (d : Decoder α) (zero : α) : Uniform (map d zero) := by
  intro a b j
  cases j with
  | obj members => rw [isSome_map_obj, isSome_map_obj]
  | _ => rfl

theorem isSome_elems (h : Uniform d) (zero : α) (held : List α) (js : List Json) :
    (elems d zero held js).isSome = js.all fun j => (d zero j).isSome := by
  induction js generalizing held with
  | nil => cases held <;> rfl
  | cons j js ih =>
    cases held with
    | nil =>
      rw [List.all_cons, ← ih []]
      cases first : d zero j <;> cases rest : elems d zero [] js <;> simp [elems, first, rest]
    | cons old held =>
      rw [List.all_cons, ← ih held, h zero old]
      cases first : d old j <;> cases rest : elems d zero held js <;> simp [elems, first, rest]

theorem isSome_slice_arr (h : Uniform d) (zero : α) (old : Slice α) (js : List Json) :
    (slice d zero old (.arr js)).isSome = js.all fun j => (d zero j).isSome := by
  cases js with
  | nil => rfl
  | cons j js =>
    rw [← isSome_elems h zero old.backing]
    cases held : elems d zero old.backing (j :: js) <;> simp [slice, held]

theorem uniform_slice (h : Uniform d) (zero : α) : Uniform (slice d zero) := by
  intro a b j
  cases j with
  | arr js => rw [isSome_slice_arr h, isSome_slice_arr h]
  | _ => rfl

/-- The elements of a fresh slice. -/
theorem slice_fresh (d : Decoder α) (zero : α) (js : List Json) :
    (slice d zero {} (.arr js)).map Slice.toList = js.mapM (d zero) := by
  have each : elems d zero [] js = js.mapM (d zero) := by
    induction js with
    | nil => rfl
    | cons j js ih => rw [elems, ih, List.mapM_cons]
  cases js with
  | nil => rfl
  | cons j js =>
    rw [← each]
    cases held : elems d zero [] (j :: js) <;> simp [slice, held, Slice.toList]

section Struct

variable {same : String → String → Bool} {fields : List (String × Decoder α)}

/-- The decoder of the field a name goes to. -/
def fieldOf (same : String → String → Bool) (fields : List (String × Decoder α)) (name : String) :
    Option (Decoder α) :=
  (fields.find? fun f => same f.1 name).map (·.2)

/-- A member is accepted: it goes to no field, or to one whose decoder accepts it. -/
def accepts (same : String → String → Bool) (fields : List (String × Decoder α)) (zero : α)
    (m : String × Json) : Bool :=
  (fieldOf same fields m.1).all fun d => (d zero m.2).isSome

theorem struct_obj (old : α) (members : List (String × Json)) :
    struct same fields old (.obj members) =
      members.foldlM (fun a m => ((fieldOf same fields m.1).getD fun a _ => some a) a m.2) old := by
  simp only [struct]
  congr
  funext a m
  unfold fieldOf
  cases fields.find? fun f => same f.1 m.1 <;> rfl

theorem isSome_struct_obj (h : ∀ f ∈ fields, Uniform f.2) (zero old : α)
    (members : List (String × Json)) :
    (struct same fields old (.obj members)).isSome = members.all (accepts same fields zero) := by
  rw [struct_obj]
  refine isSome_foldlM (fun a m => ?_) old members
  unfold accepts fieldOf
  cases found : fields.find? fun f => same f.1 m.1 with
  | none => rfl
  | some f => exact h f (List.mem_of_find?_eq_some found) a zero m.2

theorem uniform_struct (h : ∀ f ∈ fields, Uniform f.2) : Uniform (struct same fields) := by
  intro a b j
  cases j with
  | obj members => rw [isSome_struct_obj h a, isSome_struct_obj h a]
  | _ => rfl

/-- What no member touches stays: `get` reads a part of the structure that the fields of the
members leave alone. -/
theorem struct_get {get : α → β} {old new : α} {members : List (String × Json)}
    (keeps : ∀ m ∈ members, ∀ d, fieldOf same fields m.1 = some d →
      ∀ a a', d a m.2 = some a' → get a' = get a)
    (done : struct same fields old (.obj members) = some new) : get new = get old := by
  rw [struct_obj] at done
  induction members generalizing old with
  | nil =>
    cases done
    rfl
  | cons m members ih =>
    rw [List.foldlM_cons] at done
    obtain ⟨a, first, rest⟩ := Option.bind_eq_some_iff.mp done
    rw [ih (fun m' mem => keeps m' (List.mem_cons_of_mem m mem)) rest]
    cases found : fieldOf same fields m.1 with
    | none =>
      rw [found] at first
      cases first
      rfl
    | some d =>
      rw [found] at first
      exact keeps m List.mem_cons_self d found old a first

/-- Members are decoded one after the other. -/
theorem struct_append (old : α) (xs ys : List (String × Json)) :
    struct same fields old (.obj (xs ++ ys)) =
      (struct same fields old (.obj xs)).bind fun a => struct same fields a (.obj ys) := by
  rw [struct_obj, struct_obj, List.foldlM_append]
  simp only [struct_obj]
  rfl

end Struct

end Decoder

end D9Store
