import D9Store.Backend.Apply

/-!
Version histories as lists.

The functions here are what the object commands do to the list of versions of a key,
apart from its files, and `Shape` is what all of them keep: only the first entry can be
the object file, and every other object version has a blob.
-/

namespace D9Store

open Posix

namespace History

/-! ### What the commands do to the list -/

/-- The list `displaceCurrent` leaves. -/
def displaced (enabled : Bool) : List ObjectMeta → List ObjectMeta
  | [] => []
  | cur :: rest =>
    if cur.deleteMarker || cur.blobID != "" then cur :: rest
    else if enabled || cur.versionID != "null" then
      { cur with blobID := cur.versionID } :: rest
    else rest

/-- The blob `displaceCurrent` moves the object file to, if it does. -/
def archivedID (enabled : Bool) : List ObjectMeta → Option String
  | [] => none
  | cur :: _ =>
    if cur.deleteMarker || cur.blobID != "" then none
    else if enabled || cur.versionID != "null" then some cur.versionID
    else none

/-- The list with a new latest version. -/
def prepended (nv : ObjectMeta) (vs : List ObjectMeta) : List ObjectMeta :=
  { nv with isLatest := true } :: vs.map fun v => { v with isLatest := false }

/-- The list with its first version marked as latest. -/
def marked : List ObjectMeta → List ObjectMeta
  | [] => []
  | v :: rest => { v with isLatest := true } :: rest

/-- The entries an explicit deletion takes away. -/
def removedBy (vid : String) (vs : List ObjectMeta) : List ObjectMeta :=
  vs.filter fun v => v.versionID == vid

/-- The entries an explicit deletion keeps. -/
def keptBy (vid : String) (vs : List ObjectMeta) : List ObjectMeta :=
  vs.filter fun v => v.versionID != vid

/-- The list with its first version brought to the key path. -/
def promoted : List ObjectMeta → List ObjectMeta
  | [] => []
  | v :: rest => { v with isLatest := true, blobID := "" } :: rest

/-- The list an explicit deletion records. -/
def taken (vid : String) (vs : List ObjectMeta) : List ObjectMeta :=
  if (removedBy vid vs).any Env.atKeyPath then promoted (keptBy vid vs) else marked (keptBy vid vs)

/-- The list `dropCurrent` leaves. -/
def dropped : List ObjectMeta → List ObjectMeta
  | [] => []
  | cur :: rest =>
    if cur.deleteMarker then cur :: rest
    else if cur.versionID = "null" ∨ cur.blobID = "" then rest
    else cur :: rest

/-- The blob `dropCurrent` removes, if it does. -/
def droppedBlob : List ObjectMeta → Option String
  | [] => none
  | cur :: _ => if cur.deleteMarker || cur.blobID == "" then none else some cur.blobID

/-- The list `deleteNull` records: a suspended bucket gets a marker. -/
def nulled (suspended : Bool) (marker : ObjectMeta) (vs : List ObjectMeta) : List ObjectMeta :=
  if suspended then prepended marker (dropped vs) else marked (dropped vs)

/-- The history of a key that needs no history file. -/
def singleLive : List ObjectMeta → Bool
  | [v] => !v.deleteMarker
  | _ => false

theorem prependLatest_eq (km : KeyMeta) (nv : ObjectMeta) :
    km.prependLatest nv = { km with versions := prepended nv km.versions } := rfl

theorem markLatest_eq (km : KeyMeta) : km.markLatest = { km with versions := marked km.versions } := by
  obtain ⟨bucket, key, versions, synthesized⟩ := km
  cases versions <;> rfl

theorem marked_eq_nil {vs : List ObjectMeta} : marked vs = [] ↔ vs = [] := by
  cases vs <;> simp [marked]

/-! ### Well-formed histories -/

/-- A well-formed history of `key`. -/
structure Shape (key : String) (vs : List ObjectMeta) : Prop where
  own : ∀ v ∈ vs, v.key = key
  named : ∀ v ∈ vs, v.versionID ≠ ""
  plainID : ∀ v ∈ vs, '/' ∉ v.versionID.toList
  blob : ∀ v ∈ vs, v.blobID = "" ∨ v.blobID = v.versionID
  marker : ∀ v ∈ vs, v.deleteMarker = true → v.blobID = ""
  archived : ∀ v ∈ vs.tail, Env.atKeyPath v = false

/-- The first entry, and only it, is marked as latest. -/
def Latest (vs : List ObjectMeta) : Prop :=
  ∀ v rest, vs = v :: rest → v.isLatest = true ∧ ∀ w ∈ rest, w.isLatest = false

theorem Latest.nil : Latest [] := fun _ _ h => by cases h

theorem Latest.prepended (nv : ObjectMeta) (vs : List ObjectMeta) : Latest (prepended nv vs) := by
  rintro v rest ⟨⟩
  exact ⟨rfl, by simp⟩

variable {v : ObjectMeta}

theorem atKeyPath_iff : Env.atKeyPath v = true ↔ v.blobID = "" ∧ v.deleteMarker = false := by
  simp [Env.atKeyPath]

variable {key vid id : String} {vs rest vs' : List ObjectMeta} {enabled suspended : Bool}
    {f : ObjectMeta → Except Err ObjectMeta} {nv : ObjectMeta} {e : Env} {c : Command}

theorem Shape.nil : Shape key [] := by constructor <;> simp

theorem Shape.plainBlob (h : Shape key vs) : ∀ v ∈ vs, '/' ∉ v.blobID.toList := by
  intro v mem
  rcases h.blob v mem with eq | eq
  · simp [eq]
  · rw [eq]
    exact h.plainID v mem

/-- Fields outside `Shape`'s sight do not matter. -/
theorem Shape.map_iff {f : ObjectMeta → ObjectMeta}
    (hkey : ∀ v, (f v).key = v.key) (hid : ∀ v, (f v).versionID = v.versionID)
    (hblob : ∀ v, (f v).blobID = v.blobID) (hmark : ∀ v, (f v).deleteMarker = v.deleteMarker) :
    Shape key (vs.map f) ↔ Shape key vs := by
  have path : ∀ v, Env.atKeyPath (f v) = Env.atKeyPath v := fun v => by
    simp [Env.atKeyPath, hblob, hmark]
  constructor <;> intro h <;> refine ⟨?_, ?_, ?_, ?_, ?_, ?_⟩
  · simpa [hkey] using h.own
  · simpa [hid] using h.named
  · simpa [hid] using h.plainID
  · simpa [hblob, hid] using h.blob
  · simpa [hblob, hmark] using h.marker
  · simpa [← List.map_tail, path] using h.archived
  · simpa [hkey] using h.own
  · simpa [hid] using h.named
  · simpa [hid] using h.plainID
  · simpa [hblob, hid] using h.blob
  · simpa [hblob, hmark] using h.marker
  · simpa [← List.map_tail, path] using h.archived

/-- A sublist that keeps only the tail's entries behind its head is well-formed. -/
theorem Shape.filter {p : ObjectMeta → Bool} (h : Shape key vs) : Shape key (vs.filter p) := by
  have sub : ∀ v ∈ vs.filter p, v ∈ vs := fun v mem => List.mem_of_mem_filter mem
  refine ⟨fun v m => h.own v (sub v m), fun v m => h.named v (sub v m),
    fun v m => h.plainID v (sub v m), fun v m => h.blob v (sub v m),
    fun v m => h.marker v (sub v m), fun v m => ?_⟩
  cases vs with
  | nil => simp at m
  | cons w rest =>
    refine h.archived v ?_
    rw [List.tail_cons]
    rw [List.filter_cons] at m
    split at m
    · exact List.mem_of_mem_filter m
    · exact List.mem_of_mem_filter (List.mem_of_mem_tail m)

theorem Shape.tail (h : Shape key (v :: rest)) : Shape key rest := by
  have sub : ∀ w ∈ rest, w ∈ v :: rest := fun w mem => List.mem_cons_of_mem v mem
  exact ⟨fun w m => h.own w (sub w m), fun w m => h.named w (sub w m),
    fun w m => h.plainID w (sub w m), fun w m => h.blob w (sub w m),
    fun w m => h.marker w (sub w m), fun w m => h.archived w (List.mem_of_mem_tail m)⟩

theorem Shape.marked (h : Shape key vs) : Shape key (marked vs) := by
  cases vs with
  | nil => exact Shape.nil
  | cons v rest =>
    refine ⟨?_, ?_, ?_, ?_, ?_, h.archived⟩ <;>
      simp only [History.marked, List.forall_mem_cons]
    · exact List.forall_mem_cons.mp h.own
    · exact List.forall_mem_cons.mp h.named
    · exact List.forall_mem_cons.mp h.plainID
    · exact List.forall_mem_cons.mp h.blob
    · exact List.forall_mem_cons.mp h.marker

theorem Shape.promoted (h : Shape key vs) : Shape key (promoted vs) := by
  cases vs with
  | nil => exact h
  | cons v rest =>
    refine ⟨fun w mem => ?_, fun w mem => ?_, fun w mem => ?_, fun w mem => ?_, fun w mem => ?_,
      h.archived⟩ <;> rcases List.mem_cons.mp mem with rfl | mem
    · exact h.own v List.mem_cons_self
    · exact h.own w (List.mem_cons_of_mem _ mem)
    · exact h.named v List.mem_cons_self
    · exact h.named w (List.mem_cons_of_mem _ mem)
    · exact h.plainID v List.mem_cons_self
    · exact h.plainID w (List.mem_cons_of_mem _ mem)
    · exact .inl rfl
    · exact h.blob w (List.mem_cons_of_mem _ mem)
    · exact fun _ => rfl
    · exact h.marker w (List.mem_cons_of_mem _ mem)

theorem Shape.taken (h : Shape key vs) : Shape key (taken vid vs) := by
  unfold History.taken
  split
  · exact h.filter.promoted
  · exact h.filter.marked

/-- What a filter keeps behind its first entry was behind the first entry. -/
theorem mem_tail_filter {α : Type} {p : α → Bool} {xs : List α} {w : α}
    (mem : w ∈ (xs.filter p).tail) : w ∈ xs.tail := by
  cases xs with
  | nil => cases mem
  | cons v rest =>
    rw [List.tail_cons]
    rw [List.filter_cons] at mem
    split at mem
    · exact List.mem_of_mem_filter mem
    · exact List.mem_of_mem_filter (List.mem_of_mem_tail mem)

theorem Latest.tail {w : ObjectMeta} (h : Latest vs) (mem : w ∈ vs.tail) : w.isLatest = false := by
  cases vs with
  | nil => cases mem
  | cons v rest => exact (h v rest rfl).2 w mem

theorem Latest.marked (behind : ∀ w ∈ vs.tail, w.isLatest = false) : Latest (marked vs) := by
  cases vs with
  | nil => exact Latest.nil
  | cons v rest =>
    rintro w rest' ⟨⟩
    exact ⟨rfl, behind⟩

theorem Latest.promoted (behind : ∀ w ∈ vs.tail, w.isLatest = false) : Latest (promoted vs) := by
  cases vs with
  | nil => exact Latest.nil
  | cons v rest =>
    rintro w rest' ⟨⟩
    exact ⟨rfl, behind⟩

theorem Latest.kept (h : Latest vs) :
    ∀ w ∈ (keptBy vid vs).tail, w.isLatest = false := fun _ mem => h.tail (mem_tail_filter mem)

theorem Latest.taken (h : Latest vs) : Latest (taken vid vs) := by
  unfold History.taken
  split
  · exact Latest.promoted h.kept
  · exact Latest.marked h.kept

theorem Latest.dropped (h : Latest vs) : ∀ w ∈ (dropped vs).tail, w.isLatest = false := by
  intro w mem
  refine h.tail ?_
  cases vs with
  | nil => cases mem
  | cons cur rest =>
    simp only [History.dropped] at mem
    split at mem
    · exact mem
    · split at mem
      · exact List.mem_of_mem_tail mem
      · exact mem

theorem Latest.nulled {marker : ObjectMeta} (h : Latest vs) :
    Latest (nulled suspended marker vs) := by
  unfold History.nulled
  split
  · exact Latest.prepended _ _
  · exact Latest.marked h.dropped

theorem displaced_archived (h : Shape key vs) :
    ∀ v ∈ displaced enabled vs, Env.atKeyPath v = false := by
  cases vs with
  | nil => simp [displaced]
  | cons cur rest =>
    have restArchived : ∀ v ∈ rest, Env.atKeyPath v = false := h.archived
    intro v mem
    simp only [displaced] at mem
    split at mem
    · rename_i away
      rcases List.mem_cons.mp mem with rfl | mem
      · rcases Bool.or_eq_true _ _ ▸ away with marker | blob
        · simp [Env.atKeyPath, marker]
        · simp only [bne_iff_ne, ne_eq] at blob
          simp [Env.atKeyPath, blob]
      · exact restArchived v mem
    · split at mem
      · rcases List.mem_cons.mp mem with rfl | mem
        · have := h.named cur List.mem_cons_self
          simp [Env.atKeyPath, this]
        · exact restArchived v mem
      · exact restArchived v mem

theorem Shape.displaced (h : Shape key vs) : Shape key (displaced enabled vs) := by
  cases vs with
  | nil => exact Shape.nil
  | cons cur rest =>
    simp only [History.displaced]
    split
    · exact h
    · rename_i here
      split
      · have here : cur.deleteMarker = false := by
          cases marker : cur.deleteMarker
          · rfl
          · simp [marker] at here
        refine ⟨?_, ?_, ?_, ?_, ?_, h.archived⟩ <;> simp only [List.forall_mem_cons]
        · exact List.forall_mem_cons.mp h.own
        · exact List.forall_mem_cons.mp h.named
        · exact List.forall_mem_cons.mp h.plainID
        · exact ⟨.inr trivial, (List.forall_mem_cons.mp h.blob).2⟩
        · exact ⟨fun marker => by simp [here] at marker, (List.forall_mem_cons.mp h.marker).2⟩
      · exact h.tail

/-- A new version in front of displaced ones. -/
theorem Shape.prepended (h : Shape key vs) (away : ∀ v ∈ vs, Env.atKeyPath v = false)
    (own : nv.key = key) (named : nv.versionID ≠ "") (plain : '/' ∉ nv.versionID.toList)
    (blob : nv.blobID = "") : Shape key (prepended nv vs) := by
  have rest := (Shape.map_iff (f := fun v => { v with isLatest := false }) (fun _ => rfl)
    (fun _ => rfl) (fun _ => rfl) (fun _ => rfl)).mpr h
  refine ⟨?_, ?_, ?_, ?_, ?_, ?_⟩
  · exact List.forall_mem_cons.mpr ⟨own, rest.own⟩
  · exact List.forall_mem_cons.mpr ⟨named, rest.named⟩
  · exact List.forall_mem_cons.mpr ⟨plain, rest.plainID⟩
  · exact List.forall_mem_cons.mpr ⟨.inl blob, rest.blob⟩
  · exact List.forall_mem_cons.mpr ⟨fun _ => blob, rest.marker⟩
  · simp only [History.prepended, List.tail_cons, List.mem_map, forall_exists_index, and_imp,
      forall_apply_eq_imp_iff₂]
    exact away

/-- After a drop no entry is the object file. -/
theorem dropped_archived (h : Shape key vs) : ∀ v ∈ dropped vs, Env.atKeyPath v = false := by
  cases vs with
  | nil => simp [dropped]
  | cons cur rest =>
    have tail := h.archived
    rw [List.tail_cons] at tail
    intro v mem
    simp only [dropped] at mem
    split at mem
    · rename_i marker
      rcases List.mem_cons.mp mem with rfl | mem
      · simp [Env.atKeyPath, marker]
      · exact tail v mem
    · split at mem
      · exact tail v mem
      · rename_i keep
        rcases List.mem_cons.mp mem with rfl | mem
        · have away : v.blobID ≠ "" := fun h => keep (.inr h)
          simp [Env.atKeyPath, away]
        · exact tail v mem

theorem Shape.dropped (h : Shape key vs) : Shape key (dropped vs) := by
  cases vs with
  | nil => exact h
  | cons cur rest =>
    simp only [History.dropped]
    split
    · exact h
    · split
      · exact h.tail
      · exact h

theorem archivedID_eq_some (h : archivedID enabled vs = some id) :
    ∃ cur rest, vs = cur :: rest ∧ Env.atKeyPath cur = true ∧ id = cur.versionID ∧
      (enabled = true ∨ cur.versionID ≠ "null") ∧
      displaced enabled vs = { cur with blobID := cur.versionID } :: rest := by
  cases vs with
  | nil => cases h
  | cons cur rest =>
    simp only [archivedID, displaced] at h ⊢
    split at h
    · cases h
    · rename_i here
      split at h
      · rename_i keep
        cases h
        refine ⟨cur, rest, rfl, ?_, rfl, ?_, ?_⟩
        · simpa [Env.atKeyPath, Bool.or_eq_true, and_comm] using here
        · simpa using keep
        · rw [if_neg here, if_pos keep]
      · cases h

/-- Without archiving the list stays, or loses an unversioned object file. -/
theorem archivedID_eq_none (h : archivedID enabled vs = none) :
    (displaced enabled vs = vs ∧ vs.head?.any Env.atKeyPath = false) ∨
    (∃ cur rest, vs = cur :: rest ∧ Env.atKeyPath cur = true ∧ enabled = false ∧
      cur.versionID = "null" ∧ displaced enabled vs = rest) := by
  cases vs with
  | nil => exact .inl ⟨rfl, rfl⟩
  | cons cur rest =>
    simp only [archivedID, displaced] at h ⊢
    split at h
    · rename_i away
      refine .inl ⟨by rw [if_pos away], ?_⟩
      simp only [List.head?_cons, Option.any_some]
      rw [Bool.eq_false_iff, ne_eq, atKeyPath_iff]
      rintro ⟨blob, marker⟩
      simp [blob, marker] at away
    · rename_i here
      split at h
      · cases h
      · rename_i drop
        refine .inr ⟨cur, rest, rfl, ?_, ?_, ?_, ?_⟩
        · simpa [Env.atKeyPath, Bool.or_eq_true, and_comm] using here
        · exact (by simpa using drop : enabled = false ∧ cur.versionID = "null").1
        · exact (by simpa using drop : enabled = false ∧ cur.versionID = "null").2
        · rw [if_neg here, if_neg drop]

/-! ### Metadata changes -/

/-- A version without the metadata that commands change in place. -/
def core (v : ObjectMeta) : ObjectMeta :=
  { v with acl := none, tags := [], retention := none, legalHold := none }

theorem Shape.of_core (h : Shape key vs) (eq : vs'.map core = vs.map core) : Shape key vs' := by
  have iff : ∀ l, Shape key (l.map core) ↔ Shape key l := fun l =>
    Shape.map_iff (fun _ => rfl) (fun _ => rfl) (fun _ => rfl) (fun _ => rfl)
  rw [← iff, eq, iff]
  exact h

theorem Latest.of_core (h : Latest vs) (eq : vs'.map core = vs.map core) : Latest vs' := by
  rintro w rest rfl
  cases vs with
  | nil => simp at eq
  | cons v vs =>
    simp only [List.map_cons, List.cons.injEq] at eq
    obtain ⟨first, others⟩ := h v vs rfl
    refine ⟨?_, fun u mem => ?_⟩
    · exact (congrArg ObjectMeta.isLatest eq.1).trans first
    · obtain ⟨u', mem', same⟩ := List.mem_map.mp (eq.2 ▸ List.mem_map_of_mem mem)
      exact (congrArg ObjectMeta.isLatest same).symm.trans (others u' mem')

theorem head_of_core (eq : vs'.map core = vs.map core) :
    vs'.head?.any Env.atKeyPath = vs.head?.any Env.atKeyPath := by
  cases vs' with
  | nil =>
    cases vs with
    | nil => rfl
    | cons v vs => cases eq
  | cons w ws =>
    cases vs with
    | nil => cases eq
    | cons v vs =>
      have same := (List.cons.inj eq).1
      have blob := congrArg ObjectMeta.blobID same
      have marker := congrArg ObjectMeta.deleteMarker same
      simp only [core] at blob marker
      simp [Env.atKeyPath, blob, marker]

theorem singleLive_of_core (eq : vs'.map core = vs.map core) : singleLive vs' = singleLive vs := by
  have through : ∀ l : List ObjectMeta, singleLive (l.map core) = singleLive l := fun l => by
    match l with
    | [] => rfl
    | [_] => rfl
    | _ :: _ :: _ => rfl
  rw [← through vs', eq, through vs]

/-- A history that needs a file does not make way completely. -/
theorem displaced_ne_nil (ne : vs ≠ []) (many : singleLive vs = false) : displaced enabled vs ≠ [] := by
  match vs, ne with
  | [v], _ =>
    have marker : v.deleteMarker = true := by simpa [singleLive] using many
    simp [displaced, marker]
  | v :: w :: rest, _ =>
    rw [displaced]
    split
    · exact List.cons_ne_nil _ _
    · split <;> exact List.cons_ne_nil _ _

theorem alone_of_singleLive {km : KeyMeta} (h : singleLive (km.prependLatest nv).versions = true) :
    km.versions = [] := by
  match versions : km.versions with
  | [] => rfl
  | v :: rest => simp [KeyMeta.prependLatest, versions, singleLive] at h

theorem mutate_core {w : ObjectMeta} (h : e.mutate c v = .ok w) : core w = core v := by
  unfold Env.mutate at h
  split at h
  all_goals first
    | (split at h <;> cases h; rfl)
    | (cases h; rfl)

theorem amendVersion_core (hf : ∀ v w, f v = .ok w → core w = core v)
    (h : Env.amendVersion f vid vs = .ok vs') : vs'.map core = vs.map core := by
  induction vs generalizing vs' with
  | nil => cases h
  | cons v rest ih =>
    simp only [Env.amendVersion] at h
    split at h
    · cases hv : f v with
      | error err => simp [hv] at h
      | ok w =>
        simp only [hv, except_ok_bind, Except.ok.injEq] at h
        subst h
        simp [hf v w hv]
    · cases hr : Env.amendVersion f vid rest with
      | error err => simp [hr] at h
      | ok rest' =>
        simp only [hr, except_ok_bind, Except.ok.injEq] at h
        subst h
        simp [ih hr]

theorem amendLatest_core (hf : ∀ v w, f v = .ok w → core w = core v)
    (h : Env.amendLatest f vs = .ok vs') : vs'.map core = vs.map core := by
  cases vs with
  | nil => cases h
  | cons v rest =>
    simp only [Env.amendLatest] at h
    split at h
    · cases h
    · cases hv : f v with
      | error err => simp [hv] at h
      | ok w =>
        simp only [hv, except_ok_bind, Except.ok.injEq] at h
        subst h
        simp [hf v w hv]

/-- A metadata command changes nothing else about a history. -/
theorem amendTarget_core (h : e.amendTarget c vs = .ok vs') : vs'.map core = vs.map core := by
  unfold Env.amendTarget at h
  split at h
  · exact amendVersion_core (fun _ _ => mutate_core) h
  · exact amendLatest_core (fun _ _ => mutate_core) h

end History

end D9Store
