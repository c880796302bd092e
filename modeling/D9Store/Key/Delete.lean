import D9Store.Key.Put

/-!
Deletions that take versions away, on one key.

Removing the last version empties the key: the object file, the emptied directories above
it and the history file go. That pruning is harmless only while no other object file stands
on the way to the key.
-/

namespace D9Store

open Posix FilePath History

namespace Site

variable {e : Env} {x : Site e} {s t s₂ s₃ : Disk} {c : Command} {vs rest : List ObjectMeta}
    {B : Set String} {S : Set FilePath} {id vid kind : String}

/-- No other object file stands on the way to the key. -/
def Unblocked (x : Site e) (s : Disk) : Prop :=
  ∀ q, q <:+ x.op.tail → Below (e.bucketDir x.bucket) q → s.file q = none

instance (s : Disk) : Decidable (x.Unblocked s) :=
  decidable_of_iff (∀ q ∈ x.op.tail.tails, Below (e.bucketDir x.bucket) q → s.file q = none)
    (forall_congr' fun q => imp_congr_left (List.mem_tails q _))

theorem Unblocked.of_file {f : File} (file : s.file x.op = some f) : x.Unblocked s :=
  fun q sub _ => Env.clear_of_file file q sub

theorem Unblocked.framed {F D : Set FilePath} (h : x.Unblocked s) (frame : Framed F D s t)
    (out : ∀ q ∈ F, ¬ q <:+ x.op.tail) : x.Unblocked t := fun q sub below => by
  rw [frame.file q fun mem => out q mem sub, h q sub below]

/-! ### Blobs -/

/-- The blobs of the given versions. -/
def blobsOf (vs : List ObjectMeta) : Set String := {id | ∃ v ∈ vs, v.blobID = id ∧ id ≠ ""}

/-- The files of the given blobs. -/
def blobCells (x : Site e) (vs : List ObjectMeta) : Set FilePath :=
  {q | ∃ id ∈ blobsOf vs, q = x.blob id}

theorem removeArchivedBlob_spec (id : String) :
    ∃ t, e.removeArchivedBlob x.bucket id s = .ok () t ∧ (id = "" → t = s) ∧
      Framed {x.blob id} ∅ s t ∧ (id ≠ "" → t.file (x.blob id) = none) := by
  unfold Env.removeArchivedBlob
  by_cases empty : id = ""
  · exact ⟨s, by simp [empty], fun _ => rfl, Framed.refl s, fun h => absurd empty h⟩
  · obtain ⟨frame, gone⟩ := Env.file_ignore_remove
      (Env.ignore_runs (remove (x.blob id) : Call File Unit) s)
    refine ⟨_, ?_, fun h => absurd h empty, frame, fun _ => gone⟩
    rw [if_neg empty]
    exact Env.ignore_runs (remove (x.blob id) : Call File Unit) s

theorem removeBlobs_spec (vs : List ObjectMeta) :
    ∃ t, e.removeBlobs x.bucket vs s = .ok () t ∧ Framed (x.blobCells vs) ∅ s t ∧
      ∀ v ∈ vs, v.blobID ≠ "" → t.file (x.blob v.blobID) = none := by
  induction vs generalizing s with
  | nil => exact ⟨s, rfl, Framed.refl s, by simp⟩
  | cons v rest ih =>
    obtain ⟨s₁, run₁, idle, frame₁, gone₁⟩ := removeArchivedBlob_spec (x := x) (s := s) v.blobID
    -- an entry at the key path has no blob, so the guard and the empty id agree
    have guarded : (if Env.atKeyPath v then pure ()
        else e.removeArchivedBlob x.bucket v.blobID : M Unit) s = .ok () s₁ := by
      by_cases here : Env.atKeyPath v = true
      · rw [if_pos here, idle (atKeyPath_iff.mp here).1]
        rfl
      · rw [if_neg here, run₁]
    obtain ⟨t, run₂, frame₂, gone₂⟩ := ih (s := s₁)
    refine ⟨t, ?_, ?_, ?_⟩
    · unfold Env.removeBlobs
      by_cases here : Env.atKeyPath v = true
      · rw [if_pos here] at guarded
        cases guarded
        simpa [here] using run₂
      · rw [if_neg here] at guarded
        simp only [here, Bool.false_eq_true, if_false]
        exact bind_ok.mpr ⟨(), s₁, guarded, run₂⟩
    · refine Framed.trans (t := s₁) ?_ (frame₂.mono ?_ subset_rfl)
      · by_cases empty : v.blobID = ""
        · rw [idle empty]
          exact Framed.refl s
        · refine frame₁.mono ?_ subset_rfl
          rintro q rfl
          exact ⟨_, ⟨v, List.mem_cons_self, rfl, empty⟩, rfl⟩
      · rintro q ⟨id, ⟨w, mem, eq, ne⟩, rfl⟩
        exact ⟨id, ⟨w, List.mem_cons_of_mem _ mem, eq, ne⟩, rfl⟩
    · intro w mem filed
      by_cases again : x.blob w.blobID ∈ x.blobCells rest
      · obtain ⟨id, ⟨u, memu, eq, ne⟩, same⟩ := again
        have := gone₂ u memu (by rw [eq]; exact ne)
        rw [eq, ← same] at this
        exact this
      · rw [frame₂.file _ again]
        rcases List.mem_cons.mp mem with rfl | mem
        · exact gone₁ filed
        · exact absurd ⟨_, ⟨w, mem, rfl, filed⟩, rfl⟩ again

theorem blobsOf_filter {p : ObjectMeta → Bool} (vs : List ObjectMeta) :
    blobsOf (vs.filter p) ⊆ blobsOf vs := fun _ ⟨v, mem, eq⟩ => ⟨v, List.mem_of_mem_filter mem, eq⟩

theorem blobCells_subset (plain : ∀ v ∈ vs, '/' ∉ v.blobID.toList) (sub : blobsOf vs ⊆ B) :
    x.blobCells vs ⊆ x.cells B S := by
  rintro q ⟨id, ⟨v, mem, eq, ne⟩, rfl⟩
  exact .inr (.inr (.inr (.inr (.inl
    ⟨id, sub ⟨v, mem, eq, ne⟩, by rw [← eq]; exact plain v mem, .inl rfl⟩))))

/-! ### The last version -/

/-- A key without versions leaves no file. -/
theorem finalizeKey_nil (ready : x.Ready s) (clear : x.Unblocked s) :
    ∃ t, e.finalizeKey (x.keyMeta []) s = .ok () t ∧ Framed {x.op, x.hp} ∅ s t ∧
      t.file x.op = none ∧ t.file x.hp = none := by
  obtain ⟨s₁, run₁, frame₁, gone⟩ := Env.removeCurrent_spec x.op_eq clear
  have ready₁ : x.Ready s₁ := ready.framed (B := ∅) (S := ∅)
    (frame₁.mono (by rintro q rfl; exact .inl rfl) (by simp))
  obtain ⟨t, run₂⟩ := Env.removeIfPresent_runs ready₁.history_clear ready₁.history_free
  obtain ⟨frame₂, noHistory⟩ := wp_ok (Env.removeIfPresent_wp x.hp) run₂
  refine ⟨t, ?_, ?_, ?_, noHistory⟩
  · simp only [Env.finalizeKey, keyMeta]
    refine bind_ok.mpr ⟨(), s₁, run₁, ?_⟩
    exact bind_ok.mpr ⟨x.hp, s₁, reading_run x.hp_eq, run₂⟩
  · exact (frame₁.mono (by simp) subset_rfl).trans (frame₂.mono (by simp) subset_rfl)
  · rw [frame₂.file _ x.op_ne_hp, gone]

theorem versions_nil (op : t.file x.op = none) (hp : t.file x.hp = none) : x.versions t = [] := by
  simp [versions, content, op, hp]

theorem sound_nil (op : t.file x.op = none) (hp : t.file x.hp = none) : x.Sound t := by
  have none := versions_nil op hp
  refine ⟨by simp [content, hp], ?_, ?_, by simp [none, op]⟩
  · rw [none]; exact Shape.nil
  · rw [none]; exact Latest.nil

theorem deleteVersion_eq (addr : x.Addresses c) (vs : List ObjectMeta) :
    e.deleteVersion c (x.keyMeta vs) = (do
      e.removeBlobs x.bucket (removedBy c.versionID vs)
      if (removedBy c.versionID vs).any Env.atKeyPath then do
        e.removeCurrent x.bucket x.key
        let kept ← e.promoteNewLatest (x.keyMeta (keptBy c.versionID vs))
        e.finalizeKey kept
      else e.finalizeKey (x.keyMeta (marked (keptBy c.versionID vs)))) := by
  obtain ⟨bucket, key⟩ := addr
  simp only [Env.deleteVersion, bucket, key, markLatest_eq]
  rfl

/-- Blobs do not stand on the way to an object. -/
theorem blob_not_above (plain : '/' ∉ id.toList) : ¬ x.blob id <:+ x.op.tail :=
  fun sub => Env.data_not_area x.root_op
    ((x.area_blob plain).trans (sub.trans (List.tail_suffix x.op))) rfl

/-- Deleting all there is: nothing of the key is left. -/
theorem deleteVersion_last (ready : x.Ready s) (sound : x.Sound s) (addr : x.Addresses c)
    (last : keptBy c.versionID (x.versions s) = []) (clear : x.Unblocked s) :
    ∃ t, e.deleteVersion c (x.keyMeta (x.versions s)) s = .ok () t ∧
      Framed (x.blobCells (removedBy c.versionID (x.versions s)) ∪ {x.op, x.hp}) ∅ s t ∧
      t.file x.op = none ∧ t.file x.hp = none := by
  set removed := removedBy c.versionID (x.versions s) with removed_def
  have plain : ∀ v ∈ removed, '/' ∉ v.blobID.toList := fun v mem =>
    sound.shape.plainBlob v (List.mem_of_mem_filter mem)
  obtain ⟨s₁, run₁, frame₁, -⟩ := removeBlobs_spec (x := x) (s := s) removed
  have ready₁ : x.Ready s₁ := ready.framed (B := Set.univ) (S := ∅)
    (frame₁.mono (blobCells_subset plain (Set.subset_univ _)) (by simp))
  have clear₁ : x.Unblocked s₁ := clear.framed frame₁ (by
    rintro q ⟨id, ⟨v, mem, eq, -⟩, rfl⟩
    exact blob_not_above (by rw [← eq]; exact plain v mem))
  rw [deleteVersion_eq addr, ← removed_def, last]
  by_cases here : removed.any Env.atKeyPath = true
  · obtain ⟨s₂, run₂, frame₂, -⟩ := Env.removeCurrent_spec x.op_eq clear₁
    have ready₂ : x.Ready s₂ := ready₁.framed (B := ∅) (S := ∅)
      (frame₂.mono (by rintro q rfl; exact .inl rfl) (by simp))
    have clear₂ : x.Unblocked s₂ := clear₁.framed frame₂ (by
      rintro q rfl
      exact not_suffix_tail x.op_ne_nil le_rfl)
    obtain ⟨t, run₃, frame₃, op, hp⟩ := finalizeKey_nil ready₂ clear₂
    refine ⟨t, bind_ok.mpr ⟨(), s₁, run₁, ?_⟩, ?_, op, hp⟩
    · rw [if_pos here]
      exact bind_ok.mpr ⟨(), s₂, run₂, bind_ok.mpr ⟨x.keyMeta [], s₂, rfl, run₃⟩⟩
    · refine (frame₁.mono Set.subset_union_left subset_rfl).trans
        ((frame₂.mono ?_ subset_rfl).trans (frame₃.mono Set.subset_union_right subset_rfl))
      rintro q rfl
      exact .inr (.inl rfl)
  · obtain ⟨t, run₃, frame₃, op, hp⟩ := finalizeKey_nil ready₁ clear₁
    refine ⟨t, bind_ok.mpr ⟨(), s₁, run₁, by rw [if_neg here]; exact run₃⟩, ?_, op, hp⟩
    exact (frame₁.mono Set.subset_union_left subset_rfl).trans
      (frame₃.mono Set.subset_union_right subset_rfl)

/-! ### Versions that stay -/

/-- The bytes every archived version needs. -/
def Backed (x : Site e) (s : Disk) : Prop :=
  ∀ v ∈ x.versions s, v.deleteMarker = false → (x.bodyAt s v).isSome = true

/-- What an explicit deletion that keeps versions leaves behind. -/
structure Taken (x : Site e) (vid : String) (s t : Disk) : Prop where
  frame : Framed (x.cells (blobsOf (x.versions s)) ∅) x.dirs s t
  recorded : x.Recorded (taken vid (x.versions s)) t
  tmp : t.file (Env.tmpOf x.op) = s.file (Env.tmpOf x.op) ∨ t.file (Env.tmpOf x.op) = none
  head : ∀ v rest, keptBy vid (x.versions s) = v :: rest →
    ∀ w rest', taken vid (x.versions s) = w :: rest' → x.bodyAt t w = x.bodyAt s v
  tail : ∀ v ∈ (keptBy vid (x.versions s)).tail, x.bodyAt t v = x.bodyAt s v

/-- A blob that stays: its version has another id than the removed ones. -/
theorem kept_blob_out (sound : x.Sound s) {v : ObjectMeta} (mem : v ∈ keptBy vid (x.versions s))
    (filed : v.blobID ≠ "") : x.blob v.blobID ∉ x.blobCells (removedBy vid (x.versions s)) := by
  rintro ⟨id, ⟨w, memw, eq, ne⟩, same⟩
  obtain ⟨memv, idv⟩ := List.mem_filter.mp mem
  obtain ⟨memw, idw⟩ := List.mem_filter.mp memw
  have samev : v.blobID = v.versionID := (sound.shape.blob v memv).resolve_left filed
  have samew : w.blobID = w.versionID := (sound.shape.blob w memw).resolve_left (by rw [eq]; exact ne)
  have blobs := blob_injective (sound.shape.plainBlob v memv)
    (by rw [← eq]; exact sound.shape.plainBlob w memw) same
  rw [← eq, samev, samew] at blobs
  rw [blobs] at idv
  simp_all

/-- The object file belongs to the first version that stays, unless it is removed. -/
theorem kept_head (sound : x.Sound s)
    (behind : (removedBy vid (x.versions s)).any Env.atKeyPath = false) :
    (s.file x.op).isSome = (marked (keptBy vid (x.versions s))).head?.any Env.atKeyPath := by
  rw [sound.head]
  have archived := sound.shape.archived
  cases eq : x.versions s with
  | nil => rfl
  | cons v rest =>
    rw [eq] at archived behind
    rw [List.tail_cons] at archived
    by_cases id : v.versionID = vid
    · have away : Env.atKeyPath v = false := by
        simp only [removedBy, List.any_filter, List.any_eq_false] at behind
        have := behind v List.mem_cons_self
        simpa [id] using this
      have kept : keptBy vid (v :: rest) = keptBy vid rest := by simp [keptBy, id]
      rw [kept]
      cases eq' : keptBy vid rest with
      | nil => simp [away, marked]
      | cons w rest' =>
        have : w ∈ rest := List.mem_of_mem_filter (by
          rw [show rest.filter (fun v => v.versionID != vid) = w :: rest' from eq']
          exact List.mem_cons_self)
        exact away.trans (archived w this).symm
    · have kept : keptBy vid (v :: rest) = v :: keptBy vid rest := by simp [keptBy, id]
      rw [kept]
      rfl

theorem record_out {p : FilePath} (area : e.area kind <:+ p) (ne : kind ≠ "history") :
    p ∉ ({x.op, x.hp, Env.jsonTmp x.hp} : Set FilePath) := by
  rintro (h | h | h)
  · exact Env.data_not_area x.root_op area h.symm
  · exact Env.area_ne area x.area_hp ne h
  · exact Env.area_ne area x.area_hpTmp ne h

theorem record_tmp_out : Env.tmpOf x.op ∉ ({x.op, x.hp, Env.jsonTmp x.hp} : Set FilePath) := by
  rintro (h | h | h)
  · exact suffixed_ne (by decide) h
  · exact Env.data_not_area x.root_tmp x.area_hp h
  · exact Env.data_not_area x.root_tmp x.area_hpTmp h

theorem record_subset : ({x.op, x.hp, Env.jsonTmp x.hp} : Set FilePath) ⊆ x.cells B S := by
  rintro q (h | h | h)
  · exact .inl h
  · exact .inr (.inr (.inl h))
  · exact .inr (.inr (.inr (.inl h)))

/-- Deleting versions behind the object file. -/
theorem deleteVersion_behind (ready : x.Ready s) (sound : x.Sound s) (addr : x.Addresses c)
    (full : keptBy c.versionID (x.versions s) ≠ [])
    (behind : (removedBy c.versionID (x.versions s)).any Env.atKeyPath = false) :
    ∃ t, e.deleteVersion c (x.keyMeta (x.versions s)) s = .ok () t ∧ x.Taken c.versionID s t := by
  have plain : ∀ v ∈ removedBy c.versionID (x.versions s), '/' ∉ v.blobID.toList := fun v mem =>
    sound.shape.plainBlob v (List.mem_of_mem_filter mem)
  have own : blobsOf (removedBy c.versionID (x.versions s)) ⊆ blobsOf (x.versions s) :=
    blobsOf_filter _
  obtain ⟨s₁, run₁, frame₁, -⟩ :=
    removeBlobs_spec (x := x) (s := s) (removedBy c.versionID (x.versions s))
  have wide₁ : Framed (x.cells (blobsOf (x.versions s)) ∅) x.dirs s s₁ :=
    frame₁.mono (blobCells_subset plain own) (Set.empty_subset _)
  have data_out : ∀ {q}, e.root <:+ q → q ∉ x.blobCells (removedBy c.versionID (x.versions s)) := by
    rintro q data ⟨id, ⟨v, mem, eq, -⟩, rfl⟩
    exact Env.data_not_area data (x.area_blob (by rw [← eq]; exact plain v mem)) rfl
  have taken_eq : taken c.versionID (x.versions s) = marked (keptBy c.versionID (x.versions s)) := by
    rw [taken, behind]
    rfl
  obtain ⟨t, run₂, frame₂, -, op, recorded⟩ := record_spec (ready.framed wide₁)
    (marked (keptBy c.versionID (x.versions s)))
    (by rw [frame₁.file _ (data_out x.root_op), kept_head sound behind])
  have frame₂ := record_frame frame₂
  have sameOp : content t x.op = content s x.op := by
    rw [op, content_of_file_eq (frame₁.file _ (data_out x.root_op))]
  have bodies : ∀ v ∈ keptBy c.versionID (x.versions s), x.bodyAt t v = x.bodyAt s v := by
    intro v mem
    unfold bodyAt
    by_cases filed : v.blobID = ""
    · simp [filed, sameOp]
    · have area := x.area_blob (sound.shape.plainBlob v (List.mem_of_mem_filter mem))
      rw [content_of_file_eq ((frame₂.file _ (record_out area (by decide))).trans
        (frame₁.file _ (kept_blob_out sound mem filed))), sameOp]
  refine ⟨t, ?_, wide₁.trans (frame₂.mono record_subset subset_rfl), by rwa [taken_eq],
    .inl ?_, ?_, fun v mem => bodies v (List.mem_of_mem_tail mem)⟩
  · rw [deleteVersion_eq addr]
    refine bind_ok.mpr ⟨(), s₁, run₁, ?_⟩
    rw [if_neg (by simp [behind]), Env.finalizeKey,
      if_neg (by simpa [keyMeta, marked_eq_nil] using full)]
    exact run₂
  · rw [frame₂.file _ record_tmp_out, frame₁.file _ (data_out x.root_tmp)]
  · intro v rest eq w rest' eq'
    rw [taken_eq, eq] at eq'
    cases eq'
    exact bodies v (by rw [eq]; exact List.mem_cons_self)

/-- The state after the removed versions' files are gone, the object file being one. -/
theorem remove_head (sound : x.Sound s)
    (head : (removedBy vid (x.versions s)).any Env.atKeyPath = true) :
    ∃ s₂, (do e.removeBlobs x.bucket (removedBy vid (x.versions s))
              e.removeCurrent x.bucket x.key) s = .ok () s₂ ∧
      Framed (x.blobCells (removedBy vid (x.versions s)) ∪ {x.op}) ∅ s s₂ ∧ s₂.file x.op = none ∧
      s₂.get x.op ≠ some .dir ∧ ∀ q, q <:+ x.op.tail → s₂.file q = none := by
  obtain ⟨v, mem, here⟩ := List.any_eq_true.mp head
  obtain ⟨f, file⟩ : ∃ f, s.file x.op = some f := by
    rw [← Option.isSome_iff_exists, sound.head]
    cases eq : x.versions s with
    | nil => simp [eq, removedBy] at mem
    | cons w rest =>
      have archived := sound.shape.archived
      rw [eq, List.tail_cons] at archived
      rcases List.mem_cons.mp (eq ▸ List.mem_of_mem_filter mem) with rfl | mem
      · simpa using here
      · rw [archived v mem] at here
        cases here
  have plain : ∀ v ∈ removedBy vid (x.versions s), '/' ∉ v.blobID.toList := fun v mem =>
    sound.shape.plainBlob v (List.mem_of_mem_filter mem)
  obtain ⟨s₁, run₁, frame₁, -⟩ := removeBlobs_spec (x := x) (s := s) (removedBy vid (x.versions s))
  have out : ∀ q, e.root <:+ q → q ∉ x.blobCells (removedBy vid (x.versions s)) := by
    rintro q data ⟨id, ⟨v, mem, eq, -⟩, rfl⟩
    exact Env.data_not_area data (x.area_blob (by rw [← eq]; exact plain v mem)) rfl
  have file₁ : s₁.file x.op = some f := by rw [frame₁.file _ (out _ x.root_op), file]
  obtain ⟨s₂, run₂, frame₂, gone⟩ := Env.removeCurrent_spec x.op_eq (Unblocked.of_file file₁)
  refine ⟨s₂, bind_ok.mpr ⟨(), s₁, run₁, run₂⟩, ?_, gone, fun dir => ?_, fun q sub => ?_⟩
  · exact (frame₁.mono Set.subset_union_left subset_rfl).trans
      (frame₂.mono Set.subset_union_right subset_rfl)
  · have := frame₂.dir _ (by simp) dir
    rw [DirTree.file_eq_some.mp file₁] at this
    cases this
  · rw [frame₂.file q, Env.clear_of_file file₁ q sub]
    rintro rfl
    exact not_suffix_tail x.op_ne_nil le_rfl sub

theorem deleteVersion_head_run (addr : x.Addresses c)
    (head : (removedBy c.versionID (x.versions s)).any Env.atKeyPath = true)
    (run₂ : (do e.removeBlobs x.bucket (removedBy c.versionID (x.versions s))
                e.removeCurrent x.bucket x.key) s = .ok () s₂)
    (run₃ : e.promoteNewLatest (x.keyMeta (keptBy c.versionID (x.versions s))) s₂ =
      .ok (x.keyMeta vs) s₃) (full : vs ≠ []) (run₄ : e.writeKeyMeta (x.keyMeta vs) s₃ = .ok () t) :
    e.deleteVersion c (x.keyMeta (x.versions s)) s = .ok () t := by
  obtain ⟨_, s₁, run₁, run₂⟩ := bind_ok.mp run₂
  rw [deleteVersion_eq addr]
  refine bind_ok.mpr ⟨(), s₁, run₁, ?_⟩
  rw [if_pos head]
  refine bind_ok.mpr ⟨(), s₂, run₂, bind_ok.mpr ⟨_, s₃, run₃, ?_⟩⟩
  rw [Env.finalizeKey, if_neg (by simpa [keyMeta] using full)]
  exact run₄

/-- Bringing the first remaining version to the key path. A marker stays where it is. -/
theorem promote_spec {nl : ObjectMeta} (shape : Shape x.key (nl :: rest))
    (gone : s.file x.op = none) (free : s.get x.op ≠ some .dir)
    (clear : ∀ q, q <:+ x.op.tail → s.file q = none) (tmp_free : s.get (Env.tmpOf x.op) ≠ some .dir)
    (away : Env.atKeyPath nl = false)
    (backed : nl.deleteMarker = false → (content s (x.blob nl.blobID)).isSome = true) :
    ∃ t, e.promoteNewLatest (x.keyMeta (nl :: rest)) s = .ok (x.keyMeta (promoted (nl :: rest))) t ∧
      Framed {q | q = x.op ∨ q = Env.tmpOf x.op ∨ (nl.blobID ≠ "" ∧ q = x.blob nl.blobID)}
        {q | q <:+ x.op.tail} s t ∧
      (t.file x.op).isSome = (promoted (nl :: rest)).head?.any Env.atKeyPath ∧
      (nl.deleteMarker = false → content t x.op = content s (x.blob nl.blobID)) ∧
      (t.file (Env.tmpOf x.op) = s.file (Env.tmpOf x.op) ∨ t.file (Env.tmpOf x.op) = none) := by
  by_cases marker : nl.deleteMarker = true
  · have blob := shape.marker nl List.mem_cons_self marker
    refine ⟨s, ?_, Framed.refl s, ?_, fun live => ?_, .inl rfl⟩
    · simp only [Env.promoteNewLatest, keyMeta, marker, promoted]
      cases nl
      simp_all
    · simp [gone, promoted, Env.atKeyPath, marker]
    · rw [marker] at live
      cases live
  · have filed : nl.blobID ≠ "" := fun empty => by simp [Env.atKeyPath, marker, empty] at away
    have plain := shape.plainBlob nl List.mem_cons_self
    obtain ⟨c, found⟩ := Option.isSome_iff_exists.mp (backed (by simpa using marker))
    obtain ⟨f, file, fc⟩ := Option.map_eq_some_iff.mp found
    obtain ⟨t, run⟩ := moveToKey_runs (x.area_blob plain) file clear free tmp_free
    obtain ⟨frame, moved, -, tmp⟩ := wp_ok (moveToKey_wp (x.area_blob plain) file) run
    refine ⟨t, ?_, frame.mono ?_ subset_rfl, ?_, fun _ => ?_, tmp.imp id And.right⟩
    · have attempted : attempt (e.promoteArchived x.bucket x.key nl.blobID) s =
          (.ok (.ok ()) t : EStateM.Result Err Disk (Except Err Unit)) := by
        rw [promoteArchived_eq, attempt, run]
      have guard : (!nl.deleteMarker && nl.blobID != "") = true := by simp [marker, filed]
      simp only [Env.promoteNewLatest, keyMeta, guard, if_true]
      exact bind_ok.mpr ⟨_, t, attempted, rfl⟩
    · rintro q (rfl | rfl | rfl)
      · exact .inr (.inr ⟨filed, rfl⟩)
      · exact .inl rfl
      · exact .inr (.inl rfl)
    · obtain ⟨g, file', -⟩ := Option.map_eq_some_iff.mp moved
      simp [file', promoted, Env.atKeyPath, marker]
    · rw [moved, found, fc]

/-- With the version at the key path gone, every other one is archived or a marker. -/
theorem kept_away (sound : x.Sound s)
    (head : (removedBy vid (x.versions s)).any Env.atKeyPath = true) :
    ∀ v ∈ keptBy vid (x.versions s), Env.atKeyPath v = false := by
  have archived := sound.shape.archived
  obtain ⟨w, memw, here⟩ := List.any_eq_true.mp head
  obtain ⟨memw, idw⟩ := List.mem_filter.mp memw
  intro v mem
  obtain ⟨memv, idv⟩ := List.mem_filter.mp mem
  cases eq : x.versions s with
  | nil => simp [eq] at memv
  | cons u rest =>
    rw [eq] at memw memv archived
    rw [List.tail_cons] at archived
    rcases List.mem_cons.mp memv with rfl | memv
    · rcases List.mem_cons.mp memw with rfl | memw
      · simp_all
      · rw [archived w memw] at here
        cases here
    · exact archived v memv

/-- Deleting the version at the key path brings the next one there. -/
theorem deleteVersion_head (ready : x.Ready s) (sound : x.Sound s) (addr : x.Addresses c)
    (backed : x.Backed s) (tmp_free : s.get (Env.tmpOf x.op) ≠ some .dir)
    (full : keptBy c.versionID (x.versions s) ≠ [])
    (head : (removedBy c.versionID (x.versions s)).any Env.atKeyPath = true)
    (distinct : ∀ v rest, keptBy c.versionID (x.versions s) = v :: rest → v.blobID ≠ "" →
      ∀ w ∈ rest, w.blobID ≠ v.blobID) :
    ∃ t, e.deleteVersion c (x.keyMeta (x.versions s)) s = .ok () t ∧ x.Taken c.versionID s t := by
  obtain ⟨nl, rest, kept⟩ := List.exists_cons_of_ne_nil full
  obtain ⟨s₂, run₂, frame₂, gone, free, clear⟩ := remove_head sound head
  have mem : nl ∈ keptBy c.versionID (x.versions s) := by rw [kept]; exact List.mem_cons_self
  have shape : Shape x.key (nl :: rest) := by rw [← kept]; exact sound.shape.filter
  have keptMem : ∀ v ∈ nl :: rest, v ∈ keptBy c.versionID (x.versions s) := fun v mem => by rwa [kept]
  have plain : ∀ v ∈ nl :: rest, '/' ∉ v.blobID.toList := shape.plainBlob
  have away : ∀ v ∈ nl :: rest, Env.atKeyPath v = false := fun v mem =>
    kept_away sound head v (keptMem v mem)
  have filed : ∀ v ∈ nl :: rest, v.deleteMarker = false → v.blobID ≠ "" := fun v mem live empty => by
    have := away v mem
    simp [Env.atKeyPath, live, empty] at this
  have removedPlain : ∀ v ∈ removedBy c.versionID (x.versions s), '/' ∉ v.blobID.toList :=
    fun v mem => sound.shape.plainBlob v (List.mem_of_mem_filter mem)
  have own : ∀ {v}, v ∈ nl :: rest → v.blobID ≠ "" → v.blobID ∈ blobsOf (x.versions s) :=
    fun {v} mem ne => ⟨v, List.mem_of_mem_filter (keptMem v mem), rfl, ne⟩
  have tmp_out : Env.tmpOf x.op ∉ x.blobCells (removedBy c.versionID (x.versions s)) ∪ {x.op} := by
    rintro (⟨id, ⟨v, mem, eq, -⟩, h⟩ | h)
    · exact Env.data_not_area x.root_tmp (x.area_blob (by rw [← eq]; exact removedPlain v mem)) h
    · exact suffixed_ne (by decide) h
  have stays : ∀ v ∈ nl :: rest, v.blobID ≠ "" →
      content s₂ (x.blob v.blobID) = content s (x.blob v.blobID) := by
    intro v mem ne
    refine content_of_file_eq (frame₂.file _ ?_)
    rintro (h | h)
    · exact kept_blob_out sound (keptMem v mem) ne h
    · exact x.op_ne_blob (plain v mem) h.symm
  have wide₂ : Framed (x.cells (blobsOf (x.versions s)) ∅) x.dirs s s₂ := by
    refine frame₂.mono ?_ (Set.empty_subset _)
    rintro q (h | rfl)
    · exact blobCells_subset removedPlain (blobsOf_filter _) h
    · exact .inl rfl
  obtain ⟨s₃, run₃, frame₃, file₃, moved, tmp₃⟩ := promote_spec shape gone free clear
    (fun dir => tmp_free (frame₂.dir _ (by simp) dir)) (away nl List.mem_cons_self) (fun live => by
      have ne := filed nl List.mem_cons_self live
      rw [stays nl List.mem_cons_self ne]
      have := backed nl (List.mem_of_mem_filter mem) live
      simpa [bodyAt, live, ne] using this)
  have wide₃ : Framed (x.cells (blobsOf (x.versions s)) ∅) x.dirs s₂ s₃ := by
    refine frame₃.mono ?_ fun q sub => .inl sub
    rintro q (rfl | rfl | ⟨ne, rfl⟩)
    · exact .inl rfl
    · exact .inr (.inl rfl)
    · have mem : nl.blobID ∈ blobsOf (x.versions s) := own List.mem_cons_self ne
      exact .inr (.inr (.inr (.inr (.inl ⟨_, mem, plain nl List.mem_cons_self, .inl rfl⟩))))
  obtain ⟨t, run₄, frame₄, -, op, recorded⟩ := record_spec (ready.framed (wide₂.trans wide₃))
    (promoted (nl :: rest)) file₃
  have frame₄ := record_frame frame₄
  have taken_eq : taken c.versionID (x.versions s) = promoted (nl :: rest) := by
    rw [taken, if_pos head, kept]
  refine ⟨t, deleteVersion_head_run addr head run₂ (by rw [kept]; exact run₃)
    (by simp [promoted]) run₄,
    (wide₂.trans wide₃).trans (frame₄.mono record_subset subset_rfl), by rwa [taken_eq], ?_, ?_, ?_⟩
  · rw [frame₄.file _ record_tmp_out, ← frame₂.file _ tmp_out]
    exact tmp₃
  · intro v rest₁ eq w rest₂ eq'
    rw [kept] at eq
    rw [taken_eq] at eq'
    cases eq
    cases eq'
    by_cases marker : nl.deleteMarker = true
    · simp [bodyAt, marker]
    · have live : nl.deleteMarker = false := by simpa using marker
      have ne := filed nl List.mem_cons_self live
      simp [bodyAt, live, ne, op, moved live, stays nl List.mem_cons_self ne]
  · intro v mem
    rw [kept, List.tail_cons] at mem
    by_cases marker : v.deleteMarker = true
    · simp [bodyAt, marker]
    · have live : v.deleteMarker = false := by simpa using marker
      have mem' : v ∈ nl :: rest := List.mem_cons_of_mem _ mem
      have ne := filed v mem' live
      have area := x.area_blob (plain v mem')
      have same : content t (x.blob v.blobID) = content s₂ (x.blob v.blobID) := by
        refine content_of_file_eq ((frame₄.file _ (record_out area (by decide))).trans
          (frame₃.file _ ?_))
        rintro (h | h | ⟨ne', h⟩)
        · exact x.op_ne_blob (plain v mem') h.symm
        · exact Env.data_not_area x.root_tmp area h.symm
        · exact distinct nl rest kept ne' v mem
            (blob_injective (plain v mem') (plain nl List.mem_cons_self) h)
      simp [bodyAt, live, ne, same, stays v mem' ne]

/-! ### The unversioned deletion -/

theorem plain_droppedBlob (sound : x.Sound s) (h : droppedBlob (x.versions s) = some id) :
    '/' ∉ id.toList := by
  cases eq : x.versions s with
  | nil => simp [eq, droppedBlob] at h
  | cons cur rest =>
    simp only [eq, droppedBlob] at h
    split at h
    · cases h
    · cases h
      exact sound.shape.plainBlob cur (by rw [eq]; exact List.mem_cons_self)

theorem dropCurrent_spec (sound : x.Sound s) (addr : x.Addresses c) :
    ∃ t, e.dropCurrent c (x.keyMeta (x.versions s)) s =
        .ok (x.keyMeta (dropped (x.versions s))) t ∧
      Framed {q | q = x.op ∨ ∃ id, droppedBlob (x.versions s) = some id ∧ q = x.blob id} ∅ s t ∧
      t.file x.op = none ∧
      ∀ id, droppedBlob (x.versions s) = some id → t.file (x.blob id) = none := by
  obtain ⟨bucket, key⟩ := addr
  have head := sound.head
  cases eq : x.versions s with
  | nil =>
    rw [eq] at head
    exact ⟨s, rfl, Framed.refl s, by simpa using head, by simp [droppedBlob]⟩
  | cons cur rest =>
    rw [eq] at head
    by_cases marker : cur.deleteMarker = true
    · refine ⟨s, ?_, Framed.refl s, ?_, by simp [droppedBlob, marker]⟩
      · simp [Env.dropCurrent, keyMeta, marker, dropped]
      · simpa [Env.atKeyPath, marker] using head
    by_cases here : cur.blobID = ""
    · obtain ⟨f, file⟩ : ∃ f, s.file x.op = some f := by
        rw [← Option.isSome_iff_exists, head]
        simp [Env.atKeyPath, marker, here]
      obtain ⟨t, run, frame, gone⟩ := Env.removeCurrent_spec x.op_eq (Unblocked.of_file file)
      refine ⟨t, ?_, frame.mono (by rintro q rfl; exact .inl rfl) subset_rfl, gone,
        by simp [droppedBlob, here]⟩
      simp only [Env.dropCurrent, keyMeta, marker, here, if_true, bucket, key, or_true, dropped]
      exact bind_ok.mpr ⟨(), t, run, rfl⟩
    · obtain ⟨t, run, -, frame, gone⟩ :=
        removeArchivedBlob_spec (x := x) (s := s) cur.blobID
      have plain := sound.shape.plainBlob cur (by rw [eq]; exact List.mem_cons_self)
      have dropped_eq : droppedBlob (cur :: rest) = some cur.blobID := by
        simp [droppedBlob, marker, here]
      refine ⟨t, ?_, frame.mono ?_ subset_rfl, ?_, ?_⟩
      · simp only [Env.dropCurrent, keyMeta, marker, here, if_false, bucket, or_false, dropped]
        refine bind_ok.mpr ⟨(), t, run, ?_⟩
        split <;> rfl
      · rintro q rfl
        exact .inr ⟨_, dropped_eq, rfl⟩
      · have away : Env.atKeyPath cur = false := by simp [Env.atKeyPath, here]
        rw [frame.file _ (x.op_ne_blob plain)]
        simpa [away] using head
      · intro id h
        rw [dropped_eq] at h
        cases h
        exact gone here

/-- A key that loses its only version loses its object file. -/
theorem file_of_dropped_nil (sound : x.Sound s) (ne : x.versions s ≠ [])
    (all : dropped (x.versions s) = []) :
    droppedBlob (x.versions s) = none ∧ ∃ f, s.file x.op = some f := by
  cases eq : x.versions s with
  | nil => exact absurd eq ne
  | cons cur rest =>
    have live : cur.deleteMarker = false ∧ rest = [] := by
      rw [eq] at all
      simp only [dropped] at all
      split at all
      · cases all
      · split at all
        · exact ⟨by simp_all, all⟩
        · cases all
    rw [live.2] at eq ⊢
    have here := sound.single eq live.1
    refine ⟨by simp [droppedBlob, (atKeyPath_iff.mp here).1], ?_⟩
    rw [← Option.isSome_iff_exists, sound.head, eq]
    simpa using here

section DeleteNull

variable (bm : BucketMeta) {vs : List ObjectMeta}
  (new : vs = nulled (decide (bm.versioning = "Suspended")) (e.marker c "null") (x.versions s))
include new

theorem deleteNull_run {s₁ : Disk} (run₁ : e.dropCurrent c (x.keyMeta (x.versions s)) s =
      .ok (x.keyMeta (dropped (x.versions s))) s₁)
    (run₂ : e.finalizeKey (x.keyMeta vs) s₁ = .ok () t) :
    e.deleteNull bm c (x.keyMeta (x.versions s)) s = .ok () t := by
  refine bind_ok.mpr ⟨_, s₁, run₁, ?_⟩
  rw [new, nulled] at run₂
  by_cases suspended : bm.versioning = "Suspended"
  · rw [if_pos (by simpa using suspended)] at run₂
    rw [if_pos suspended]
    exact run₂
  · rw [if_neg (by simpa using suspended)] at run₂
    rw [if_neg suspended, markLatest_eq]
    exact run₂

/-- The unversioned deletion of the only version. -/
theorem deleteNull_last (ready : x.Ready s) (sound : x.Sound s) (addr : x.Addresses c)
    (ne : x.versions s ≠ []) (empty : vs = []) :
    ∃ t, e.deleteNull bm c (x.keyMeta (x.versions s)) s = .ok () t ∧
      Framed {x.op, x.hp} ∅ s t ∧ t.file x.op = none ∧ t.file x.hp = none := by
  have all : dropped (x.versions s) = [] := by
    rw [new, nulled] at empty
    split at empty
    · simp [prepended] at empty
    · exact marked_eq_nil.mp empty
  obtain ⟨noBlob, f, file⟩ := file_of_dropped_nil sound ne all
  obtain ⟨s₁, run₁, frame₁, -, -⟩ := dropCurrent_spec sound addr
  have frame₁ : Framed {x.op} ∅ s s₁ := by
    refine frame₁.mono ?_ subset_rfl
    rintro q (rfl | ⟨id, h, -⟩)
    · rfl
    · cases noBlob.symm.trans h
  have ready₁ : x.Ready s₁ := ready.framed (B := ∅) (S := ∅)
    (frame₁.mono (by rintro q rfl; exact .inl rfl) (Set.empty_subset _))
  have clear : x.Unblocked s₁ := (Unblocked.of_file file).framed frame₁ (by
    rintro q rfl
    exact not_suffix_tail x.op_ne_nil le_rfl)
  obtain ⟨t, run₂, frame₂, op, hp⟩ := finalizeKey_nil ready₁ clear
  refine ⟨t, deleteNull_run bm new run₁ (by rw [empty]; exact run₂), ?_, op, hp⟩
  exact (frame₁.mono (by simp) subset_rfl).trans frame₂

/-- The unversioned deletion of a key that keeps versions or gets a marker. -/
theorem deleteNull_kept (ready : x.Ready s) (sound : x.Sound s) (addr : x.Addresses c)
    (full : vs ≠ []) :
    ∃ t, e.deleteNull bm c (x.keyMeta (x.versions s)) s = .ok () t ∧
      Framed (x.cells {id | droppedBlob (x.versions s) = some id} ∅) x.dirs s t ∧
      t.file x.op = none ∧ t.file (Env.tmpOf x.op) = s.file (Env.tmpOf x.op) ∧
      (∀ id, droppedBlob (x.versions s) = some id → t.file (x.blob id) = none) ∧
      x.Recorded vs t := by
  obtain ⟨s₁, run₁, frame₁, gone, unfiled⟩ := dropCurrent_spec sound addr
  have wide : Framed (x.cells {id | droppedBlob (x.versions s) = some id} ∅) x.dirs s s₁ := by
    refine frame₁.mono ?_ (Set.empty_subset _)
    rintro q (rfl | ⟨id, h, rfl⟩)
    · exact .inl rfl
    · exact .inr (.inr (.inr (.inr (.inl ⟨id, h, plain_droppedBlob sound h, .inl rfl⟩))))
  have tmp₁ : s₁.file (Env.tmpOf x.op) = s.file (Env.tmpOf x.op) := by
    refine frame₁.file _ ?_
    rintro (h | ⟨id, h, eq⟩)
    · exact suffixed_ne (by decide) h
    · exact Env.data_not_area x.root_tmp (x.area_blob (plain_droppedBlob sound h)) eq
  have away : vs.head?.any Env.atKeyPath = false := by
    have old := dropped_archived sound.shape
    rw [new, nulled]
    split
    · simp [prepended, Env.atKeyPath, Env.marker]
    · cases eq : dropped (x.versions s) with
      | nil => rfl
      | cons v rest =>
        rw [eq] at old
        exact old v List.mem_cons_self
  obtain ⟨t, run₂, frame₂, op, -, recorded⟩ := record_spec (ready.framed wide) vs
    (by rw [gone, away]; rfl)
  have frame₂ := record_frame frame₂
  refine ⟨t, deleteNull_run bm new run₁ ?_, wide.trans (frame₂.mono ?_ subset_rfl),
    by rw [op, gone]; rfl, ?_, fun id h => ?_, recorded⟩
  · rw [Env.finalizeKey, if_neg (by simpa [keyMeta] using full)]
    exact run₂
  · rintro q (rfl | rfl | rfl)
    · exact .inl rfl
    · exact .inr (.inr (.inl rfl))
    · exact .inr (.inr (.inr (.inl rfl)))
  · rw [frame₂.file, tmp₁]
    rintro (h | h | h)
    · exact suffixed_ne (by decide) h
    · exact Env.data_not_area x.root_tmp x.area_hp h
    · exact Env.data_not_area x.root_tmp x.area_hpTmp h
  · have plain := plain_droppedBlob sound h
    rw [frame₂.file, unfiled id h]
    rintro (h | h | h)
    · exact x.op_ne_blob plain h.symm
    · exact x.hp_ne_blob plain h.symm
    · exact Env.area_ne (x.area_blob plain) x.area_hpTmp (by decide) h

end DeleteNull

end Site

end D9Store
