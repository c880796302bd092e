import D9Store.Backend.Staging
import D9Store.Key.Put

/-!
`applyCompleteMultipart` on one key: the parts are joined in the staging area, the result is
installed like the payload of a put, and the upload's record goes.
-/

namespace D9Store

open Posix FilePath

namespace Env

variable {e : Env} {s t : Disk} {uploadID : String} {tmp pattern p q : FilePath} {parts : List Part}

/-! ### Joining the parts -/

/-- The bytes of the staged parts, one after the other. -/
def joined (e : Env) (s : Disk) (uploadID : String) (parts : List Part) : Bytes :=
  parts.flatMap fun p =>
    ((content s (e.mpPartPath uploadID p.partNumber)).map e.bytes).getD []

theorem joined_congr (same : ∀ p ∈ parts, t.file (e.mpPartPath uploadID p.partNumber) =
      s.file (e.mpPartPath uploadID p.partNumber)) :
    e.joined t uploadID parts = e.joined s uploadID parts := by
  unfold joined
  refine List.flatMap_congr fun p mem => ?_
  rw [content_of_file_eq (same p mem)]

theorem appendParts_content {acc : Bytes} (start : content s tmp = some (.raw acc))
    (apart : ∀ p ∈ parts, e.mpPartPath uploadID p.partNumber ≠ tmp) :
    wp (e.appendParts uploadID tmp parts)
      (fun total t => Framed {tmp} ∅ s t ∧
        content t tmp = some (.raw (acc ++ e.joined s uploadID parts)) ∧
        total = (e.joined s uploadID parts).length ∧
        ∀ p ∈ parts, (s.file (e.mpPartPath uploadID p.partNumber)).isSome = true)
      (fun _ t => Framed {tmp} ∅ s t ∧
        ∃ p ∈ parts, s.file (e.mpPartPath uploadID p.partNumber) = none) s := by
  induction parts generalizing s acc with
  | nil => exact ⟨Framed.refl s, by simpa [joined] using start, rfl, by simp⟩
  | cons p rest ih =>
    obtain ⟨old, file, was⟩ := Option.map_eq_some_iff.mp start
    unfold appendParts
    rw [wp_bind, wp_attempt, wp_reading]
    cases read : s.readFile (e.mpPartPath uploadID p.partNumber) with
    | error err =>
      have absent : s.file (e.mpPartPath uploadID p.partNumber) = none := by
        unfold DirTree.readFile at read
        unfold DirTree.file
        split at read <;> simp_all
      simp only
      rw [wp_bind, wp_ignore]
      refine wp_cases (fun _ t gone => ⟨Framed.remove gone, p, List.mem_cons_self, absent⟩)
        fun _ t failed => ?_
      rw [remove_error failed]
      exact ⟨Framed.refl s, p, List.mem_cons_self, absent⟩
    | ok part =>
      simp only
      rw [wp_bind, wp_sys]
      refine wp_cases (fun _ s₁ set => ?_) fun _ t failed => ?_
      swap
      · rw [(amend_error failed).2.1] at file
        cases file
      have frame := Framed.amend set
      have found : s.file (e.mpPartPath uploadID p.partNumber) = some part := by
        unfold DirTree.readFile at read
        split at read
        · rename_i f node
          cases read
          exact DirTree.file_eq_some.mpr node
        · cases read
        · cases read
      have grown : content s₁ tmp = some (.raw (acc ++ e.bytes part.content)) := by
        simp [content, file_amend file set, written, was, bytes]
      have kept : e.joined s₁ uploadID rest = e.joined s uploadID rest :=
        joined_congr fun q mem => frame.file _ (apart q (List.mem_cons_of_mem p mem))
      rw [wp_bind]
      refine wp_mono (ih grown fun q mem => apart q (List.mem_cons_of_mem p mem)) ?_ ?_
      · rintro total t ⟨frame', done, count, files⟩
        refine ⟨frame.trans frame', ?_, ?_, ?_⟩
        · rw [done, kept]
          simp [joined, content, found]
        · rw [count, kept]
          simp [joined, content, found, size]
        · refine List.forall_mem_cons.mpr ⟨by simp [found], fun q mem => ?_⟩
          rw [← frame.file _ (apart q (List.mem_cons_of_mem p mem))]
          exact files q mem
      · rintro - t ⟨frame', q, mem, absent⟩
        have mem := List.mem_cons_of_mem p mem
        exact ⟨frame.trans frame', q, mem, by rw [← frame.file _ (apart q mem), absent]⟩

/-- The payload a completion assembles. -/
theorem assembled_wp (apart : ∀ p ∈ parts, e.mpPartPath uploadID p.partNumber ≠ tmp) :
    wp (do
        sys (writeFile tmp ⟨.raw [], {}, .wall⟩ (written (.raw [])))
        e.appendParts uploadID tmp parts)
      (fun total t => Framed {tmp} ∅ s t ∧ content t tmp = some (.raw (e.joined s uploadID parts)) ∧
        total = (e.joined s uploadID parts).length ∧
        s.Holds tmp ∧ ∀ p ∈ parts, (s.file (e.mpPartPath uploadID p.partNumber)).isSome = true)
      (fun _ t => Framed {tmp} ∅ s t ∧
        (s.Holds tmp → ∃ p ∈ parts, s.file (e.mpPartPath uploadID p.partNumber) = none)) s := by
  rw [wp_bind, wp_sys]
  refine wp_cases (fun _ s₁ opened => ?_) fun _ t failed => ?_
  swap
  · obtain ⟨same, full⟩ := writeFile_error failed
    rw [same]
    exact ⟨Framed.refl s, fun room => absurd room full⟩
  have frame := Framed.writeFile opened
  have empty : content s₁ tmp = some (.raw []) := by
    rw [content, file_writeFile opened]
    cases s.file tmp <;> rfl
  have kept : e.joined s₁ uploadID parts = e.joined s uploadID parts :=
    joined_congr fun q mem => frame.file _ (apart q mem)
  refine wp_mono (appendParts_content empty apart) ?_ ?_
  · rintro total t ⟨frame', done, count, files⟩
    refine ⟨frame.trans frame', by rw [done, kept, List.nil_append], by rw [count, kept],
      (writeFile_ok opened).1, ?_⟩
    intro p mem
    rw [← frame.file _ (apart p mem)]
    exact files p mem
  · rintro - t ⟨frame', p, mem, absent⟩
    exact ⟨frame.trans frame', fun _ => ⟨p, mem, by rw [← frame.file _ (apart p mem), absent]⟩⟩

/-! ### Cleaning up -/

/-- The files a finished upload takes with it: its record, and what the glob matches below
the data root. -/
def cleanupCells (e : Env) (bucket uploadID : String) : Set FilePath :=
  {q | q = e.mpuMetaPath bucket uploadID ∨ e.root.join "mpstaging" <:+ q}

theorem removeEach_wp (ps : List FilePath) (s : Disk) :
    wp (removeEach ps) (fun _ t => Framed {q | q ∈ ps} ∅ s t) (fun _ _ => False) s := by
  induction ps generalizing s with
  | nil => exact Framed.refl s
  | cons p rest ih =>
    unfold removeEach
    rw [wp_bind]
    refine wp_of_run (ignore_runs _ s) ?_
    obtain ⟨frame, -⟩ := file_ignore_remove (ignore_runs (remove p : Call File Unit) s)
    refine wp_mono (ih _) (fun _ t frame' => ?_) fun _ _ h => h
    refine (frame.mono ?_ subset_rfl).trans (frame'.mono ?_ subset_rfl)
    · rintro q rfl
      exact List.mem_cons_self
    · exact fun q mem => List.mem_cons_of_mem p mem

/-- The path is one that the pattern describes. -/
def Matches (e : Env) : FilePath → FilePath → Prop
  | [], p => p = []
  | pattern :: dir, p =>
    if (pattern :: dir).any hasMeta then
      ∃ name found, p = name :: found ∧ e.matchName pattern name = true ∧ Matches e dir found
    else p = pattern :: dir

/-- A pattern finds exactly the nodes that it describes. -/
theorem mem_glob (present : (s.get p).isSome) : p ∈ e.glob s pattern ↔ e.Matches pattern p := by
  induction pattern generalizing p with
  | nil => exact List.mem_singleton
  | cons name dir ih =>
    unfold glob Matches
    split
    · simp only [List.mem_flatMap, List.mem_map, List.mem_filter, mem_sorted]
      constructor
      · rintro ⟨found, mem, x, ⟨-, hit⟩, rfl⟩
        have above : (s.get found).isSome := by rw [s.parent x found present]; rfl
        exact ⟨x, found, rfl, hit, (ih above).mp mem⟩
      · rintro ⟨x, found, rfl, hit, rest⟩
        have above : (s.get found).isSome := by rw [s.parent x found present]; rfl
        exact ⟨found, (ih above).mpr rest, x, ⟨DirTree.mem_children.mpr present, hit⟩, rfl⟩
    · exact List.mem_singleton

theorem glob_literal (literal : ∀ name ∈ pattern, hasMeta name = false) :
    e.glob s pattern = [pattern] := by
  cases pattern with
  | nil => rfl
  | cons name dir =>
    have none : ((name :: dir).any hasMeta) = false := by
      rw [List.any_eq_false]
      exact fun x mem => by simp [literal x mem]
    rw [glob, none]
    rfl

/-- The pattern for the parts of an upload is a pattern in its last name only. -/
theorem partPattern_eq (e : Env) (plain : Plain uploadID) :
    (e.root.join "mpstaging").join (uploadID ++ "__*") = (uploadID ++ "__*") :: e.root.join "mpstaging" :=
  join_plain (plain_append (show 2 < "__*".length by decide) (by decide) plain.2) _

theorem mpstaging_literal (e : Env) : ∀ name ∈ e.root.join "mpstaging", hasMeta name = false := by
  rw [join_plain (show Plain "mpstaging" by decide)]
  exact List.forall_mem_cons.mpr ⟨by decide, e.root_literal⟩

theorem matches_literal (literal : ∀ name ∈ pattern, hasMeta name = false) (h : e.Matches pattern p) :
    p = pattern := by
  cases pattern with
  | nil => exact h
  | cons name dir =>
    have none : ((name :: dir).any hasMeta) = false := by
      rw [List.any_eq_false]
      exact fun x mem => by simp [literal x mem]
    rwa [Matches, none] at h

theorem matches_below (plain : Plain uploadID) {p : FilePath}
    (h : e.Matches ((e.root.join "mpstaging").join (uploadID ++ "__*")) p) :
    e.root.join "mpstaging" <:+ p := by
  rw [e.partPattern_eq plain, Matches] at h
  split at h
  · obtain ⟨name, found, rfl, -, dir⟩ := h
    rw [matches_literal e.mpstaging_literal dir]
    exact List.suffix_cons _ _
  · rw [h]
    exact List.suffix_cons _ _

theorem globParts_below (plain : Plain uploadID) (mem : q ∈ e.globParts s uploadID) :
    e.root.join "mpstaging" <:+ q := by
  rw [globParts, e.partPattern_eq plain, glob] at mem
  split at mem
  · obtain ⟨found, above, child⟩ := List.mem_flatMap.mp mem
    rw [glob_literal e.mpstaging_literal, List.mem_singleton] at above
    obtain ⟨name, -, rfl⟩ := List.mem_map.mp child
    rw [above]
    exact List.suffix_cons _ _
  · rw [List.mem_singleton.mp mem]
    exact List.suffix_cons _ _

theorem cleanupUpload_runs (bucket uploadID : String) (s : Disk) :
    ∃ t, e.cleanupUpload bucket uploadID s = .ok () t := by
  have each := removeEach_wp (e.globParts s uploadID) s
  cases run : removeEach (e.globParts s uploadID) s with
  | ok _ s₁ =>
    exact ⟨_, bind_ok.mpr ⟨_, s, reading_run rfl, bind_ok.mpr ⟨(), s₁, run, ignore_runs _ s₁⟩⟩⟩
  | error err t => exact (wp_error each run).elim

theorem cleanupUpload_wp (bucket : String) (plain : Plain uploadID) :
    wp (e.cleanupUpload bucket uploadID)
      (fun _ t => Framed (e.cleanupCells bucket uploadID) ∅ s t) (fun _ _ => False) s := by
  unfold cleanupUpload
  rw [wp_bind, wp_get, wp_bind]
  refine wp_mono (removeEach_wp _ s) (fun _ s₁ frame => ?_) fun _ _ h => h
  refine wp_of_run (ignore_runs _ s₁) ?_
  obtain ⟨frame', -⟩ := file_ignore_remove
    (ignore_runs (remove (e.mpuMetaPath bucket uploadID) : Call File Unit) s₁)
  refine (frame.mono ?_ subset_rfl).trans (frame'.mono ?_ subset_rfl)
  · exact fun q mem => .inr (globParts_below plain mem)
  · rintro q rfl
    exact .inl rfl

end Env

namespace Site

variable {e : Env} {x : Site e} {s t s₁ : Disk} {c : Command} {ordered : List Part}
    {mp : MultipartUpload}

theorem fit_completeMeta (bm : BucketMeta) (mp : MultipartUpload) (parts : List Part) (total : Int)
    (addr : x.Addresses c) (id : bm.versioningEnabled = true → Nameable c.versionID) :
    x.Fit (e.completeMeta bm mp c parts total) := by
  obtain ⟨named, plain⟩ := writeVersionID_nameable id
  exact ⟨by simp [addr.2], by simpa using named, by simpa using plain, by simp, by simp⟩

/-- Changes of the staging area before the installation count as its own. -/
theorem Installed.after {enabled : Bool} {nv : ObjectMeta} {b : Content} {S F : Set FilePath}
    (h : x.Installed enabled nv b S s₁ t) (frame : Framed F ∅ s s₁)
    (staged : ∀ q ∈ F, q ∈ S ∧ e.area "staging" <:+ q) : x.Installed enabled nv b S s t := by
  have out : ∀ {kind q}, e.area kind <:+ q → kind ≠ "staging" → q ∉ F := fun area ne mem =>
    ne (Env.area_unique area (staged _ mem).2)
  have op : x.op ∉ F := fun mem => Env.data_not_area x.root_op (staged _ mem).2 rfl
  have tmp : Env.tmpOf x.op ∉ F := fun mem => Env.data_not_area x.root_tmp (staged _ mem).2 rfl
  have same : x.versions s₁ = x.versions s :=
    versions_congr (frame.file _ op) (frame.file _ (out x.area_hp (by decide)))
  obtain ⟨frame', current, archived, recorded, tmp', quiet⟩ := h
  rw [same] at frame' archived recorded quiet
  refine ⟨(frame.mono ?_ (Set.empty_subset _)).trans frame', current, fun id arch => ?_, recorded,
    ?_, fun none single => (frame.mono ?_ (Set.empty_subset _)).trans (quiet none single)⟩
  · exact fun q mem => .inr (.inr (.inr (.inr (.inr (staged q mem)))))
  · rw [archived id arch, content_of_file_eq (frame.file _ op)]
  · rw [← frame.file _ tmp]
    exact tmp'
  · exact fun q mem => .inr (.inr (.inr (staged q mem)))

/-- A resolved part is one of the uploaded ones, with the number and the digest asked for. -/
def Resolves (uploaded : List Part) (got : Part) (want : CompletedPart) : Prop :=
  got ∈ uploaded ∧ got.partNumber = want.partNumber ∧ etagEqual got.etag want.etag = true

theorem resolveParts_spec {uploaded : List Part} {prev : Int} {wanted : List CompletedPart}
    (h : resolveParts uploaded prev wanted = .ok ordered) :
    List.Forall₂ (Resolves uploaded) ordered wanted := by
  induction wanted generalizing prev ordered with
  | nil =>
    cases h
    exact .nil
  | cons want rest ih =>
    unfold resolveParts at h
    split at h
    · cases h
    split at h
    · cases h
    rename_i got found
    split at h
    · rename_i digest
      obtain ⟨others, more, h⟩ := except_bind_ok h
      cases h
      refine .cons ⟨?_, by simpa using List.find?_some found, digest⟩ (ih more)
      exact List.mem_reverse.mp (List.mem_of_find?_eq_some found)
    · cases h

theorem orderedParts_spec (h : orderedParts mp c = .ok ordered) :
    List.Forall₂ (Resolves mp.parts) ordered c.parts := by
  obtain ⟨resolved, found, h⟩ := except_bind_ok h
  split at h
  · cases h
  split at h
  · cases h
  cases h
  exact resolveParts_spec found

/-- The resolved parts are those the request lists. -/
theorem orderedParts_numbers (h : orderedParts mp c = .ok ordered) :
    ordered.map (·.partNumber) = c.parts.map (·.partNumber) := by
  have resolved := orderedParts_spec h
  clear h
  generalize c.parts = wanted at resolved
  induction resolved with
  | nil => rfl
  | cons first _ ih => rw [List.map_cons, List.map_cons, first.2.1, ih]

theorem orderedParts_mem (h : orderedParts mp c = .ok ordered) : ∀ p ∈ ordered, p ∈ mp.parts :=
  ((List.forall₂_and_left _ _).mp (orderedParts_spec h)).1

/-- The parts a completion joins, with the upload they belong to. -/
def completed (e : Env) (s : Disk) (c : Command) : Except Err (MultipartUpload × List Part) := do
  let mp ← e.readMPU s c.bucket c.uploadID
  let parts ← orderedParts mp c
  .ok (mp, parts)

/-- Nothing is in the way of the object of a completion: its parts resolve and are staged, and the
staging area and the directories of the object have room for it. -/
structure Storable (x : Site e) (s : Disk) (c : Command) : Prop where
  resolves : (completed e s c).isOk = true
  staged : ∀ p ∈ c.parts, (s.file (e.mpPartPath c.uploadID p.partNumber)).isSome = true
  room : s.Holds (e.stagingPath c.blobToken)
  clear : ∀ q, q <:+ x.op.tail → s.file q = none

theorem Storable.part (h : x.Storable s c) (order : orderedParts mp c = .ok ordered) {p : Part}
    (mem : p ∈ ordered) : (s.file (e.mpPartPath c.uploadID p.partNumber)).isSome = true := by
  have number : p.partNumber ∈ c.parts.map (·.partNumber) := by
    rw [← orderedParts_numbers order]
    exact List.mem_map_of_mem mem
  obtain ⟨want, listed, same⟩ := List.mem_map.mp number
  rw [← same]
  exact h.staged want listed

/-- No cell of the key is above its object. -/
theorem above_not_cell {B : Set String} {S : Set FilePath} {q : FilePath} (sub : q <:+ x.op.tail) :
    q ∉ x.cells B S := by
  have up : q <:+ x.op := sub.trans (List.tail_suffix x.op)
  have out {kind : String} (area : e.area kind <:+ q) : False :=
    Env.data_not_area x.root_op (area.trans up) rfl
  rintro (rfl | rfl | rfl | rfl | ⟨id, -, plain, rfl | rfl⟩ | ⟨-, staging⟩)
  · exact not_suffix_tail x.op_ne_nil le_rfl sub
  · exact not_suffix_tail x.op_ne_nil (length_le_suffixed _ _) sub
  · exact out x.area_hp
  · exact out x.area_hpTmp
  · exact out (x.area_blob plain)
  · exact out (x.area_blobTmp plain)
  · exact out staging

/-- Completing an upload stores the object and cleans up, exactly if nothing is in the way. Where
it fails, nothing but the staging area has changed, apart from a stray temporary file when a
directory is in the place of the object. -/
theorem applyCompleteMultipart_wp (ready : x.Ready s) (sound : x.Sound s) (addr : x.Addresses c)
    (id : (e.bucketMetaForWrite s x.bucket).versioningEnabled = true → Nameable c.versionID)
    (token : Plain c.blobToken)
    (apart : ∀ n, e.mpPartPath c.uploadID n ≠ e.stagingPath c.blobToken) :
    wp (e.applyCompleteMultipart c)
      (fun _ t => ∃ mp parts total u, completed e s c = .ok (mp, parts) ∧
        x.Installed (e.bucketMetaForWrite s x.bucket).versioningEnabled
          (e.completeMeta (e.bucketMetaForWrite s x.bucket) mp c parts total)
          (.raw (e.joined s c.uploadID parts)) {e.stagingPath c.blobToken} s u ∧
        e.cleanupUpload x.bucket c.uploadID u = .ok () t ∧
        (e.separateVolumes = false → u.file (Env.tmpOf x.op) = s.file (Env.tmpOf x.op)) ∧
        x.Storable s c)
      (fun _ t => s.get (Env.tmpOf x.op) ≠ some .dir →
        Framed {e.stagingPath c.blobToken, Env.tmpOf x.op} x.dirs s t ∧
        (s.get x.op ≠ some .dir → Framed {e.stagingPath c.blobToken} ∅ s t ∧ ¬ x.Storable s c)) s := by
  obtain ⟨bucket, key⟩ := addr
  have area := area_staging (e := e) token
  unfold Env.applyCompleteMultipart
  rw [wp_bind, wp_get, wp_bind, wp_reading]
  cases record : e.readMPU s c.bucket c.uploadID with
  | error err =>
    refine fun _ => ⟨Framed.refl s, fun _ => ⟨Framed.refl s, fun h => ?_⟩⟩
    have resolves := h.resolves
    rw [completed, record] at resolves
    cases resolves
  | ok mp =>
    simp only
    rw [wp_bind, wp_reading]
    cases order : orderedParts mp c with
    | error err =>
      refine fun _ => ⟨Framed.refl s, fun _ => ⟨Framed.refl s, fun h => ?_⟩⟩
      have resolves := h.resolves
      rw [completed, record, except_ok_bind, order] at resolves
      cases resolves
    | ok parts =>
      have found : completed e s c = .ok (mp, parts) := by
        rw [completed, record, except_ok_bind, order, except_ok_bind]
      simp only
      rw [wp_bind, wp_get, wp_ite]
      refine ⟨fun _ => ?_, fun missing _ => ⟨Framed.refl s, fun _ => ⟨Framed.refl s, fun h => ?_⟩⟩⟩
      swap
      · refine missing (List.all_eq_true.mpr fun p mem => ?_)
        obtain ⟨f, file⟩ := Option.isSome_iff_exists.mp (h.part order mem)
        rw [DirTree.file_eq_some.mp file]
        rfl
      rw [← bind_assoc, wp_bind]
      refine wp_mono (Env.assembled_wp fun p _ => apart p.partNumber) ?_ ?_
      swap
      · rintro - t ⟨frame, missing⟩ -
        refine ⟨frame.mono (by simp) (Set.empty_subset _), fun _ => ⟨frame, fun h => ?_⟩⟩
        obtain ⟨p, mem, absent⟩ := missing h.room
        have there := h.part order mem
        rw [absent] at there
        cases there
      rintro total s₁ ⟨frame, payload, -, room, there⟩
      obtain ⟨g, file, joined⟩ := Option.map_eq_some_iff.mp payload
      have ready₁ : x.Ready s₁ := by
        refine ready.framed (B := ∅) (S := {e.stagingPath c.blobToken})
          (frame.mono ?_ (Set.empty_subset _))
        rintro q rfl
        exact .inr (.inr (.inr (.inr (.inr ⟨rfl, area⟩))))
      have op : x.op ∉ ({e.stagingPath c.blobToken} : Set FilePath) :=
        Env.data_not_area x.root_op area
      have hp : x.hp ∉ ({e.stagingPath c.blobToken} : Set FilePath) :=
        Env.area_ne x.area_hp area (by decide)
      have sound₁ : x.Sound s₁ := sound.congr (frame.file _ op) (frame.file _ hp)
      obtain ⟨s₂, displacing, -⟩ := displaceCurrent_spec ready₁ sound₁
        (e.bucketMetaForWrite s x.bucket).versioningEnabled
      have installs := install_wp (e.bucketMetaForWrite s x.bucket).versioningEnabled ready₁ sound₁
        (fit_completeMeta (e.bucketMetaForWrite s x.bucket) mp parts total ⟨bucket, key⟩ id)
        area file
      rw [wp_bind] at installs
      have installs := wp_ok installs displacing
      rw [wp_bind, wp_get, bucket, key, loadKeyMetaOrNew_eq ready₁ sound₁, wp_bind, wp_attempt]
      refine wp_of_run displacing ?_
      dsimp only
      rw [← bind_assoc, wp_bind]
      refine wp_mono installs ?_ ?_
      · rintro - u ⟨installed, -, tmp⟩
        obtain ⟨t, run⟩ := Env.cleanupUpload_runs x.bucket c.uploadID u
        refine wp_of_run run ?_
        have notTmp : Env.tmpOf x.op ∉ ({e.stagingPath c.blobToken} : Set FilePath) :=
          Env.data_not_area x.root_tmp area
        have installed := installed.after frame (by rintro q rfl; exact ⟨rfl, area⟩)
        refine ⟨mp, parts, total, u, found, joined ▸ installed, run, fun one => ?_, ?_⟩
        · rw [tmp one, frame.file _ notTmp]
        · refine ⟨by rw [found]; rfl, fun want mem => ?_, room, fun q sub => ?_⟩
          · have number : want.partNumber ∈ parts.map (·.partNumber) := by
              rw [orderedParts_numbers order]
              exact List.mem_map_of_mem mem
            obtain ⟨p, mem, same⟩ := List.mem_map.mp number
            rw [← same]
            exact there p mem
          · obtain ⟨f, file, -⟩ := Option.map_eq_some_iff.mp installed.current
            rw [← installed.frame.file q (above_not_cell sub), Env.clear_of_file file q sub]
      · intro _ t left tmp_free
        obtain ⟨stray, same, blocked⟩ :=
          left fun dir => tmp_free (frame.dir _ (Set.notMem_empty _) dir)
        refine ⟨(frame.mono (by simp) (Set.empty_subset _)).trans (stray.mono (by simp) subset_rfl),
          fun free => ?_⟩
        have free₁ : s₁.get x.op ≠ some .dir := fun dir => free (frame.dir _ (Set.notMem_empty _) dir)
        rw [same free₁]
        refine ⟨frame, fun h => ?_⟩
        obtain ⟨q, sub, file⟩ := blocked free₁
        have out : q ∉ ({e.stagingPath c.blobToken} : Set FilePath) := by
          rintro rfl
          exact above_not_cell (B := ∅) sub (.inr (.inr (.inr (.inr (.inr ⟨Set.mem_univ _, area⟩)))))
        rw [frame.file q out, h.clear q sub] at file
        cases file

/-- A plain upload id keeps the parts out of the staging area. -/
theorem parts_apart (token : Plain c.blobToken) (upload : Plain c.uploadID) (n : Int) :
    e.mpPartPath c.uploadID n ≠ e.stagingPath c.blobToken :=
  Env.area_ne (Env.mpPartPath_eq upload.2 n ▸ List.suffix_cons _ _) (area_staging token) (by decide)

end Site

end D9Store
