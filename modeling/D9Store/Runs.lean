import D9Store.Key.Reading

/-!
Runs of the engine: payloads arrive, committed commands are applied.
-/

namespace D9Store

open Posix FilePath

/-- What happens to a node between snapshots: a payload is fanned out to it, or a committed
command reaches its state machine. -/
inductive Event where
  | stage (token : String) (payload : Bytes)
  | apply (c : Command)

def Env.handle (e : Env) : Event → M Unit
  | .stage token payload => e.handleBlobPut token payload
  | .apply c => e.applyDisk c

/-- What a node takes in: a fanned-out payload, a fanned-out part, or a committed command. -/
inductive Input where
  | blob (token : String) (payload : Bytes)
  | part (uploadID : String) (number : Int) (payload : Bytes)
  | command (c : Command)

def Input.command? : Input → Option Command
  | .command c => some c
  | _ => none

def Env.take (e : Env) : Input → M Unit
  | .blob token payload => e.handleBlobPut token payload
  | .part uploadID number payload => e.handlePartPut uploadID number payload
  | .command c => e.applyDisk c

/-- The disk after a run, whatever the outcome of each command. -/
def Env.feed (e : Env) (ins : List Input) (s : Disk) : Disk :=
  ins.foldl (fun s i => final (e.take i) s) s

/-- Every input meets the condition `ok` in the state it finds. -/
def Env.Along (e : Env) (ok : Disk → Input → Prop) : List Input → Disk → Prop
  | [], _ => True
  | i :: rest, s => ok s i ∧ e.Along ok rest (final (e.take i) s)

instance Env.decidableAlong (e : Env) (ok : Disk → Input → Prop) [∀ s i, Decidable (ok s i)] :
    (ins : List Input) → (s : Disk) → Decidable (e.Along ok ins s)
  | [], _ => isTrue trivial
  | i :: rest, s =>
    @instDecidableAnd _ _ inferInstance (e.decidableAlong ok rest (final (e.take i) s))

theorem Env.feed_concat (e : Env) (ins : List Input) (i : Input) (s : Disk) :
    e.feed (ins ++ [i]) s = final (e.take i) (e.feed ins s) := by
  rw [feed, List.foldl_append]
  rfl

variable {e : Env} {ins : List Input} {s : Disk}

theorem Env.Along.imp {ok ok' : Disk → Input → Prop} (h : ∀ s i, ok s i → ok' s i)
    (run : e.Along ok ins s) : e.Along ok' ins s := by
  induction ins generalizing s with
  | nil => trivial
  | cons i rest ih => exact ⟨h s i run.1, ih run.2⟩

theorem Env.along_concat {ok : Disk → Input → Prop} {i : Input} :
    e.Along ok (ins ++ [i]) s ↔ e.Along ok ins s ∧ ok (e.feed ins s) i := by
  induction ins generalizing s with
  | nil => exact and_comm
  | cons j rest ih =>
    have tail := ih (s := final (e.take j) s)
    exact (and_congr_right' tail).trans and_assoc.symm

/-! ### A small deployment

Witnesses and counterexamples run on it: data in `/data`, state in `/state`, and library
functions that know only what a run needs. -/

def smallEnv (separate : Bool) : Env where
  root := ["data"]
  state := ["state"]
  separateVolumes := separate
  state_outside := by decide
  root_outside := by decide
  root_literal := by decide
  matchName pattern name :=
    if pattern.endsWith "*" then (pattern.toList.dropLast).isPrefixOf name.toList
    else pattern == name
  unmarshalACL _ := none
  unmarshalTags text := if text = "" then none else some [("tag", text)]
  unmarshalRetention _ := none
  unmarshalLegalHold status := some ⟨status⟩
  unmarshalCORS _ := none
  unmarshalLock _ := none
  unmarshalAccount _ := none
  unmarshalDoc _ := none
  unmarshalUpload _ := none
  compactJSON := some
  parseTime text := if text = "" then none else some (unixEpoch + text.length)
  addDate t _ _ := t
  md5Hex _ := ""
  guessContentType _ := ""
  jsonText _ := []

/-- A fresh backend of the small deployment. -/
def smallDisk (separate : Bool) : Disk :=
  final (do
    sys (mkdirAll (smallEnv separate).root)
    Env.mkdirEach (Env.stateDirs.map fun d => (smallEnv separate).state.join d) : M Unit) DirTree.bare

/-- A deployment whose roots are siblings. -/
def siblingEnv : Env :=
  { smallEnv false with
    root := ["data", "srv"]
    state := ["state", "srv"]
    state_outside := by decide
    root_outside := by decide
    root_literal := by decide }

instance neZero_ten : NeZero (10 : Nat) := ⟨by decide⟩

/-- The identifier with number `n`. -/
def uuid (n : Fin 10) : String := "00000000-0000-0000-0000-00000000000" ++ toString n

/-! Commands on the bucket `b`, as the gateway builds them. -/

namespace Small

def create : Command := { op := .createBucket, bucket := "b" }

def versioning (status : String) : Command :=
  { op := .putBucketVersioning, bucket := "b", config := status }

/-- The payload of the put with number `n`. -/
def payload (n : Fin 10) : Input := .blob (uuid n) [UInt8.ofNat n]

def put (key : String) (n : Fin 10) : Command :=
  { op := .putObject, bucket := "b", key, versionID := uuid n, blobToken := uuid n, size := 1,
    metaMap := [(Command.metaMTime, "2024")] }

/-- A deletion without a version; the gateway gives it an id when it sees versioning on. -/
def delete (key : String) (id : String) : Command :=
  { op := .deleteObject, bucket := "b", key, versionID := id }

/-- A deletion of the version `id`. -/
def deleteVersion (key id : String) : Command :=
  { op := .deleteObject, bucket := "b", key, versionID := id,
    metaMap := [("explicit-version", "true")] }

/-! Uploads are numbered too. -/

def beginUpload (key : String) (n : Fin 10) : Command :=
  { op := .createMultipart, bucket := "b", key, uploadID := uuid n }

/-- The payload of a part. -/
def part (n : Fin 10) (number : Int) (payload : Bytes) : Input := .part (uuid n) number payload

def uploadPart (key : String) (n : Fin 10) (number : Int) : Command :=
  { op := .uploadPart, bucket := "b", key, uploadID := uuid n, partNumber := number, size := 1 }

def complete (key : String) (n : Fin 10) (numbers : List Int) : Command :=
  { op := .completeMultipart, bucket := "b", key, uploadID := uuid n, versionID := uuid n,
    blobToken := uuid n, parts := numbers.map fun number => { partNumber := number, etag := "" } }

def abort (key : String) (n : Fin 10) : Command :=
  { op := .abortMultipart, bucket := "b", key, uploadID := uuid n }

end Small

/-! ### Identifiers -/

theorem nameable_of_isUUID {id : String} (h : isUUID id = true) : Nameable id := by
  simp only [isUUID, beq_iff_eq] at h
  refine ⟨?_, fun mem => ?_⟩
  · rintro rfl
    revert h
    decide
  · have found := List.mem_map_of_mem (f := uuidMask) mem
    rw [h] at found
    revert found
    decide

theorem ne_null_of_isUUID {id : String} (h : isUUID id = true) : id ≠ "null" := by
  rintro rfl
  revert h
  decide

variable {token : String}

theorem plain_of_safeToken (h : Env.safeToken token = true) : Plain token := by
  simp only [Env.safeToken, Bool.and_eq_true, bne_iff_ne, ne_eq, List.all_eq_true] at h
  refine ⟨⟨h.1, ?_, ?_⟩, fun mem => ?_⟩
  · rintro rfl
    have := h.2 '.' (by decide)
    simp at this
  · rintro rfl
    have := h.2 '.' (by decide)
    simp at this
  · have := h.2 '/' mem
    simp at this

theorem no_dot_of_safeToken (h : Env.safeToken token = true) : '.' ∉ token.toList := fun mem => by
  simp only [Env.safeToken, Bool.and_eq_true, List.all_eq_true] at h
  have := h.2 '.' mem
  simp at this

/-! ### Staged payloads -/

/-- The payload that waits under a token. -/
def Env.staged (e : Env) (s : Disk) (token : String) : Option Bytes :=
  match content s (e.stagingPath token) with
  | some (.raw bytes) => some bytes
  | _ => none

/-- The staging area holds payloads and nothing else. -/
structure Payloads (e : Env) (s : Disk) : Prop where
  raw : ∀ token, Env.safeToken token = true → ∀ c, content s (e.stagingPath token) = some c →
    ∃ bytes, c = .raw bytes
  notDir : ∀ token, Env.safeToken token = true → s.get (e.stagingPath token) ≠ some .dir

theorem Payloads.file (h : Payloads e s) (safe : Env.safeToken token = true)
    (arrived : (s.get (e.stagingPath token)).isSome) :
    ∃ g bytes, s.file (e.stagingPath token) = some g ∧ g.content = .raw bytes ∧
      e.staged s token = some bytes := by
  rcases node : s.get (e.stagingPath token) with _ | _ | g
  · simp [node] at arrived
  · exact absurd node (h.notDir token safe)
  · have file : s.file (e.stagingPath token) = some g := DirTree.file_eq_some.mpr node
    obtain ⟨bytes, eq⟩ := h.raw token safe g.content (by simp [content, file])
    exact ⟨g, bytes, file, eq, by simp [Env.staged, content, file, eq]⟩

theorem payloads_of_empty (h : ∀ q ∈ s.dom, ¬ Below (e.area "staging") q) : Payloads e s := by
  have none : ∀ token, Env.safeToken token = true → s.get (e.stagingPath token) = none := by
    intro token safe
    refine DirTree.get_none_of_dom h _ ?_
    rw [Env.stagingPath_eq (plain_of_safeToken safe)]
    exact ⟨List.suffix_cons _ _, fun eq => by simpa using congrArg List.length eq⟩
  refine ⟨fun token safe c found => ?_, fun token safe => ?_⟩
  · simp [content, DirTree.file, none token safe] at found
  · simp [none token safe]

/-- The files a fan-out writes. -/
def stageCells (e : Env) (token : String) : Set FilePath :=
  {e.stagingPath token, Env.jsonTmp (e.stagingPath token)}

theorem handleBlobPut_wp (token : String) (payload : Bytes) :
    wp (e.handleBlobPut token payload)
      (fun _ t => Framed (stageCells e token) {q | q <:+ e.area "staging"} s t ∧
        (Env.safeToken token = true → content t (e.stagingPath token) = some (.raw payload)) ∧
        (Env.safeToken token = false → t = s))
      (fun _ t => Framed {Env.jsonTmp (e.stagingPath token)} {q | q <:+ e.area "staging"} s t) s := by
  unfold Env.handleBlobPut
  by_cases safe : Env.safeToken token = true
  · rw [if_pos safe, Env.streamTo_eq]
    have tail : (e.stagingPath token).tail = e.area "staging" := by
      rw [Env.stagingPath_eq (plain_of_safeToken safe), List.tail_cons]
    refine wp_mono (Env.writeThrough_wp (.raw payload)) ?_ ?_
    · rintro - t ⟨frame, written, -⟩
      rw [tail] at frame
      exact ⟨frame, fun _ => written, fun h => by rw [safe] at h; cases h⟩
    · intro _ t frame
      rwa [tail] at frame
  · rw [if_neg safe, wp_pure]
    exact ⟨Framed.refl s, fun h => absurd h safe, fun _ => rfl⟩

theorem area_stageCells (safe : Env.safeToken token = true) :
    ∀ q ∈ stageCells e token, e.area "staging" <:+ q := by
  rw [stageCells, Env.stagingPath_eq (plain_of_safeToken safe)]
  rintro q (rfl | rfl)
  · exact List.suffix_cons _ _
  · exact List.suffix_cons _ _

/-- A name with a dot is no staged payload. -/
theorem stagingPath_ne_tmp {token' : String} (safe : Env.safeToken token = true)
    (safe' : Env.safeToken token' = true) :
    e.stagingPath token ≠ Env.jsonTmp (e.stagingPath token') := by
  rw [Env.stagingPath_eq (plain_of_safeToken safe), Env.stagingPath_eq (plain_of_safeToken safe'),
    Env.jsonTmp, suffixed]
  intro eq
  have name := (List.cons.inj eq).1
  refine no_dot_of_safeToken safe ?_
  rw [name, String.toList_append]
  exact List.mem_append_right _ (by decide)

/-- A step that leaves payloads alone, or takes some away, or brings new ones. -/
theorem Payloads.framed {t : Disk} {F D : Set FilePath} (h : Payloads e s) (frame : Framed F D s t)
    (cells : ∀ token, Env.safeToken token = true → e.stagingPath token ∈ F →
      t.file (e.stagingPath token) = none ∨ ∃ bytes, content t (e.stagingPath token) = some (.raw bytes))
    (dirs : ∀ token, Env.safeToken token = true → e.stagingPath token ∉ D) : Payloads e t  where
  raw token safe c found := by
    by_cases mem : e.stagingPath token ∈ F
    · rcases cells token safe mem with none | ⟨bytes, eq⟩
      · simp [content, none] at found
      · rw [eq] at found
        cases found
        exact ⟨bytes, rfl⟩
    · rw [content_of_file_eq (frame.file _ mem)] at found
      exact h.raw token safe c found
  notDir token safe dir := h.notDir token safe (frame.dir _ (dirs token safe) dir)

/-- A fan-out leaves payloads in the staging area. -/
theorem Payloads.stage {t : Disk} (h : Payloads e s) {payload : Bytes}
    (safe : Env.safeToken token = true)
    (frame : Framed (stageCells e token) {q | q <:+ e.area "staging"} s t)
    (written : content t (e.stagingPath token) = some (.raw payload)) : Payloads e t := by
  refine h.framed frame (fun token' safe' mem => .inr ?_) fun token' safe' sub => ?_
  · rcases mem with eq | eq
    · exact ⟨payload, by rw [eq, written]⟩
    · exact absurd eq (stagingPath_ne_tmp safe' safe)
  · have len := List.IsSuffix.length_le sub
    rw [Env.stagingPath_eq (plain_of_safeToken safe'), List.length_cons] at len
    omega

theorem stagingPath_not_mem_dirs {x : Site e} (plain : Plain token) :
    e.stagingPath token ∉ x.dirs := by
  have area := Site.area_staging (e := e) plain
  rintro (h | h | h | h)
  · exact Env.data_not_area x.root_op ((area.trans h).trans (List.tail_suffix x.op)) rfl
  · exact absurd (Env.area_unique ((area.trans h).trans (List.tail_suffix x.hp)) x.area_hp) (by decide)
  · exact absurd (Env.area_unique (area.trans h) (Env.area_versionsDir x.tame)) (by decide)
  · have len := h.length_le
    rw [Env.stagingPath_eq plain, List.length_cons] at len
    omega

/-- Commands on a key keep the staging area in order when what they consume is gone. -/
theorem Payloads.cells {x : Site e} {t : Disk} {B : Set String} {S : Set FilePath}
    (h : Payloads e s) (frame : Framed (x.cells B S) x.dirs s t)
    (consumed : ∀ q ∈ S, t.file q = none) : Payloads e t := by
  refine h.framed frame (fun token safe mem => ?_) fun token safe =>
    stagingPath_not_mem_dirs (plain_of_safeToken safe)
  have area := Site.area_staging (e := e) (plain_of_safeToken safe)
  rcases mem with h | h | h | h | ⟨id, -, plain, h | h⟩ | ⟨h, -⟩
  · exact absurd h.symm (Env.data_not_area x.root_op area)
  · exact absurd h.symm (Env.data_not_area x.root_tmp area)
  · exact absurd h (Env.area_ne area x.area_hp (by decide))
  · exact absurd h (Env.area_ne area x.area_hpTmp (by decide))
  · exact absurd h (Env.area_ne area (x.area_blob plain) (by decide))
  · exact absurd h (Env.area_ne area (x.area_blobTmp plain) (by decide))
  · exact .inl (consumed _ h)

end D9Store
