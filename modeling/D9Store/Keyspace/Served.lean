import D9Store.Gateway.Effects
import D9Store.Keyspace.Reach

/-!
What is read of a new version.

A write moves a staged payload to the key path, stamps the file and records the history. The bytes
at the key path are then those of the payload, and the latest version is read from the history or,
when it is the only one, off its file.
-/

namespace D9Store

open Posix FilePath

namespace Env

variable {e : Env} {s t : Disk} {c : Command} {bucket key : String} {km : KeyMeta}
    {src hp : FilePath} {bytes : Bytes} {enabled : Bool}

/-! ### Payloads -/

/-- Stamping a file leaves every payload as it is. -/
theorem writeHead_content {p : FilePath} (run : e.writeHead km s = .ok () t) :
    content t p = content s p := by
  rcases writeHead_files run p with same | ⟨-, f, v, before, after⟩
  · exact content_of_file_eq same
  · rw [content, content, before, after]
    rfl

/-- A staged payload is moved to the key path as it is. -/
theorem putCurrentBytes_content (x : Site e) {bytes : Content} (staged : e.area "staging" <:+ src)
    (payload : content s src = some bytes) (run : e.putCurrentBytes x.bucket x.key src s = .ok () t) :
    content t x.op = some bytes := by
  obtain ⟨op, s₁, read, run₁⟩ := bind_ok.mp run
  rw [x.op_eq] at read
  obtain ⟨⟨⟩, rfl⟩ := reading_ok.mp read
  obtain ⟨_, s₂, made, move⟩ := bind_ok.mp run₁
  rw [content, ← (Framed.mkdirAll (sys_ok.mp made)).file src (Set.notMem_empty _)] at payload
  obtain ⟨g, file, rfl⟩ := Option.map_eq_some_iff.mp payload
  have moved := wp_ok (moveFile_wp x.near_op (data_not_area x.root_tmp staged).symm
    (data_not_area x.root_op staged).symm file) (sys_ok.mp move)
  exact moved.2.2.1

/-- The history a command starts from has the file of the key. -/
theorem Filed.load (filed : e.Filed s) (tame : Tame bucket)
    (place : e.historyPath bucket key = .ok hp) :
    e.historyPath (e.loadKeyMetaOrNew s bucket key).bucket (e.loadKeyMetaOrNew s bucket key).key =
      .ok hp := by
  unfold loadKeyMetaOrNew
  cases read : e.readKeyMeta s bucket key with
  | error err => exact place
  | ok km =>
    cases found : e.readDoc s hp with
    | error err =>
      obtain ⟨ownBucket, ownKey⟩ := readKeyMeta_own place found read
      simpa [ownBucket, ownKey] using place
    | ok doc =>
      obtain ⟨f, file, eq⟩ := readDoc_ok found
      obtain ⟨km', holds, own⟩ := filed bucket key hp f tame place file
      rw [holds] at eq
      cases eq
      rw [readKeyMeta_of_doc place found] at read
      cases read
      exact own

/-- A staged payload is neither an object nor a blob, so it outlasts the archiving. -/
theorem displaceCurrent_staged {km' : KeyMeta} (tame : Tame km.bucket)
    (head : ∀ v, km.versions.head? = some v → atKeyPath v = true → '/' ∉ v.versionID.toList)
    (staged : e.area "staging" <:+ src) (run : e.displaceCurrent km enabled s = .ok km' t) :
    content t src = content s src := by
  have frame := wp_ok (displaceCurrent_stored tame head s) run
  rw [content, content, frame.file]
  rintro (data | blob)
  · exact data_not_area data staged rfl
  · exact absurd (area_unique blob staged) (by decide)

/-- The payload of a write, once it is moved. -/
theorem installed_content (x : Site e) {km' : KeyMeta} {bytes : Content} {s₁ s₂ : Disk}
    (tame : Tame km.bucket)
    (head : ∀ v, km.versions.head? = some v → atKeyPath v = true → '/' ∉ v.versionID.toList)
    (staged : e.area "staging" <:+ src) (payload : content s src = some bytes)
    (displace : e.displaceCurrent km enabled s = .ok km' s₁)
    (install : e.putCurrentBytes x.bucket x.key src s₁ = .ok () s₂) :
    content s₂ x.op = some bytes := by
  rw [← displaceCurrent_staged tame head staged displace] at payload
  exact putCurrentBytes_content x staged payload install

/-- Recording a version leaves the payload at the key path. -/
theorem writeKeyMeta_content (x : Site e) (own : e.historyPath km.bucket km.key = .ok x.hp)
    (run : e.writeKeyMeta km s = .ok () t) : content t x.op = content s x.op := by
  obtain ⟨_, s₁, stamped, wrote⟩ := bind_ok.mp run
  rw [← writeHead_content stamped, content, content,
    writeHistory_keeps own x.op_ne_hp x.op_ne_hpTmp wrote]

/-! ### The latest version -/

/-- The key's latest version is an object of these bytes, recorded with this size. -/
def Serves (e : Env) (t : Disk) (bucket key : String) (bytes : Bytes) (size : Int) : Prop :=
  ∃ v pp, (e.versionsOf t bucket key).head? = some v ∧ v.deleteMarker = false ∧ v.size = size ∧
    e.physPath bucket v = .ok pp ∧ content t pp = some (.raw bytes)

theorem serves_of_file (x : Site e) {f : File} (absent : e.readDoc t x.hp = .error (.os .noent))
    (file : t.file x.op = some f) (raw : f.content = .raw bytes) :
    e.Serves t x.bucket x.key bytes bytes.length := by
  have shape : (e.fileMeta x.bucket x.key f).1.size = bytes.length ∧
      (e.fileMeta x.bucket x.key f).1.blobID = "" ∧ (e.fileMeta x.bucket x.key f).1.key = x.key := by
    unfold fileMeta
    split <;> simp [size, raw, Env.bytes]
  refine ⟨(e.fileMeta x.bucket x.key f).1, x.op, ?_, fileMeta_live _ _ _, shape.1, ?_, ?_⟩
  · rw [versionsOf_of_absent x.hp_eq absent, x.op_eq]
    simp [file]
  · rw [physPath, if_pos shape.2.1, shape.2.2, x.op_eq]
  · rw [content, file, Option.map_some, raw]

theorem serves_of_doc (x : Site e) {v : ObjectMeta} {rest : List ObjectMeta}
    (found : e.readDoc t x.hp = .ok (.keyMeta km)) (versions : km.versions = v :: rest)
    (live : v.deleteMarker = false) (own : v.key = x.key) (blob : v.blobID = "")
    (current : content t x.op = some (.raw bytes)) : e.Serves t x.bucket x.key bytes v.size := by
  refine ⟨v, x.op, ?_, live, rfl, ?_, current⟩
  · rw [versionsOf_of_doc x.hp_eq found, versions, List.head?_cons]
  · rw [physPath, if_pos blob, own, x.op_eq]

/-- How the latest version is read when `nv` was recorded for these bytes: from the history, or off
its file when it is the only one. -/
def Latest (x : Site e) (nv : ObjectMeta) (bytes : Bytes) (t : Disk) : Prop :=
  content t x.op = some (.raw bytes) ∧
    ((∃ rest, e.versionsOf t x.bucket x.key = { nv with isLatest := true } :: rest) ∨
      ∃ f : File, f.content = .raw bytes ∧
        e.versionsOf t x.bucket x.key = [x.readBack f { nv with isLatest := true }])

/-- What a recorded version leaves: its history, or its stamped file alone. -/
inductive Left (x : Site e) (nv : ObjectMeta) (bytes : Bytes) (t : Disk) : Prop where
  | doc (km : KeyMeta) (found : e.readDoc t x.hp = .ok (.keyMeta (km.prependLatest nv)))
      (current : content t x.op = some (.raw bytes))
  | file (f : File) (absent : e.readDoc t x.hp = .error (.os .noent)) (raw : f.content = .raw bytes)
      (file : t.file x.op = some (f.stamp { nv with isLatest := true }))

theorem Left.latest {x : Site e} {nv : ObjectMeta} (h : Left x nv bytes t) :
    Latest x nv bytes t := by
  cases h with
  | doc km found current => exact ⟨current, .inl ⟨_, versionsOf_of_doc x.hp_eq found⟩⟩
  | file f absent raw file =>
    refine ⟨by rw [content, file, Option.map_some]; exact congrArg some raw, .inr ⟨f, raw, ?_⟩⟩
    rw [versionsOf_of_absent x.hp_eq absent, x.op_eq]
    simp [file, x.fileMeta_stamp]

end Env

end D9Store
