import D9Store.Backend.FileOps
import D9Store.Runs

/-!
The metadata of a current version on its object file.

Every attribute is set or removed, so that nothing of an earlier version is left; the size and the time
of modification are the file's own. What is read back is the version that was written, if a file can
have its time.
-/

namespace D9Store

open Posix

/-- A version that an object file can carry. -/
structure ObjectMeta.Storable (v : ObjectMeta) (size : Int) : Prop where
  current : v.blobID = ""
  live : v.deleteMarker = false
  named : v.versionID ≠ ""
  timed : v.lastModified.isZero = false
  dated : v.lastModified.fileTime = v.lastModified
  sized : v.size = size
  hold : ∀ hold, v.legalHold = some hold → hold.status ≠ ""

instance (v : ObjectMeta) (size : Int) : Decidable (v.Storable size) :=
  decidable_of_iff (v.blobID = "" ∧ v.deleteMarker = false ∧ v.versionID ≠ "" ∧
      v.lastModified.isZero = false ∧ v.lastModified.fileTime = v.lastModified ∧ v.size = size ∧
      ∀ hold ∈ v.legalHold, hold.status ≠ "")
    ⟨fun h => ⟨h.1, h.2.1, h.2.2.1, h.2.2.2.1, h.2.2.2.2.1, h.2.2.2.2.2.1, h.2.2.2.2.2.2⟩,
      fun h => ⟨h.current, h.live, h.named, h.timed, h.dated, h.sized, h.hold⟩⟩

namespace Xattrs

theorem setStr_of_ne {val : String} (ne : val ≠ "") : setStr val = some val := if_pos ne

theorem hold_read {hold : Option LegalHold} (ne : ∀ h, hold = some h → h.status ≠ "") :
    ((hold.bind fun h => setStr h.status).bind setStr).map LegalHold.mk = hold := by
  cases hold with
  | none => rfl
  | some h => simp [setStr_of_ne (ne h rfl)]

end Xattrs

variable {v : ObjectMeta}

/-- The metadata of a file that was stamped with a version. -/
theorem Env.fileMeta_stamp (e : Env) {f : File} (storable : v.Storable (e.size f.content)) :
    e.fileMeta v.bucket v.key (f.stamp v) = ({ v with isLatest := true }, false) := by
  obtain ⟨current, live, named, timed, dated, sized, hold⟩ := storable
  have read := Xattrs.hold_read hold
  cases v
  simp only at current live named timed dated sized read
  simp [fileMeta, File.stamp, Xattrs.store, current, live, timed, dated, sized, read,
    Xattrs.setStr_of_ne named, Site.setStr_getD, Site.setMap_getD]

/-- A version that is written on an object file is read back from it, whatever attributes the file had
before. -/
theorem xattrs_read_back (e : Env) {s : Disk} {p : FilePath} {f : File} (file : s.file p = some f)
    (storable : v.Storable (e.size f.content)) :
    ∃ t, writeCurrentXattrs p v s = .ok () t ∧
      e.readCurrentMeta t p v.bucket v.key = .ok ({ v with isLatest := true }, false) := by
  obtain ⟨t, run, -, stamped⟩ := writeCurrentXattrs_spec file v
  refine ⟨t, run, ?_⟩
  rw [Env.readCurrentMeta, stamped]
  exact congrArg Except.ok (e.fileMeta_stamp storable)

/-- Another version, on a file that carries one already. -/
theorem second_version_read_back :
    let e := smallEnv false
    let s := e.feed [.command Small.create, Small.payload 1, .command (Small.put "k" 1)] (smallDisk false)
    let v : ObjectMeta :=
      { bucket := "b", key := "k", versionID := uuid 2, size := 1, contentLanguage := "de",
        lastModified := .time (unixEpoch + 7), legalHold := some ⟨"ON"⟩ }
    ∃ t, writeCurrentXattrs ((e.bucketDir "b").join "k") v s = .ok () t ∧
      e.readCurrentMeta t ((e.bucketDir "b").join "k") "b" "k" =
        .ok ({ v with isLatest := true }, false) := by
  intro e s v
  have checked : (s.file ((e.bucketDir "b").join "k")).map (fun f => e.size f.content) = some 1 := by
    decide +kernel
  obtain ⟨f, file, size⟩ := Option.map_eq_some_iff.mp checked
  exact xattrs_read_back e file (v := v) (by rw [size]; decide +kernel)

/-- A time in the year 2262 that is read back as one in the year 1677. -/
theorem late_time_not_read_back :
    let e := smallEnv false
    let s := e.feed [.command Small.create, Small.payload 1, .command (Small.put "k" 1)] (smallDisk false)
    let p := (e.bucketDir "b").join "k"
    let v : ObjectMeta :=
      { bucket := "b", key := "k", versionID := uuid 2, size := 1,
        lastModified := .time (unixEpoch + 2 ^ 63) }
    (s.file p).map (fun f => e.size f.content) = some v.size ∧
      (outcome (writeCurrentXattrs p v) s).isOk = true ∧
      e.readCurrentMeta (final (writeCurrentXattrs p v) s) p "b" "k" =
        .ok ({ v with lastModified := .time (unixEpoch - 2 ^ 63), isLatest := true }, false) := by
  decide +kernel

end D9Store
