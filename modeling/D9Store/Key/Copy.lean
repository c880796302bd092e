import D9Store.Key.Put

/-!
`applyCopyObject` on one key.

The path of the source is resolved before the destination's object file is displaced. A
source that is not displaced itself arrives like a staged payload.
-/

namespace D9Store

open Posix FilePath

namespace Site

variable {e : Env} {x : Site e} {s t : Disk} {c : Command} {src : ObjectMeta} {p : FilePath}

theorem fit_copyMeta (bm : BucketMeta) (live : src.deleteMarker = false) (addr : x.Addresses c)
    (id : bm.versioningEnabled = true → Nameable c.versionID) : x.Fit (e.copyMeta bm c src) := by
  obtain ⟨named, plain⟩ := writeVersionID_nameable id
  exact ⟨by simp [addr.2], by simpa using named, by simpa using plain, by simp,
    copyMeta_live bm c live⟩

/-- The version a copy reads, and where its bytes are. -/
def copySource (e : Env) (s : Disk) (c : Command) : Except Err (ObjectMeta × FilePath) := do
  match c.source with
  | none => .error (.api errInvalidKey)
  | some ref =>
    let (src, _) ← e.resolveVersion s ref.bucket ref.key ref.versionID
    if src.deleteMarker then .error (.api errNoSuchKey)
    else do .ok (src, ← e.physPath ref.bucket src)

theorem copySource_ok (h : copySource e s c = .ok (src, p)) :
    ∃ ref km, c.source = some ref ∧
      e.resolveVersion s ref.bucket ref.key ref.versionID = .ok (src, km) ∧
      src.deleteMarker = false ∧ e.physPath ref.bucket src = .ok p := by
  unfold copySource at h
  cases source : c.source with
  | none => simp [source] at h
  | some ref =>
    rw [source] at h
    obtain ⟨⟨v, km⟩, found, h⟩ := except_bind_ok h
    cases marker : v.deleteMarker with
    | true => simp [marker] at h
    | false =>
      simp only [marker, Bool.false_eq_true, if_false] at h
      obtain ⟨p', phys, h⟩ := except_bind_ok h
      cases h
      exact ⟨ref, km, rfl, found, marker, phys⟩

/-- A copy without a live source is refused. -/
theorem applyCopyObject_refused {err : Err} (refused : copySource e s c = .error err) :
    wp (e.applyCopyObject c) (fun _ _ => False) (fun _ t => t = s) s := by
  rw [Env.applyCopyObject_steps]
  unfold copySource at refused
  cases source : c.source with
  | none => exact rfl
  | some ref =>
    rw [source] at refused
    simp only [wp_bind, wp_reading]
    cases found : e.resolveVersion s ref.bucket ref.key ref.versionID with
    | error err => trivial
    | ok pair =>
      obtain ⟨src, km⟩ := pair
      simp only [found, bind, Except.bind] at refused
      cases marker : src.deleteMarker with
      | true =>
        dsimp only
        rw [marker]
        exact rfl
      | false =>
        cases phys : e.physPath ref.bucket src with
        | error err => simp [marker, wp_bind, wp_reading, phys]
        | ok p => simp [marker, phys] at refused

/-- Copying a version whose bytes stay where they are while the destination is displaced. -/
theorem applyCopyObject_wp {g : File} (ready : x.Ready s) (sound : x.Sound s) (addr : x.Addresses c)
    (id : (e.bucketMetaForWrite s x.bucket).versioningEnabled = true → Nameable c.versionID)
    (source : copySource e s c = .ok (src, p)) (file : s.file p = some g)
    (apart : p ≠ Env.tmpOf x.op) (stays : p ∉ x.displacedCells
      (History.archivedID (e.bucketMetaForWrite s x.bucket).versioningEnabled (x.versions s))) :
    wp (e.applyCopyObject c)
      (fun _ t => x.Installed (e.bucketMetaForWrite s x.bucket).versioningEnabled
        (e.copyMeta (e.bucketMetaForWrite s x.bucket) c src) g.content ∅ s t)
      (fun _ t => s.get (Env.tmpOf x.op) ≠ some .dir → x.Stray s t) s := by
  obtain ⟨ref, km, source, found, live, phys⟩ := copySource_ok source
  have brings : ∀ s₁, Framed (x.displacedCells (History.archivedID
      (e.bucketMetaForWrite s x.bucket).versioningEnabled (x.versions s)))
      {q | q <:+ e.versionsDir x.bucket} s s₁ →
      x.Brings (x.copyToKey p) g.content ∅ (fun _ => True) s₁ :=
    fun s₁ frame₁ => brings_copy apart ((frame₁.file p stays).trans file)
  have installs := wp_mono (install_by ready sound
    (fit_copyMeta (e.bucketMetaForWrite s x.bucket) live addr id) brings)
    (fun _ _ h => h.1) fun _ _ h => h
  obtain ⟨bucket, key⟩ := addr
  rw [Env.applyCopyObject_steps]
  simp only [copyToKey, bind_assoc] at installs
  simpa only [source, wp_bind, wp_reading, found, phys, live, bucket, key,
    loadKeyMetaOrNew_eq ready sound, Bool.false_eq_true, if_false] using installs

end Site

end D9Store
