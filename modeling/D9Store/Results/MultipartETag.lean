import D9Store.Gateway.Calls
import D9Store.Uploads.Completion

/-!
The ETag of a completed upload.

The gateway computes it from the digests the client sent, a replica from the digests it recorded. The
two are matched one by one, up to quotes, before anything is written, so both come to the same text.
-/

namespace D9Store

open Posix FilePath

namespace Env

variable {e r : Env} {s t seen : Disk} {c : Command} {uploaded ordered : List Part}
    {mp : MultipartUpload}

/-! ### Two loops over matched parts -/

/-- Digests that match are the same bytes. -/
theorem digest_of_resolves {got : Part} {want : CompletedPart} (h : Site.Resolves uploaded got want) :
    trimQuotes got.etag = trimQuotes want.etag :=
  beq_iff_eq.mp h.2.2

/-- Over parts that match, the loop of the replica computes what the loop of the gateway does. -/
theorem multipartETag_of_resolves (digest : r.md5Hex = e.md5Hex) {wanted : List CompletedPart}
    (h : List.Forall₂ (Site.Resolves uploaded) ordered wanted) :
    r.multipartETag ordered = Gateway.multipartETag e wanted := by
  have raw : (ordered.flatMap fun p => (decodeHex (trimQuotes p.etag).toList).getD []) =
      wanted.flatMap fun p => (decodeHex (trimQuotes p.etag).toList).getD [] := by
    induction h with
    | nil => rfl
    | cons same _ ih => rw [List.flatMap_cons, List.flatMap_cons, digest_of_resolves same, ih]
  rw [multipartETag, Gateway.multipartETag, raw, h.length_eq, digest]

/-- The parts a completion goes on with match those of the request. -/
theorem resolves_of_completed (found : Site.completed r s c = .ok (mp, ordered)) :
    List.Forall₂ (Site.Resolves mp.parts) ordered c.parts := by
  obtain ⟨mp', -, rest⟩ := except_bind_ok found
  obtain ⟨ordered', order, eq⟩ := except_bind_ok rest
  cases eq
  exact Site.orderedParts_spec order

theorem completed_of_validated (passed : r.validated s c = .ok (mp, ordered)) :
    Site.completed r s c = .ok (mp, ordered) := by
  obtain ⟨⟨mp', ordered'⟩, found, arrived⟩ := except_bind_ok passed
  dsimp only at arrived
  split at arrived
  · cases arrived
    exact found
  · cases arrived

/-! ### Reading it back -/

/-- The cleanup of an upload can take the new object away, but not change what is recorded of it. -/
theorem Left.head_of_cleanup {x : Site r} {nv v : ObjectMeta} {bytes : Bytes}
    (h : Left x nv bytes s) (upload : Plain c.uploadID)
    (run : r.cleanupUpload x.bucket c.uploadID s = .ok () t)
    (head : (r.versionsOf t x.bucket x.key).head? = some v) : v.etag = nv.etag := by
  by_cases swept : r.Swept x.bucket c.uploadID x.op
  · obtain ⟨shrinks, effect⟩ := cleanupUpload_effect run
    cases h with
    | file f absent raw file =>
      rw [versionsOf_of_absent x.hp_eq (readDoc_absent_shrinks shrinks absent), x.op_eq] at head
      simp only [(effect _ _ file).1 swept] at head
      cases head
    | doc km found current =>
      obtain ⟨f, file, holds⟩ := readDoc_ok found
      have kept := (effect _ _ file).2 (not_swept upload x.area_hp (by decide) x.tame)
      rw [versionsOf_of_doc x.hp_eq (readDoc_of_document kept holds)] at head
      cases head
      rfl
  · have left := h.spared upload swept run
    rcases left.latest.2 with ⟨rest, eq⟩ | ⟨f, -, eq⟩
    · rw [eq] at head
      cases head
      rfl
    · rw [eq] at head
      cases head
      rfl

/-! ### The answer and the record -/

/-- What the gateway asks the replicas to complete, and the ETag it answers. -/
theorem asked_of_sent {g : Gateway} {ctx : Ctx} {res : CallResult}
    {token versionID bucket key uploadID : String} {parts : List CompletedPart}
    (sent : g.completeMultipartUpload e ctx seen token versionID bucket key uploadID parts =
      .ok (c, res)) :
    c.op = .completeMultipart ∧ c.bucket = bucket ∧ c.key = key ∧ c.uploadID = uploadID ∧
      res.etag = Gateway.multipartETag e c.parts := by
  obtain ⟨enabled, -, made⟩ := except_bind_ok sent
  cases made
  exact ⟨rfl, rfl, rfl, rfl, rfl⟩

/-- A completion records the ETag of its request. -/
theorem etag_of_complete (digest : r.md5Hex = e.md5Hex)
    (run : r.applyCompleteMultipart c s = .ok () t) :
    ∃ mp ordered, r.validated s c = .ok (mp, ordered) ∧
      r.joinAndInstall (r.bucketMetaForWrite s c.bucket) mp c ordered s = .ok () t ∧
      ∀ bm total, (r.completeMeta bm mp c ordered total).etag = Gateway.multipartETag e c.parts := by
  rw [applyCompleteMultipart_eq] at run
  cases passed : r.validated s c with
  | error err =>
    rw [passed] at run
    cases run
  | ok pair =>
    obtain ⟨mp, ordered⟩ := pair
    rw [passed] at run
    refine ⟨mp, ordered, rfl, run, ?_⟩
    intro bm total
    rw [completeMeta_eq]
    exact multipartETag_of_resolves digest (resolves_of_completed (completed_of_validated passed))

/-- What can be read of a completed key has the ETag of its request, and only the cleanup of the
staged parts can leave nothing to read. -/
theorem etag_after_complete (digest : r.md5Hex = e.md5Hex) (neat : r.Neat s) (tidy : c.Tidy)
    (op : c.op = .completeMultipart) (run : r.applyDisk c s = .ok () t) :
    (∀ v, (r.versionsOf t c.bucket c.key).head? = some v →
      v.etag = Gateway.multipartETag e c.parts) ∧
    ((∀ op, r.objectPath c.bucket c.key = .ok op → ¬ r.Swept c.bucket c.uploadID op) →
      ∃ v, (r.versionsOf t c.bucket c.key).head? = some v) := by
  have plain := tidy.bucket (by rw [Command.onDisk, op])
  have upload := tidy.upload (.inr (.inr (.inl op)))
  rw [applyDisk, op] at run
  obtain ⟨mp, ordered, x, u, found, bucket, key, left, cleanup⟩ :=
    complete_left neat plain (tidy.token (.inr op)) upload run
  have etag := multipartETag_of_resolves digest (resolves_of_completed found)
  rw [completeMeta_eq] at left
  rw [← bucket] at cleanup
  constructor
  · intro v head
    rw [← bucket, ← key] at head
    exact (left.head_of_cleanup upload cleanup head).trans etag
  · intro spared
    have kept : ¬ r.Swept x.bucket c.uploadID x.op := by
      rw [bucket]
      exact spared x.op (by rw [← bucket, ← key, x.op_eq])
    obtain ⟨v, head, -⟩ :=
      (left.spared upload kept cleanup).head bucket.symm key.symm rfl rfl rfl rfl
    rw [bucket, key] at head
    exact ⟨v, head⟩

/-- A completion that the gateway sent and that a replica applies records the ETag the gateway
answered: on every disk in the record it writes, and on every disk a run reaches in the latest version
that can be read afterwards. -/
theorem answered_etag_recorded {g : Gateway} {ctx : Ctx} {seen : Disk} {res : CallResult}
    {token versionID bucket key uploadID : String} {parts : List CompletedPart}
    (digest : r.md5Hex = e.md5Hex)
    (sent : g.completeMultipartUpload e ctx seen token versionID bucket key uploadID parts =
      .ok (c, res)) :
    (∀ s t, r.applyCompleteMultipart c s = .ok () t →
      ∃ mp ordered, r.validated s c = .ok (mp, ordered) ∧
        r.joinAndInstall (r.bucketMetaForWrite s c.bucket) mp c ordered s = .ok () t ∧
        ∀ bm total, (r.completeMeta bm mp c ordered total).etag = res.etag) ∧
    ∀ s ins t, r.Starts s → ByHand s → r.Along (fun _ i => i.Tidy) ins s → c.Tidy →
      r.applyDisk c (r.feed ins s) = .ok () t →
      (∀ v, (r.versionsOf t bucket key).head? = some v → v.etag = res.etag) ∧
      ((∀ op, r.objectPath bucket key = .ok op → ¬ r.Swept bucket uploadID op) →
        ∃ v, (r.versionsOf t bucket key).head? = some v) := by
  obtain ⟨op, rfl, rfl, rfl, answer⟩ := asked_of_sent sent
  rw [answer]
  constructor
  · intro s t run
    exact etag_of_complete digest run
  · intro s ins t start hand run tidy applied
    have neat : r.Neat (r.feed ins s) := (Neat.mk start.ground.tidy hand.needed).along run
    exact etag_after_complete digest neat tidy op applied

/-- Two parts, the digest of the first in hexadecimal and that of the second not. -/
def digestedParts : List Input :=
  [.command Small.create, .command (Small.beginUpload "k" 0), Small.part 0 1 [6],
    .command { Small.uploadPart "k" 0 1 with size := minPartSize, etag := "\"0a1b\"" },
    Small.part 0 2 [8], .command { Small.uploadPart "k" 0 2 with etag := "xyz" }]

/-- The client quotes the digest that was recorded without quotes, and the other way round. -/
theorem requoted_etag_recorded :
    let e := smallEnv false
    let s := e.feed digestedParts (smallDisk false)
    ∃ c res v, smallGateway.completeMultipartUpload e { account := "a" } s (uuid 0) (uuid 1) "b" "k"
        (uuid 0) [{ partNumber := 1, etag := "0a1b" }, { partNumber := 2, etag := "\"xyz\"" }] =
        .ok (c, res) ∧
      (e.versionsOf (final (e.applyDisk c) s) "b" "k").head? = some v ∧ v.etag = res.etag := by
  intro e s
  have tidy : e.Along (fun _ i => i.Tidy) digestedParts (smallDisk false) := by decide +kernel
  have hand : ByHand (smallDisk false) := everywhere_of_dom (by decide +kernel)
  have mode : Gateway.bucketVersioning e s "b" = .ok false := by decide +kernel
  let parts : List CompletedPart :=
    [{ partNumber := 1, etag := "0a1b" }, { partNumber := 2, etag := "\"xyz\"" }]
  let c := smallGateway.stamped
    { op := .completeMultipart, bucket := "b", key := "k", uploadID := uuid 0, versionID := uuid 1,
      blobToken := uuid 0, parts, issuedBy := "a" }
  have sent : smallGateway.completeMultipartUpload e { account := "a" } s (uuid 0) (uuid 1) "b" "k"
      (uuid 0) parts = .ok (c,
        { etag := Gateway.multipartETag e parts, versionID := visibleVersion false (uuid 1) }) := by
    rw [Gateway.completeMultipartUpload, mode]
    rfl
  have ok : c.Tidy := by decide +kernel
  have ran : (outcome (e.applyDisk c) s).isOk = true := by decide +kernel
  have place : e.objectPath "b" "k" = .ok ["k", "b", "data"] := by decide +kernel
  have apart : ¬ e.root.join "mpstaging" <:+ ["k", "b", "data"] := by decide
  have spared : ¬ e.Swept "b" (uuid 0) ["k", "b", "data"] := by
    rintro (record | pattern)
    · revert record
      decide +kernel
    · exact apart (matches_below (ok.upload (.inr (.inr (.inl rfl)))) pattern)
  clear_value c
  obtain ⟨same, found⟩ := (answered_etag_recorded rfl sent).2 (smallDisk false) digestedParts _
    starts_small hand tidy ok (run_of_isOk ran)
  obtain ⟨v, head⟩ := found (by
    intro op' place'
    rw [place] at place'
    cases place'
    exact spared)
  exact ⟨c, _, v, sent, head, same v head⟩

end Env

end D9Store
