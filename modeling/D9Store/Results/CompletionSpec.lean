import D9Store.Uploads.Completion

/-!
The specification of `CompleteMultipart`.

The record of an upload has the last part of every number, in the order of the numbers. A request is
accepted exactly when it lists some of them in that order with their digests, all but the last are
large enough and all payloads have arrived; a request that is not accepted changes nothing. The object
of a completion is the parts joined, unless the cleanup of the staged parts takes it away again.
-/

namespace D9Store

open Posix FilePath

namespace Env

variable {e : Env} {s t : Disk} {ins : List Input} {c : Command} {mp mp' : MultipartUpload}

/-- The digests of the parts, decoded and one after the other. -/
def digests (parts : List Part) : Bytes :=
  parts.flatMap fun p => (decodeHex (trimQuotes p.etag).toList).getD []

/-- The object of the request: its bytes are the payloads of the parts, its size is their length and
its digest that of their digests. -/
def IsJoined (e : Env) (s t : Disk) (mp : MultipartUpload) (c : Command) : Prop :=
  (∃ op, e.objectPath c.bucket c.key = .ok op ∧
    content t op = some (.raw (e.joined s c.uploadID (requestedParts mp c)))) ∧
  ∃ v, (e.versionsOf t c.bucket c.key).head? = some v ∧
    v.size = (e.joined s c.uploadID (requestedParts mp c)).length ∧
    v.etag = "\"" ++ e.md5Hex (digests (requestedParts mp c)) ++ "-" ++
      toString (requestedParts mp c).length ++ "\""

theorem completed_requested (asc : Numbered mp.parts)
    (known : e.upload s c.bucket c.uploadID = some mp) {parts : List Part}
    (found : Site.completed e s c = .ok (mp', parts)) : mp' = mp ∧ parts = requestedParts mp c := by
  obtain ⟨mp'', record, rest⟩ := except_bind_ok found
  obtain ⟨parts', order, eq⟩ := except_bind_ok rest
  cases eq
  rw [readMPU_ok.mpr known] at record
  cases record
  exact ⟨rfl, (requested_of_resolves asc (Site.orderedParts_spec order)).symm⟩

/-- The object of a completion is the parts joined exactly when the cleanup spares it. -/
theorem isJoined_iff (neat : e.Neat s) (asc : Numbered mp.parts)
    (known : e.upload s c.bucket c.uploadID = some mp) (plain : Plain c.bucket)
    (token : Plain c.blobToken) (upload : Plain c.uploadID)
    (run : e.applyCompleteMultipart c s = .ok () t) :
    e.IsJoined s t mp c ↔
      ∀ op, e.objectPath c.bucket c.key = .ok op → ¬ e.Swept c.bucket c.uploadID op := by
  obtain ⟨mp', parts, x, u, found, bucket, key, left, cleanup⟩ :=
    complete_left neat plain token upload run
  obtain ⟨rfl, rfl⟩ := completed_requested asc known found
  have place : e.objectPath c.bucket c.key = .ok x.op := by rw [← bucket, ← key, x.op_eq]
  constructor
  · rintro ⟨⟨op, place', bytes⟩, -⟩ op' place'' swept
    rw [place] at place' place''
    cases place'
    cases place''
    obtain ⟨f, file, -⟩ := Option.map_eq_some_iff.mp left.latest.1
    have gone := ((cleanupUpload_effect cleanup).2 x.op f file).1 swept
    rw [content, gone] at bytes
    cases bytes
  · intro spared
    have swept := spared x.op place
    rw [← bucket] at cleanup swept
    have left := left.spared upload swept cleanup
    rw [completeMeta_eq] at left
    obtain ⟨v, head, same⟩ := left.head bucket.symm key.symm rfl rfl rfl rfl
    rw [bucket, key] at head
    exact ⟨⟨x.op, place, left.latest.1⟩, v, head, congrArg ObjectMeta.size same,
      congrArg ObjectMeta.etag same⟩

/-- Two parts, the first of them uploaded twice. -/
def twoParts : List Input :=
  [.command Small.create, .command (Small.beginUpload "k" 0), Small.part 0 2 [8],
    .command (Small.uploadPart "k" 0 2), Small.part 0 1 [6], .command (Small.uploadPart "k" 0 1),
    Small.part 0 1 [7], .command { Small.uploadPart "k" 0 1 with size := minPartSize }]

end Env

end D9Store
