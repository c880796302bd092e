import D9Store.Gateway.Calls
import D9Store.Posix.Prog

/-!
What the calls of the gateway put into their commands.
-/

namespace D9Store

open Posix

namespace Gateway

variable {g : Gateway} {e : Env} {ctx : Ctx} {c : Command} {s : Disk} {newID bucket : String}
    {res : CallResult}

@[simp] theorem stamped_op : (g.stamped c).op = c.op := by
  unfold stamped
  split <;> rfl

@[simp] theorem stamped_bucket : (g.stamped c).bucket = c.bucket := by
  unfold stamped
  split <;> rfl

@[simp] theorem stamped_key : (g.stamped c).key = c.key := by
  unfold stamped
  split <;> rfl

@[simp] theorem stamped_versionID : (g.stamped c).versionID = c.versionID := by
  unfold stamped
  split <;> rfl

@[simp] theorem stamped_blobToken : (g.stamped c).blobToken = c.blobToken := by
  unfold stamped
  split <;> rfl

@[simp] theorem stamped_uploadID : (g.stamped c).uploadID = c.uploadID := by
  unfold stamped
  split <;> rfl

/-- The stamp changes no other entry of the command's map. -/
theorem stamped_find {k : String} (ne : k ≠ Command.metaMTime) :
    (g.stamped c).metaMap.find k = c.metaMap.find k := by
  unfold stamped
  split
  · rfl
  · have other : (k == Command.metaMTime) = false := beq_false_of_ne ne
    simp [StrMap.find, List.lookup_cons, other]

theorem putObject_ok {token : String} {inp : PutObjectInput} {body : Bytes}
    (asked : g.putObject e ctx s token newID inp body = .ok (c, res)) :
    ∃ enabled, bucketVersioning e s inp.bucket = .ok enabled ∧
      res.versionID = visibleVersion enabled newID ∧ c.op = .putObject ∧ c.bucket = inp.bucket ∧
      c.key = inp.key ∧ c.versionID = newID ∧ c.blobToken = token := by
  obtain ⟨enabled, mode, rest⟩ := except_bind_ok asked
  refine ⟨enabled, mode, ?_⟩
  split at rest
  · obtain ⟨_, -, rest⟩ := except_bind_ok rest
    cases rest
    simp
  · cases rest
    simp

theorem copyObject_ok {token : String} {inp : CopyObjectInput}
    (asked : g.copyObject e ctx s token newID inp = .ok (c, res)) :
    ∃ enabled, bucketVersioning e s inp.dstBucket = .ok enabled ∧
      res.versionID = visibleVersion enabled newID ∧ c.op = .copyObject ∧
      c.bucket = inp.dstBucket ∧ c.key = inp.dstKey ∧ c.versionID = newID := by
  obtain ⟨enabled, mode, rest⟩ := except_bind_ok asked
  obtain ⟨src, -, rest⟩ := except_bind_ok rest
  refine ⟨enabled, mode, ?_⟩
  cases rest
  simp

theorem completeMultipartUpload_ok {token key uploadID : String} {parts : List CompletedPart}
    (asked : g.completeMultipartUpload e ctx s token newID bucket key uploadID parts = .ok (c, res)) :
    ∃ enabled, bucketVersioning e s bucket = .ok enabled ∧
      res.versionID = visibleVersion enabled newID ∧ c.op = .completeMultipart ∧
      c.bucket = bucket ∧ c.key = key ∧ c.versionID = newID ∧ c.blobToken = token ∧
      c.uploadID = uploadID := by
  obtain ⟨enabled, mode, rest⟩ := except_bind_ok asked
  refine ⟨enabled, mode, ?_⟩
  cases rest
  simp

theorem deleteObject_ok {key versionID : String}
    (asked : g.deleteObject e ctx s newID bucket key versionID = .ok (c, res)) :
    ∃ enabled, bucketVersioning e s bucket = .ok enabled ∧ c.op = .deleteObject ∧
      c.bucket = bucket ∧ c.key = key ∧
      if versionID ≠ "" then Env.explicitVersion c = true ∧ res.deleteMarker = false
      else Env.explicitVersion c = false ∧ res.deleteMarker = enabled ∧
        res.versionID = c.versionID ∧ c.versionID = if enabled then newID else "" := by
  obtain ⟨enabled, mode, rest⟩ := except_bind_ok asked
  refine ⟨enabled, mode, ?_⟩
  have apart : "explicit-version" ≠ Command.metaMTime := by decide
  by_cases named : versionID = ""
  · simp only [named, ne_eq, not_true_eq_false, if_false] at rest ⊢
    cases enabled with
    | true =>
      cases rest
      simp only [Env.explicitVersion, stamped_find apart]
      simp [StrMap.find]
    | false =>
      cases rest
      simp [Env.explicitVersion]
  · simp only [named, ne_eq, not_false_eq_true, if_true] at rest ⊢
    cases rest
    simp only [Env.explicitVersion, stamped_find apart]
    simp [StrMap.find, named]

/-- The command of a part. -/
theorem uploadPart_names (bucket key uploadID : String) (number : Int) (body : Bytes) :
    (g.uploadPart e ctx bucket key uploadID number body).op = .uploadPart ∧
      (g.uploadPart e ctx bucket key uploadID number body).bucket = bucket ∧
      (g.uploadPart e ctx bucket key uploadID number body).uploadID = uploadID := by
  simp [uploadPart]

end Gateway

end D9Store
