import D9Store.Results.OwnUploads
import D9Store.Uploads.Assembly
import D9Store.Uploads.Parts

/-!
The payloads of a completed object.

A part is recorded by the log with the digest and the size of its payload, and the payload itself
is streamed to the nodes before, to a file that is named by the upload and the part number alone.
Another client's payload for the same part replaces it there, and a completion that lists the
recorded digest joins the file as it stands. In a run where the last payload streamed for each
listed part is the recorded one, the object is what the request asked for.
-/

namespace D9Store

open Posix FilePath

namespace Env

variable {e : Env} {s t : Disk} {ins : List Input} {c : Command}

/-- The object is the one the request asked for: payloads of the listed digests, joined in the
order of their part numbers, and as long as their records say. -/
def Fulfils (e : Env) (s t : Disk) (c : Command) : Prop :=
  (c.parts.map (·.partNumber)).Pairwise (· < ·) ∧
    ∃ mp parts payloads, Site.completed e s c = .ok (mp, parts) ∧
      List.Forall₂ (fun payload want => etagEqual (e.md5File (.raw payload)) want.etag = true)
        payloads c.parts ∧
      e.Serves t c.bucket c.key payloads.flatten (parts.map (·.size)).sum

/-- The record of the part is the record of this payload. -/
def Attests (e : Env) (p : Part) (payload : Bytes) : Bool :=
  etagEqual (e.md5File (.raw payload)) p.etag && p.size == payload.length

/-- The last payload streamed for each listed part is the recorded one. -/
def Settled (e : Env) (s : Disk) (ins : List Input) (c : Command) : Prop :=
  ∀ mp ∈ e.upload (e.feed ins s) c.bucket c.uploadID, ∀ p ∈ mp.parts,
    p.partNumber ∈ c.parts.map (·.partNumber) →
      (e.sent (e.mpPartPath c.uploadID p.partNumber) ins).any (e.Attests p) = true

theorem etagEqual_trans {a b d : String} (h : etagEqual a b = true) (h' : etagEqual b d = true) :
    etagEqual a d = true := by
  simp only [etagEqual, beq_iff_eq] at *
  exact h.trans h'

/-- The part files of resolved parts hold payloads of the listed digests. -/
theorem payloads_of_files {uploaded parts : List Part} {wanted : List CompletedPart}
    (resolved : List.Forall₂ (Site.Resolves uploaded) parts wanted)
    (files : ∀ p ∈ parts, ∃ payload, e.Attests p payload = true ∧
      content s (e.mpPartPath c.uploadID p.partNumber) = some (.raw payload)) :
    ∃ payloads : List Bytes, e.joined s c.uploadID parts = payloads.flatten ∧
      ((payloads.flatten.length : Nat) : Int) = (parts.map (·.size)).sum ∧
      List.Forall₂ (fun payload want => etagEqual (e.md5File (.raw payload)) want.etag = true)
        payloads wanted := by
  induction resolved with
  | nil => exact ⟨[], rfl, rfl, .nil⟩
  | @cons p want parts wanted first _ ih =>
    obtain ⟨payload, described, file⟩ := files p List.mem_cons_self
    obtain ⟨payloads, joined, total, digests⟩ := ih fun q mem => files q (List.mem_cons_of_mem p mem)
    simp only [Attests, Bool.and_eq_true, beq_iff_eq] at described
    refine ⟨payload :: payloads, ?_, ?_, .cons (etagEqual_trans described.1 first.2.2) digests⟩
    · rw [List.flatten_cons, ← joined]
      simp [Env.joined, file, Env.bytes]
    · rw [List.flatten_cons, List.length_append, List.map_cons, List.sum_cons, ← total, described.2]
      exact Nat.cast_add _ _

/-- In a run after which the last payload streamed for each listed part is the recorded one, a
completion that succeeds installs the object the request asked for, unless the removal of the
parts takes that object with them. -/
theorem completion_fulfils (start : e.Starts s) (run : e.Along (fun _ i => i.Tidy) ins s)
    (c : Command) (op : c.op = .completeMultipart) (ok : c.Tidy)
    (settled : e.Settled s ins c)
    (spared : ∀ op, e.objectPath c.bucket c.key = .ok op → ¬ e.Swept c.bucket c.uploadID op)
    (done : e.Succeeds s ins c) :
    e.Fulfils (e.feed ins s) (final (e.applyDisk c) (e.feed ins s)) c := by
  have ground := start.ground.along run
  have plain : Plain c.bucket := ok.bucket (by simp [Command.onDisk, op])
  have upload := ok.upload (.inr (.inr (.inl op)))
  have completes : e.applyDisk c = e.applyCompleteMultipart c := by simp [applyDisk, op]
  have ran := run_of_isOk done
  rw [completes] at ran ⊢
  obtain ⟨mp, parts, found, serves⟩ :=
    complete_serves ground.tidy plain (ok.token (.inr op)) upload spared ran
  obtain ⟨mp', record, rest⟩ := except_bind_ok found
  obtain ⟨parts', order, rest⟩ := except_bind_ok rest
  cases rest
  have resolved := Site.orderedParts_spec order
  have files : ∀ p ∈ parts, ∃ payload, e.Attests p payload = true ∧
      content (e.feed ins s) (e.mpPartPath c.uploadID p.partNumber) = some (.raw payload) := by
    intro p mem
    have listed : p.partNumber ∈ c.parts.map (·.partNumber) := by
      rw [← Site.orderedParts_numbers order]
      exact List.mem_map_of_mem mem
    have attested := settled mp (readMPU_ok.mp record) p (Site.orderedParts_mem order p mem) listed
    obtain ⟨payload, last, attests⟩ := (Option.any_eq_true _ _).mp attested
    refine ⟨payload, attests, ?_⟩
    rw [content_feed start.ground run upload.2, last]
    rfl
  obtain ⟨payloads, joined, total, digests⟩ := payloads_of_files resolved files
  rw [joined, total] at serves
  obtain ⟨ordered, resolves, -⟩ := except_bind_ok order
  exact ⟨(resolveParts_numbered resolves).2, mp, parts, payloads, found, digests, serves⟩

/-! ### A digest that tells payloads apart -/

/-- The small deployment with a digest that spells the payload. -/
def spellEnv : Env :=
  { smallEnv false with md5Hex := fun bytes => String.ofList (bytes.map fun b => Char.ofNat b.toNat) }

/-- The part `number` with the record of the payload. -/
def recordOf (number : Int) (payload : Bytes) : Command :=
  { Small.uploadPart "k" 0 number with
    etag := spellEnv.md5File (.raw payload), size := payload.length }

def completeWith (number : Int) (payload : Bytes) : Command :=
  { Small.complete "k" 0 [] with parts := [⟨number, spellEnv.md5File (.raw payload)⟩] }

/-- One client uploads a part and completes it. -/
def undisturbed : List Input :=
  [.command Small.create, .command (Small.beginUpload "k" 0), Small.part 0 1 [7],
    .command (recordOf 1 [7])]

/-- The payload of a second client arrives between the payload and the record of the first. -/
def overtaken : List Input :=
  [.command Small.create, .command (Small.beginUpload "k" 0), Small.part 0 1 [7],
    Small.part 0 1 [8, 8], .command (recordOf 1 [7])]

theorem starts_spell : spellEnv.Starts (smallDisk false) :=
  starts_of_fresh (by decide +kernel) (by decide +kernel)

theorem undisturbed_fulfils :
    let before := spellEnv.feed undisturbed (smallDisk false)
    spellEnv.Fulfils before (final (spellEnv.applyDisk (completeWith 1 [7])) before)
      (completeWith 1 [7]) := by
  refine completion_fulfils starts_spell (by decide +kernel) (completeWith 1 [7]) rfl
    (by decide +kernel) (by unfold Settled; decide +kernel) ?_ (by unfold Succeeds; decide +kernel)
  intro op place swept
  have upload : Plain (completeWith 1 [7]).uploadID := by decide +kernel
  cases place
  rcases swept with record | pattern
  · revert record
    decide +kernel
  · have below := matches_below upload pattern
    revert below
    decide +kernel

/-- The completion lists the first payload and installs the second. -/
theorem overtaken_not_fulfilled :
    let before := spellEnv.feed overtaken (smallDisk false)
    spellEnv.Succeeds (smallDisk false) overtaken (completeWith 1 [7]) ∧
      ¬ spellEnv.Fulfils before (final (spellEnv.applyDisk (completeWith 1 [7])) before)
        (completeWith 1 [7]) := by
  intro before
  have ran : spellEnv.Succeeds (smallDisk false) overtaken (completeWith 1 [7]) ∧
      ∀ v ∈ (spellEnv.versionsOf (final (spellEnv.applyDisk (completeWith 1 [7])) before)
          (completeWith 1 [7]).bucket (completeWith 1 [7]).key).head?,
        ∀ pp ∈ (spellEnv.physPath (completeWith 1 [7]).bucket v).toOption,
          content (final (spellEnv.applyDisk (completeWith 1 [7])) before) pp =
            some (.raw [8, 8]) := by
    unfold Succeeds
    decide +kernel
  refine ⟨ran.1, ?_⟩
  rintro ⟨-, mp, parts, payloads, -, digests, v, pp, head, -, -, place, holds⟩
  have second := ran.2 v head pp (by rw [place]; rfl)
  rw [holds] at second
  cases digests with
  | cons digest rest =>
    cases rest
    simp only [List.flatten_cons, List.flatten_nil, List.append_nil, Option.some.injEq,
      Content.raw.injEq] at second
    subst second
    revert digest
    decide +kernel

end Env

end D9Store
