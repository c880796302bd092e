import D9Store.Uploads.Ledger

/-!
Which upload an object comes from.

The id of an upload names its record within a bucket, and neither a part nor a completion is
compared with the key in that record: a completion for another key turns the upload into that
key's object. In a run whose commands name the recorded key, an upload becomes its own object
only, made of parts that were uploaded for it.
-/

namespace D9Store

open Posix FilePath

/-! ### Parts of a record -/

theorem mem_recordPart {part p : Part} {parts : List Part} (mem : p ∈ recordPart part parts) :
    p = part ∨ p ∈ parts := by
  unfold recordPart at mem
  rw [List.mem_insertionSort] at mem
  split at mem
  · rw [List.span_eq_takeWhile_dropWhile] at mem
    simp only [List.mem_append, List.mem_cons] at mem
    rcases mem with before | rfl | after
    · exact .inr ((List.takeWhile_prefix _).subset before)
    · exact .inl rfl
    · exact .inr ((List.dropWhile_suffix _).subset (List.mem_of_mem_tail after))
  · rcases List.mem_append.mp mem with old | new
    · exact .inr old
    · exact .inl (List.mem_singleton.mp new)

namespace Env

variable {e : Env} {s : Disk} {ins : List Input} {bucket key id : String} {parts more : List Part}

/-- A command succeeds at some point of a run: after `before`, and before what remains. -/
def Succeeds (e : Env) (s : Disk) (before : List Input) (c : Command) : Prop :=
  (outcome (e.applyDisk c) (e.feed before s)).isOk = true

/-- The parts were recorded for an upload of the key that was created in the run and did not end
since. -/
def Own (e : Env) (s : Disk) (ins : List Input) (bucket key id : String) (parts : List Part) : Prop :=
  ∃ before create after, ins = before ++ .command create :: after ∧
    (create.op = .createMultipart ∧ create.bucket = bucket ∧ create.key = key ∧
      create.uploadID = id ∧ e.Succeeds s before create) ∧
    (∀ pre c post, after = pre ++ .command c :: post → c.Ends bucket id →
      ¬ e.Succeeds s (before ++ .command create :: pre) c) ∧
    ∀ p ∈ parts, ∃ pre c post, after = pre ++ .command c :: post ∧
      c.op = .uploadPart ∧ c.bucket = bucket ∧ c.key = key ∧ c.uploadID = id ∧
      e.Succeeds s (before ++ .command create :: pre) c ∧ p = e.partOf c

/-- A part or a completion names the key of the upload it is for. -/
def NamesKey (e : Env) (s : Disk) : Input → Prop
  | .command c => c.op = .uploadPart ∨ c.op = .completeMultipart →
      (e.upload s c.bucket c.uploadID).all (·.key == c.key) = true
  | _ => True

instance (i : Input) : Decidable (e.NamesKey s i) :=
  match i with
  | .command _ => by unfold NamesKey; infer_instance
  | .blob .. | .part .. => inferInstanceAs (Decidable True)

/-- Another input that does not end the upload leaves it its own, and so do the parts that the
input records. -/
theorem Own.concat {i : Input} (own : e.Own s ins bucket key id parts)
    (open_ : ∀ c, i = .command c → c.Ends bucket id → ¬ e.Succeeds s ins c)
    (new : ∀ p ∈ more, p ∈ parts ∨ ∃ c, i = .command c ∧ c.op = .uploadPart ∧ c.bucket = bucket ∧
      c.key = key ∧ c.uploadID = id ∧ e.Succeeds s ins c ∧ p = e.partOf c) :
    e.Own s (ins ++ [i]) bucket key id more := by
  obtain ⟨before, create, after, rfl, created, lasts, made⟩ := own
  refine ⟨before, create, after ++ [i], by simp, created, ?_, ?_⟩
  · intro pre c post split ends
    rcases List.eq_nil_or_concat post with rfl | ⟨rest, last, rfl⟩
    · obtain ⟨rfl, eq⟩ := List.append_inj' split rfl
      exact open_ c (by simpa using eq) ends
    · rw [List.concat_eq_append, ← List.cons_append, ← List.append_assoc] at split
      exact lasts pre c rest (List.append_inj' split rfl).1 ends
  · intro p mem
    rcases new p mem with old | ⟨c, rfl, rest⟩
    · obtain ⟨pre, c, post, rfl, rest⟩ := made p old
      exact ⟨pre, c, post ++ [i], by simp, rest⟩
    · exact ⟨after, c, [], rfl, rest⟩

/-- The upload of a record is its own. -/
theorem own_of_upload (start : e.Starts s)
    (run : e.Along (fun s i => i.Tidy ∧ e.NamesKey s i) ins s) (plain : Plain bucket)
    (name : '/' ∉ id.toList) {mp : MultipartUpload} (found : e.upload (e.feed ins s) bucket id = some mp) :
    e.Own s ins bucket mp.key id mp.parts := by
  induction ins using List.reverseRecOn generalizing mp with
  | nil =>
    have none := start.none plain name
    rw [show e.feed [] s = s from rfl, none] at found
    cases found
  | append_singleton ins i ih =>
    obtain ⟨ran, tidy, names⟩ := along_concat.mp run
    have ground := start.ground.along (ran.imp fun _ _ h => h.1)
    rw [feed_concat, upload_take ground tidy plain name] at found
    rcases booked_some found with ⟨old, open_⟩ | ⟨c, rfl, rfl, rfl, done, ⟨op, rfl⟩ | ⟨op, mp', old, rfl⟩⟩
    · refine (ih ran old).concat (fun c eq ends => ?_) fun p mem => .inl mem
      rw [Succeeds, open_ c eq ends]
      exact Bool.false_ne_true
    · exact ⟨ins, c, [], rfl, ⟨op, rfl, rfl, rfl, done⟩, by simp, by simp [opened]⟩
    · have sameKey : mp'.key = c.key := by simpa [old] using names (.inl op)
      refine (ih ran old).concat (fun c' eq ends => ?_) fun p mem => ?_
      · cases eq
        simp [Command.Ends, op] at ends
      · rcases mem_recordPart mem with rfl | older
        · exact .inr ⟨c, rfl, op, rfl, sameKey.symm, rfl, done, rfl⟩
        · exact .inl older

/-- In a run whose commands name the keys of their uploads, a completion that succeeds turns an
upload of its own bucket, key and id into the object, from parts recorded for that upload. -/
theorem completion_is_own (start : e.Starts s)
    (run : e.Along (fun s i => i.Tidy ∧ e.NamesKey s i) ins s) (c : Command)
    (op : c.op = .completeMultipart) (step : c.Tidy ∧ e.NamesKey (e.feed ins s) (.command c))
    (done : e.Succeeds s ins c) :
    ∃ mp parts, Site.completed e (e.feed ins s) c = .ok (mp, parts) ∧
      e.Own s ins c.bucket c.key c.uploadID parts := by
  have ground := start.ground.along (run.imp fun _ _ h => h.1)
  have plain : Plain c.bucket := step.1.bucket (by simp [Command.onDisk, op])
  have name := step.1.upload (.inr (.inr (.inl op)))
  have completes : e.applyDisk c = e.applyCompleteMultipart c := by simp [applyDisk, op]
  have ran := run_of_isOk done
  rw [completes] at ran
  obtain ⟨accepted, -⟩ := wp_ok (applyCompleteMultipart_reaches ground.tidy (tame_of_plain plain)
    (step.1.token (.inr op)) name) ran
  cases found : Site.completed e (e.feed ins s) c with
  | error err =>
    rw [found] at accepted
    cases accepted
  | ok up =>
    obtain ⟨mp, parts⟩ := up
    refine ⟨mp, parts, rfl, ?_⟩
    obtain ⟨mp', record, rest⟩ := except_bind_ok found
    obtain ⟨parts', order, rest⟩ := except_bind_ok rest
    cases rest
    have here := readMPU_ok.mp record
    have sameKey : mp.key = c.key := by simpa [here] using step.2 (.inr op)
    obtain ⟨before, create, after, split, created, lasts, made⟩ :=
      own_of_upload start run plain name.2 here
    rw [sameKey] at created made
    refine ⟨before, create, after, split, created, lasts, fun p mem => ?_⟩
    exact made p (Site.orderedParts_mem order p mem)

/-- An upload of the key `k` with one part. -/
def onePart : List Input :=
  [.command Small.create, .command (Small.beginUpload "k" 0), Small.part 0 1 [7],
    .command (Small.uploadPart "k" 0 1)]

theorem completion_of_k_is_own :
    let e := smallEnv false
    let c := Small.complete "k" 0 [1]
    ∃ mp parts, Site.completed e (e.feed onePart (smallDisk false)) c = .ok (mp, parts) ∧
      e.Own (smallDisk false) onePart c.bucket c.key c.uploadID parts :=
  completion_is_own starts_small (by decide +kernel) _ rfl (by decide +kernel)
    (by unfold Succeeds; decide +kernel)

/-- A completion for the key `l` turns the upload of `k` into the object `l`. -/
theorem completion_takes_foreign_upload :
    let e := smallEnv false
    let c := Small.complete "l" 0 [1]
    e.Succeeds (smallDisk false) onePart c ∧
      ¬ ∃ parts, e.Own (smallDisk false) onePart c.bucket c.key c.uploadID parts := by
  intro e c
  refine ⟨by unfold Succeeds; decide +kernel, ?_⟩
  rintro ⟨parts, before, create, after, split, ⟨op, -, key, -⟩, -⟩
  have mem : Input.command create ∈ onePart := by simp [split]
  simp only [onePart, Small.part, List.mem_cons, Input.command.injEq, reduceCtorEq, List.not_mem_nil,
    or_false, false_or] at mem
  rcases mem with rfl | rfl | rfl
  · cases op
  · revert key
    decide
  · cases op

end Env

end D9Store
