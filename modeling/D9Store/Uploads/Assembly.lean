import D9Store.Keyspace.Served
import D9Store.Uploads.Ledger

/-!
What a completion assembles.

The bytes of a completed object are what stands in the part files when the completion is applied,
whoever wrote them last, and its size is their number. The files of parts change through fan-outs
alone, so that each holds the last payload streamed to it.
-/

namespace D9Store

open Posix FilePath

namespace Env

variable {e : Env} {s t : Disk} {c : Command} {bucket key id id' kind : String}

/-! ### The files of parts -/

theorem no_letter_pad5 (n : Int) : 'p' ∉ (pad5 n).toList := by
  have digits : ∀ m, 'p' ∉ Nat.toDigits 10 m := by
    intro m mem
    have digit := Nat.isDigit_of_mem_toDigits (by decide) (by decide) mem
    revert digit
    decide
  cases n with
  | ofNat m => simp [pad5, List.leftpad, digits m]
  | negSucc m => simp [pad5, List.leftpad, digits (m + 1)]

/-- The file of a part is no temporary file: its name ends in a digit. -/
theorem mpPartPath_ne_tmp (plain : '/' ∉ id.toList) (plain' : '/' ∉ id'.toList)
    (number number' : Int) : e.mpPartPath id number ≠ jsonTmp (e.mpPartPath id' number') := by
  rw [mpPartPath_eq plain, mpPartPath_eq plain']
  intro eq
  have last := congrArg (fun text : String => text.toList.getLast?) (List.cons.inj eq).1
  have digits : (pad5 number).toList ≠ [] := by
    cases number with
    | ofNat m => simp [pad5, List.leftpad]
    | negSucc m => simp [pad5]
  simp only [String.toList_append, List.getLast?_append_of_ne_nil _ digits] at last
  refine no_letter_pad5 number (List.mem_of_getLast? (last.trans ?_))
  rw [List.getLast?_append_of_ne_nil _ (by decide)]
  decide

/-- What an input streams to the file. -/
def streamed (e : Env) (p : FilePath) : Input → Option Bytes
  | .part id number payload =>
    if safeToken id = true ∧ e.mpPartPath id number = p then some payload else none
  | _ => none

/-- The last payload streamed to the file. -/
def sent (e : Env) (p : FilePath) (ins : List Input) : Option Bytes :=
  ins.reverse.findSome? (e.streamed p)

theorem sent_concat (p : FilePath) (ins : List Input) (i : Input) :
    e.sent p (ins ++ [i]) = (e.streamed p i).or (e.sent p ins) := by
  rw [sent, List.reverse_append, List.reverse_singleton, List.singleton_append,
    List.findSome?_cons]
  cases e.streamed p i <;> rfl

/-- An input changes the file of a part only when it streams to it. -/
theorem content_take (ground : e.Grounded s) {i : Input} (ok : i.Tidy) (plain : '/' ∉ id.toList)
    (number : Int) :
    content (final (e.take i) s) (e.mpPartPath id number) =
      ((e.streamed (e.mpPartPath id number) i).map Content.raw).or
        (content s (e.mpPartPath id number)) := by
  have area : e.area "mpstaging" <:+ e.mpPartPath id number := by
    rw [mpPartPath_eq plain]
    exact List.suffix_cons _ _
  have frame := (take_framed ground.tidy ok).1
  have kept : e.mpPartPath id number ∉ e.touched i →
      content (final (e.take i) s) (e.mpPartPath id number) = content s (e.mpPartPath id number) :=
    fun out => by rw [content, content, frame.file _ out]
  cases i with
  | blob token payload =>
    exact kept fun mem => absurd (area_unique area mem) (by decide)
  | command c =>
    refine kept fun mem => ?_
    rcases touched_kind ok mem with object | config | ⟨record, -⟩
    · exact absurd (objectFiles_area object area) (by decide)
    · exact absurd (area_unique area config.1) (by decide)
    · exact absurd (area_unique area record) (by decide)
  | part id' number' payload =>
    by_cases safe : safeToken id' = true
    · have plain' := (plain_of_safeToken safe).2
      by_cases here : e.mpPartPath id' number' = e.mpPartPath id number
      · have tail : (e.mpPartPath id number).tail = e.area "mpstaging" := by
          rw [mpPartPath_eq plain, List.tail_cons]
        obtain ⟨t, run⟩ := writeThrough_runs (s := s) (p := e.mpPartPath id number) (.raw payload)
          (by rw [mpPartPath_eq plain]; exact List.cons_ne_nil _ _)
          (fun q sub => ground.clear "mpstaging" (by decide) q (tail ▸ sub))
          (ground.free "mpstaging" (by decide) _ (by rw [mpPartPath_eq plain]; exact below_cons _ _))
          (ground.free "mpstaging" (by decide) _ (by rw [mpPartPath_eq plain]; exact below_cons _ _))
        have taken : e.take (.part id' number' payload) s = .ok () t := by
          rw [take, handlePartPut, if_pos safe, streamTo_eq, here, run]
        rw [final_of_ok taken, (wp_ok (writeThrough_wp (.raw payload)) run).2.1]
        simp [streamed, safe, here]
      · rw [kept]
        · simp [streamed, here]
        · rintro ⟨-, same | tmp⟩
          · exact here same.symm
          · exact mpPartPath_ne_tmp plain plain' _ _ tmp
    · have idle : final (e.take (.part id' number' payload)) s = s := by
        rw [take, handlePartPut, if_neg safe]
        rfl
      rw [idle]
      simp [streamed, safe]

/-- The file of a part holds the last payload streamed to it. -/
theorem content_feed (ground : e.Grounded s) {ins : List Input}
    (run : e.Along (fun _ i => i.Tidy) ins s) (plain : '/' ∉ id.toList) (number : Int) :
    content (e.feed ins s) (e.mpPartPath id number) =
      ((e.sent (e.mpPartPath id number) ins).map Content.raw).or
        (content s (e.mpPartPath id number)) := by
  induction ins using List.reverseRecOn with
  | nil => rfl
  | append_singleton ins i ih =>
    obtain ⟨ran, tidy⟩ := along_concat.mp run
    rw [feed_concat, content_take (ground.along ran) tidy plain, ih ran, sent_concat]
    cases e.streamed (e.mpPartPath id number) i <;> rfl

/-! ### The object of a completion -/

theorem completeMeta_size (bm : BucketMeta) (mp : MultipartUpload) (c : Command) (parts : List Part)
    (total : Int) : (e.completeMeta bm mp c parts total).size = total := by
  obtain ⟨retention, eq⟩ := applyLockDefaults_eq (e := e) bm _ c
  rw [completeMeta, eq]

/-- What the cleanup removes is in the data root, but for the record. -/
theorem not_swept (plain : Plain id) {p : FilePath} (area : e.area kind <:+ p)
    (other : kind ≠ "mpu") (tame : Tame bucket) : ¬ e.Swept bucket id p := by
  rintro (rfl | pattern)
  · exact other (area_unique area (recordCells_area tame plain.2 (.inl rfl)))
  · have below := matches_below plain pattern
    rw [join_plain (show Plain "mpstaging" by decide)] at below
    exact data_not_area ((List.suffix_cons _ _).trans below) area rfl

/-- The object of a completion that is not swept away with the parts: the bytes of the part files,
and their number. -/
theorem complete_serves (tidy : e.Tidy s) (plain : Plain c.bucket) (token : Plain c.blobToken)
    (upload : Plain c.uploadID)
    (spared : ∀ op, e.objectPath c.bucket c.key = .ok op → ¬ e.Swept c.bucket c.uploadID op)
    (run : e.applyCompleteMultipart c s = .ok () t) :
    ∃ mp parts, Site.completed e s c = .ok (mp, parts) ∧
      e.Serves t c.bucket c.key (e.joined s c.uploadID parts)
        (e.joined s c.uploadID parts).length := by
  have tame := tame_of_plain plain
  obtain ⟨mp, parts, total, s₁, s₂, s₃, u, found, assembled, displace, install, record, cleanup⟩ :=
    applyCompleteMultipart_ok tame token run
  refine ⟨mp, parts, found, ?_⟩
  obtain ⟨payload, rfl, -⟩ := assembled.payload upload.2
  generalize e.joined s c.uploadID parts = bytes at *
  obtain ⟨nv, eq, live, named, blob, length⟩ : ∃ nv, e.completeMeta
      (e.bucketMetaForWrite s c.bucket) mp c parts bytes.length = nv ∧ nv.deleteMarker = false ∧
      nv.key = c.key ∧ nv.blobID = "" ∧ nv.size = bytes.length :=
    ⟨_, rfl, completeMeta_deleteMarker .., completeMeta_key .., completeMeta_blobID ..,
      completeMeta_size ..⟩
  rw [eq] at record
  obtain ⟨op, place⟩ := objectPath_of_putCurrentBytes install
  obtain ⟨x, xBucket, xKey⟩ := site_of_write tame place record
  rw [← xBucket, ← xKey] at install spared ⊢
  rw [← xBucket] at cleanup
  have names := tidy.load tame c.key
  have moved := installed_content x names.bucket names.head (area_staging token) payload displace
    install
  have own : e.historyPath (e.madeWay s c.bucket c.key).bucket (e.madeWay s c.bucket c.key).key =
      .ok x.hp := by
    rw [madeWay, ← xBucket, ← xKey]
    exact tidy.filed.load x.tame x.hp_eq
  generalize e.madeWay s c.bucket c.key = km at record own
  change e.historyPath (km.prependLatest nv).bucket (km.prependLatest nv).key = .ok x.hp at own
  have current : content u x.op = some (.raw bytes) := by
    rw [writeKeyMeta_content x own record, moved]
  obtain ⟨shrinks, effect⟩ := cleanupUpload_effect cleanup
  obtain ⟨f, file, raw⟩ := Option.map_eq_some_iff.mp current
  have still := (effect x.op f file).2 (spared x.op x.op_eq)
  have read := writeKeyMeta_reads own record
  split at read
  · exact serves_of_file x (readDoc_absent_shrinks shrinks read) still raw
  · obtain ⟨g, doc, holds⟩ := readDoc_ok read
    have again := (effect x.hp g doc).2 (not_swept upload x.area_hp (by decide) x.tame)
    rw [← length]
    refine serves_of_doc x (v := { nv with isLatest := true }) (readDoc_of_document again holds) rfl live
      (named.trans xKey.symm) blob ?_
    rw [content, still, Option.map_some, raw]

end Env

end D9Store
