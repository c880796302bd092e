import D9Store.Gateway.Commands
import D9Store.Uploads.Completion

/-!
One object, put or uploaded in one part.

The input of a put goes into the command and from there into the version. The input of an upload goes
into the command that begins it, from there into the record of the upload, and from the record into
the version when the upload is completed. The record has no place for most of the input.
-/

namespace D9Store

open Posix FilePath

/-! ### The commands -/

namespace Gateway

variable {g : Gateway} {e : Env} {ctx : Ctx} {c : Command} {s : Disk} {inp : PutObjectInput}
    {res : CallResult}

theorem lookup_entry (k k' v : String) :
    (entry k' v).lookup k = if k = k' ∧ v ≠ "" then some v else none := by
  unfold entry
  by_cases empty : v = ""
  · simp [empty]
  · by_cases same : k = k'
    · simp [empty, same]
    · simp [empty, same, List.lookup_cons, beq_false_of_ne same]

/-- User metadata have names of their own. -/
theorem lookup_userMeta {k : String} (own : ¬ "x-amz-meta-".toList <+: k.toList) (m : StrMap) :
    (m.map fun (name, v) => ("x-amz-meta-" ++ name, v)).lookup k = none := by
  induction m with
  | nil => rfl
  | cons first rest ih =>
    have other : k ≠ "x-amz-meta-" ++ first.1 := fun eq => own (by rw [eq]; simp)
    rw [List.map_cons, List.lookup_cons, beq_false_of_ne other]
    exact ih

/-- The input of a put, as its command has it. -/
theorem contentMeta_find (inp : PutObjectInput) :
    (g.contentMeta inp).find Command.metaContentEncoding = inp.contentEncoding ∧
    (g.contentMeta inp).find Command.metaContentLang = inp.contentLanguage ∧
    (g.contentMeta inp).find Command.metaContentDisp = inp.contentDisposition ∧
    (g.contentMeta inp).find Command.metaCacheControl = inp.cacheControl ∧
    (g.contentMeta inp).find Command.metaExpires = inp.expires ∧
    (g.contentMeta inp).find Command.metaTags =
      (if inp.tags = [] then "" else g.marshalTags inp.tags) ∧
    (g.contentMeta inp).find Command.metaRetentionMode =
      (if inp.retentionMode ≠ "" ∧ inp.retainUntil ≠ 0 then inp.retentionMode else "") ∧
    (g.contentMeta inp).find Command.metaRetainUntil =
      (if inp.retentionMode ≠ "" ∧ inp.retainUntil ≠ 0 then g.formatTime inp.retainUntil else "") ∧
    (g.contentMeta inp).find Command.metaLegalHold = inp.legalHold := by
  have value (v : String) : (if v = "" then none else some v).getD "" = v := by
    by_cases empty : v = "" <;> simp [empty]
  unfold StrMap.find contentMeta
  simp only [List.lookup_append, lookup_entry, Command.metaContentEncoding, Command.metaContentType,
    Command.metaContentLang, Command.metaContentDisp, Command.metaCacheControl, Command.metaExpires,
    Command.metaMTime, Command.metaTags, Command.metaRetentionMode, Command.metaRetainUntil,
    Command.metaLegalHold]
  simp (disch := decide) only [lookup_userMeta]
  by_cases tags : inp.tags = [] <;>
    by_cases lock : inp.retentionMode ≠ "" ∧ inp.retainUntil ≠ 0 <;>
    simp [List.lookup_cons, tags, lock, value]

theorem stamped_contentMeta (inp : PutObjectInput) (c : Command) :
    g.stamped { c with metaMap := g.contentMeta inp } = { c with metaMap := g.contentMeta inp } := by
  unfold stamped
  rw [if_pos]
  simp [contentMeta]

theorem putObject_command {token newID : String} {body : Bytes}
    (asked : g.putObject e ctx s token newID inp body = .ok (c, res)) :
    c = { op := .putObject, bucket := inp.bucket, key := inp.key, versionID := newID,
          blobToken := token, size := body.length, etag := "\"" ++ e.md5Hex body ++ "\"",
          storageCls := inp.storageClass, issuedBy := ctx.account, metaMap := g.contentMeta inp,
          config := (inp.acl.map g.marshalACL).getD "" } := by
  have same := stamped_contentMeta (g := g) inp
    { op := .putObject, bucket := inp.bucket, key := inp.key, versionID := newID,
      blobToken := token, size := body.length, etag := "\"" ++ e.md5Hex body ++ "\"",
      storageCls := inp.storageClass, issuedBy := ctx.account,
      config := (inp.acl.map g.marshalACL).getD "" }
  obtain ⟨enabled, -, rest⟩ := except_bind_ok asked
  split at rest
  · obtain ⟨_, -, rest⟩ := except_bind_ok rest
    cases rest
    exact same
  · cases rest
    exact same

theorem completeMultipartUpload_parts {token newID bucket key uploadID : String}
    {parts : List CompletedPart}
    (asked : g.completeMultipartUpload e ctx s token newID bucket key uploadID parts = .ok (c, res)) :
    c.parts = parts := by
  obtain ⟨enabled, -, rest⟩ := except_bind_ok asked
  cases rest
  unfold stamped
  split <;> rfl

end Gateway

namespace Env

variable {e : Env} {s t : Disk} {c : Command} {bucket : String} {new : Content}

/-! ### The configuration of the bucket -/

theorem writeThrough_get {p q : FilePath} (run : writeThrough p new s = .ok () t)
    (dir : ¬ q <:+ p.tail) (ne : q ≠ p) (neTmp : q ≠ jsonTmp p) : t.get q = s.get q := by
  obtain ⟨_, s₁, made, run₁⟩ := bind_ok.mp run
  obtain ⟨_, s₂, opened, renamed⟩ := bind_ok.mp run₁
  obtain ⟨-, rfl⟩ := mkdirAll_ok (sys_ok.mp made)
  have opened := sys_ok.mp opened
  rw [(rename_ok_of_file (file_writeFile opened) (sys_ok.mp renamed)).2 q, if_neg ne, if_neg neTmp,
    (writeFile_ok opened).2 q, if_neg neTmp]
  simp [dir]

/-- The configuration of a bucket is read from one file and one directory. -/
theorem bucketMetaForWrite_congr
    (config : t.get (e.bucketMetaPath bucket) = s.get (e.bucketMetaPath bucket))
    (dir : t.get (e.bucketDir bucket) = s.get (e.bucketDir bucket)) :
    e.bucketMetaForWrite t bucket = e.bucketMetaForWrite s bucket := by
  have reads : ∀ u v : Disk, u.get (e.bucketMetaPath bucket) = v.get (e.bucketMetaPath bucket) →
      ∀ doc, e.readDoc u (e.bucketMetaPath bucket) = .ok doc →
        e.readDoc v (e.bucketMetaPath bucket) = .ok doc := by
    intro u v same doc found
    obtain ⟨f, file, is⟩ := readDoc_ok found
    exact readDoc_of_document ((DirTree.file_of_get_eq same).symm.trans file) is
  have known : t.isDir (e.bucketDir bucket) = s.isDir (e.bucketDir bucket) := by
    rw [Bool.eq_iff_iff, DirTree.isDir_iff, DirTree.isDir_iff, dir]
  unfold bucketMetaForWrite readBucketMeta
  cases after : e.readDoc t (e.bucketMetaPath bucket) with
  | ok doc => rw [reads t s config doc after]
  | error err =>
    cases before : e.readDoc s (e.bucketMetaPath bucket) with
    | ok doc =>
      rw [reads s t config.symm doc before] at after
      cases after
    | error err' => rw [known]

/-- It stays when something else is written below the state root. -/
theorem bucketMetaForWrite_writeThrough {kind name : String} {dir : FilePath}
    (area : e.area kind <:+ dir) (other : kind ≠ "buckets") (plain : Plain bucket)
    (run : writeThrough (name :: dir) new s = .ok () t) :
    e.bucketMetaForWrite t bucket = e.bucketMetaForWrite s bucket := by
  have data : e.root <:+ e.bucketDir bucket := by
    rw [bucketDir, join_plain plain]
    exact List.suffix_cons _ _
  have config : e.area "buckets" <:+ e.bucketMetaPath bucket :=
    (area_bucketMeta plain.2).trans (List.tail_suffix _)
  have cell (name : String) : e.area kind <:+ name :: dir := area.trans (List.suffix_cons _ _)
  refine bucketMetaForWrite_congr (writeThrough_get run ?_ ?_ ?_) (writeThrough_get run ?_ ?_ ?_)
  · exact fun sub => other (area_unique area (config.trans sub))
  · exact area_ne config (cell _) (Ne.symm other)
  · exact area_ne config (cell _) (Ne.symm other)
  · exact fun sub => data_not_area (data.trans sub) area rfl
  · exact data_not_area data (cell _)
  · exact data_not_area data (cell _)

end Env

/-! ### The input in the versions -/

/-- The version without what tells two writes of one object apart: digest, id and time. -/
def ObjectMeta.unstamped (v : ObjectMeta) : ObjectMeta := { v.undated with etag := "" }

/-- The retention that the input asks for. -/
def PutObjectInput.retention (inp : PutObjectInput) : Option Retention :=
  if inp.retentionMode ≠ "" ∧ inp.retainUntil ≠ 0 then
    some ⟨inp.retentionMode, .time inp.retainUntil⟩
  else none

/-- The tags and the time of the input are read as the gateway wrote them. -/
structure Legible (g : Gateway) (e : Env) (inp : PutObjectInput) : Prop where
  tags : inp.tags ≠ [] → g.marshalTags inp.tags ≠ "" ∧
    e.unmarshalTags (g.marshalTags inp.tags) = some inp.tags
  time : inp.retentionMode ≠ "" → inp.retainUntil ≠ 0 →
    e.parseTime (g.formatTime inp.retainUntil) = some inp.retainUntil

namespace Env

variable {e : Env} {s t s₁ : Disk} {g g' : Gateway} {ctx ctx' : Ctx} {inp : PutObjectInput}
    {body : Bytes} {res : CallResult} {id : String} {number : Int}
  {bm : BucketMeta} {c : Command} {bucket : String}

/-- The ACL of the input as it is stored. -/
def storedACL (e : Env) (g : Gateway) (inp : PutObjectInput) : Option ACL :=
  if (inp.acl.map g.marshalACL).getD "" = "" then none
  else e.unmarshalACL ((inp.acl.map g.marshalACL).getD "")

/-- The record of a put has the whole input. -/
theorem putMeta_input (legible : Legible g e inp) {token newID : String}
    (asked : g.putObject e ctx s token newID inp body = .ok (c, res)) :
    e.putMeta bm c =
      { bucket := inp.bucket, key := inp.key, versionID := writeVersionID bm c, etag := c.etag,
        size := body.length, contentType := (g.contentMeta inp).find Command.metaContentType,
        contentEncoding := inp.contentEncoding, contentLanguage := inp.contentLanguage,
        contentDisposition := inp.contentDisposition, cacheControl := inp.cacheControl,
        expires := inp.expires, userMeta := userMetaFrom (g.contentMeta inp),
        storageClass := inp.storageClass, lastModified := e.mtime c, acl := e.storedACL g inp,
        tags := inp.tags, retention := inp.retention.or (e.defaultRetention bm c),
        legalHold := if inp.legalHold = "" then none else some ⟨inp.legalHold⟩ } := by
  obtain rfl := Gateway.putObject_command asked
  obtain ⟨encoding, language, disposition, cache, expires, tags, mode, time, hold⟩ :=
    Gateway.contentMeta_find (g := g) inp
  have readTags : (if (g.contentMeta inp).find Command.metaTags = "" then none
      else e.unmarshalTags ((g.contentMeta inp).find Command.metaTags)).getD [] = inp.tags := by
    rw [tags]
    by_cases empty : inp.tags = []
    · simp [empty]
    · simp [empty, (legible.tags empty).1, (legible.tags empty).2]
  have readTime : (if (g.contentMeta inp).find Command.metaRetentionMode = "" then none
      else (e.parseTime ((g.contentMeta inp).find Command.metaRetainUntil)).map fun t =>
        (⟨(g.contentMeta inp).find Command.metaRetentionMode, .time t⟩ : Retention)) =
      inp.retention := by
    rw [mode, time, PutObjectInput.retention]
    by_cases lock : inp.retentionMode ≠ "" ∧ inp.retainUntil ≠ 0
    · simp [lock, legible.time lock.1 lock.2]
    · simp [lock]
  simp only [putMeta, applyLockDefaults_or, applyPutExtras, metaFromCommand, readTags, readTime,
    encoding, language, disposition, cache, expires, hold, storedACL, Option.or_none, Option.none_or]

/-- The record of an upload has the rest of the input. -/
theorem completeMeta_input {part : Command} (parts : List Part) (total : Int) :
    e.completeMeta bm (e.recorded part (e.opened (g.createMultipartUpload ctx id inp))) c parts total =
      { bucket := c.bucket, key := c.key, versionID := writeVersionID bm c,
        etag := e.multipartETag parts, size := total,
        contentType := (g.contentMeta inp).find Command.metaContentType,
        userMeta := userMetaFrom (g.contentMeta inp), storageClass := inp.storageClass,
        lastModified := e.mtime c, acl := e.storedACL g inp,
        retention := e.defaultRetention bm c } := by
  have created : g.createMultipartUpload ctx id inp =
      { op := .createMultipart, bucket := inp.bucket, key := inp.key, uploadID := id,
        storageCls := inp.storageClass, issuedBy := ctx.account, metaMap := g.contentMeta inp,
        config := (inp.acl.map g.marshalACL).getD "" } :=
    Gateway.stamped_contentMeta inp
      { op := .createMultipart, bucket := inp.bucket, key := inp.key, uploadID := id,
        storageCls := inp.storageClass, issuedBy := ctx.account,
        config := (inp.acl.map g.marshalACL).getD "" }
  rw [completeMeta_eq, created]
  simp only [recorded, opened, storedACL]

/-! ### The two ways -/

/-- The version that a put stores. -/
theorem put_stored (neat : e.Neat s) (plain : Plain inp.bucket) (legible : Legible g e inp)
    {token newID : String} (safe : safeToken token = true)
    (asked : g.putObject e ctx s token newID inp body = .ok (c, res))
    (staged : e.handleBlobPut token body s = .ok () s₁) (run : e.applyPutObject c s₁ = .ok () t) :
    ∃ v, (e.versionsOf t inp.bucket inp.key).head? = some v ∧
      v.undated = { e.putMeta (e.bucketMetaForWrite s inp.bucket) c with isLatest := true }.undated := by
  have command := Gateway.putObject_command asked
  have own : c.bucket = inp.bucket ∧ c.key = inp.key ∧ c.blobToken = token := by
    rw [command]
    exact ⟨rfl, rfl, rfl⟩
  obtain ⟨bucket, key, blob⟩ := own
  have neat₁ : e.Neat s₁ := by
    have kept := neat.take (i := .blob token body) trivial
    rwa [take, final_of_ok staged] at kept
  have payload := (wp_ok (handleBlobPut_wp token body) staged).2.1 safe
  have config : e.bucketMetaForWrite s₁ inp.bucket = e.bucketMetaForWrite s inp.bucket := by
    rw [handleBlobPut, if_pos safe, streamTo_eq, stagingPath_eq (plain_of_safeToken safe)] at staged
    exact bucketMetaForWrite_writeThrough List.suffix_rfl (by decide) plain staged
  rw [← blob] at payload safe
  obtain ⟨x, xBucket, xKey, left⟩ :=
    put_left neat₁ (by rwa [bucket]) (plain_of_safeToken safe) payload run
  rw [bucket, config, putMeta_input legible asked] at left
  rw [putMeta_input legible asked]
  obtain ⟨v, head, same⟩ := left.head (by rw [xBucket, bucket]) (by rw [xKey, key]) rfl rfl rfl (by
    rw [ObjectMeta.hold]
    by_cases none : inp.legalHold = "" <;> simp [none, Option.filter])
  rw [xBucket, xKey, bucket, key] at head
  exact ⟨v, head, same⟩

/-- The record of a new upload. -/
theorem created_upload (plain : Plain inp.bucket) (named : Plain id)
    (run : e.applyCreateMultipart (g.createMultipartUpload ctx id inp) s = .ok () t) :
    e.upload t inp.bucket id = some (e.opened (g.createMultipartUpload ctx id inp)) := by
  have bucket : (g.createMultipartUpload ctx id inp).bucket = inp.bucket := Gateway.stamped_bucket
  have upload : (g.createMultipartUpload ctx id inp).uploadID = id := Gateway.stamped_uploadID
  have after := createMultipart_upload (e := e) (s := s) (c := g.createMultipartUpload ctx id inp)
    (by rwa [bucket]) (by rwa [upload]) plain named.2
  rwa [final_of_ok run, outcome, run, if_pos (by rfl), bucket, upload, Uploads.set,
    if_pos ⟨rfl, rfl⟩] at after

/-- Records of uploads are apart from the configuration of buckets. -/
theorem bucketMetaForWrite_record (plain : Plain bucket) (named : Plain id) {mp : MultipartUpload}
    (run : e.writeJSON (e.mpuMetaPath bucket id) (.upload mp) s = .ok () t) :
    e.bucketMetaForWrite t bucket = e.bucketMetaForWrite s bucket := by
  rw [writeJSON_eq rfl, mpuMetaPath_eq named.2] at run
  exact bucketMetaForWrite_writeThrough ((tame_of_plain plain).suffix_join _) (by decide) plain run

/-- The state when the only part of an upload is recorded. -/
structure OnePart (e : Env) (bucket id : String) (number : Int) (body : Bytes) (bm : BucketMeta)
    (mp : MultipartUpload) (t : Disk) : Prop where
  neat : e.Neat t
  record : e.upload t bucket id = some mp
  payload : content t (e.mpPartPath id number) = some (.raw body)
  config : e.bucketMetaForWrite t bucket = bm

theorem onePart_of_upload (ground : e.Grounded s) (neat : e.Neat s) (plain : Plain inp.bucket)
    {s₂ : Disk} (safe : safeToken id = true)
    (created : e.applyCreateMultipart (g.createMultipartUpload ctx id inp) s = .ok () s₁)
    (staged : e.handlePartPut id number body s₁ = .ok () s₂)
    (uploaded : e.applyUploadPart (g'.uploadPart e ctx' inp.bucket inp.key id number body) s₂ =
      .ok () t) :
    OnePart e inp.bucket id number body (e.bucketMetaForWrite s inp.bucket)
      (e.recorded (g'.uploadPart e ctx' inp.bucket inp.key id number body)
        (e.opened (g.createMultipartUpload ctx id inp))) t := by
  have named := plain_of_safeToken safe
  obtain ⟨op, bucket, upload⟩ :
      (g'.uploadPart e ctx' inp.bucket inp.key id number body).op = .uploadPart ∧
        (g'.uploadPart e ctx' inp.bucket inp.key id number body).bucket = inp.bucket ∧
        (g'.uploadPart e ctx' inp.bucket inp.key id number body).uploadID = id :=
    Gateway.uploadPart_names inp.bucket inp.key id number body
  have first : (Input.command (g.createMultipartUpload ctx id inp)).Tidy :=
    ⟨fun _ => by simpa [Gateway.createMultipartUpload], by simp [Gateway.createMultipartUpload],
      by simp [Gateway.createMultipartUpload], fun _ => by simpa [Gateway.createMultipartUpload]⟩
  have second : (Input.command (g'.uploadPart e ctx' inp.bucket inp.key id number body)).Tidy :=
    ⟨fun _ => by rwa [bucket], by simp [Gateway.uploadPart], by simp [op], fun _ => by rwa [upload]⟩
  have after₁ : final (e.take (.command (g.createMultipartUpload ctx id inp))) s = s₁ := by
    refine final_of_ok (a := ()) ?_
    rw [take, applyDisk, show (g.createMultipartUpload ctx id inp).op = .createMultipart from
      Gateway.stamped_op]
    exact created
  have after₂ : final (e.take (.part id number body)) s₁ = s₂ := final_of_ok staged
  have after₃ : final (e.take (.command
      (g'.uploadPart e ctx' inp.bucket inp.key id number body))) s₂ = t := by
    refine final_of_ok (a := ()) ?_
    rw [take, applyDisk, op]
    exact uploaded
  have ground₁ := after₁ ▸ ground.take first
  have ground₂ := after₂ ▸ ground₁.take (i := .part id number body) trivial
  have record₁ := created_upload plain named created
  have record₂ : e.upload s₂ inp.bucket id = e.upload s₁ inp.bucket id := by
    rw [← after₂]
    exact upload_take ground₁ (i := .part id number body) trivial plain named.2
  have payload₂ : content s₂ (e.mpPartPath id number) = some (.raw body) := by
    rw [← after₂, content_take ground₁ (i := .part id number body) trivial named.2, streamed,
      if_pos ⟨safe, rfl⟩]
    rfl
  refine ⟨?_, ?_, ?_, ?_⟩
  · have neat₁ := after₁ ▸ neat.take first
    have neat₂ := after₂ ▸ neat₁.take (i := .part id number body) trivial
    exact after₃ ▸ neat₂.take second
  · have after := uploadPart_upload (e := e) (s := s₂)
      (c := g'.uploadPart e ctx' inp.bucket inp.key id number body) (by rwa [bucket])
      (by rwa [upload]) plain named.2
    rwa [final_of_ok uploaded, outcome, uploaded, if_pos (by rfl), bucket, upload, Uploads.set,
      if_pos ⟨rfl, rfl⟩, record₂, record₁] at after
  · rw [← after₃, content_take ground₂ second named.2]
    exact payload₂
  · have config₁ : e.bucketMetaForWrite s₁ inp.bucket = e.bucketMetaForWrite s inp.bucket := by
      rw [applyCreateMultipart, show (g.createMultipartUpload ctx id inp).bucket = inp.bucket from
        Gateway.stamped_bucket, show (g.createMultipartUpload ctx id inp).uploadID = id from
        Gateway.stamped_uploadID] at created
      exact bucketMetaForWrite_record plain named created
    have config₂ : e.bucketMetaForWrite s₂ inp.bucket = e.bucketMetaForWrite s₁ inp.bucket := by
      rw [handlePartPut, if_pos safe, streamTo_eq, mpPartPath_eq named.2] at staged
      exact bucketMetaForWrite_writeThrough List.suffix_rfl (by decide) plain staged
    rw [← config₁, ← config₂]
    obtain ⟨arrived, _, looked, run₁⟩ := bind_ok.mp uploaded
    obtain ⟨-, rfl⟩ := reading_ok.mp looked
    split at run₁
    · obtain ⟨mp, _, read, run₂⟩ := bind_ok.mp run₁
      obtain ⟨-, rfl⟩ := reading_ok.mp read
      rw [bucket, upload] at run₂
      exact bucketMetaForWrite_record plain named run₂
    · cases run₁

/-- The version that an upload in one part stores. -/
theorem upload_stored (ground : e.Grounded s) (neat : e.Neat s) (plain : Plain inp.bucket)
    {token newID etag : String} {s₂ s₃ : Disk} (safe : safeToken id = true) (own : Plain token)
    (created : e.applyCreateMultipart (g.createMultipartUpload ctx id inp) s = .ok () s₁)
    (staged : e.handlePartPut id number body s₁ = .ok () s₂)
    (uploaded : e.applyUploadPart (g'.uploadPart e ctx' inp.bucket inp.key id number body) s₂ =
      .ok () s₃) (asked : g'.completeMultipartUpload e ctx' s₃ token newID inp.bucket inp.key id
      [⟨number, etag⟩] = .ok (c, res))
    (spared : ∀ op, e.objectPath inp.bucket inp.key = .ok op → ¬ e.Swept inp.bucket id op)
    (run : e.applyCompleteMultipart c s₃ = .ok () t) :
    ∃ w, (e.versionsOf t inp.bucket inp.key).head? = some w ∧
      w.undated = { e.completeMeta (e.bucketMetaForWrite s inp.bucket)
        (e.recorded (g'.uploadPart e ctx' inp.bucket inp.key id number body)
          (e.opened (g.createMultipartUpload ctx id inp))) c
        [e.partOf (g'.uploadPart e ctx' inp.bucket inp.key id number body)] body.length with
        isLatest := true }.undated := by
  have named := plain_of_safeToken safe
  have before := onePart_of_upload ground neat plain safe created staged uploaded
  obtain ⟨-, -, -, -, bucket, key, -, blob, upload⟩ := Gateway.completeMultipartUpload_ok asked
  have parts := Gateway.completeMultipartUpload_parts asked
  obtain ⟨mp, ordered, x, u, found, xBucket, xKey, left, cleanup⟩ := complete_left before.neat
    (by rwa [bucket]) (by rwa [blob]) (by rwa [upload]) run
  obtain ⟨_, read, rest⟩ := except_bind_ok found
  obtain ⟨_, resolved, same⟩ := except_bind_ok rest
  cases same
  rw [bucket, upload, readMPU_ok, before.record] at read
  cases read
  -- The completion names one part, and the record has one.
  have only : ordered = [e.partOf (g'.uploadPart e ctx' inp.bucket inp.key id number body)] ∧
      (e.partOf (g'.uploadPart e ctx' inp.bucket inp.key id number body)).partNumber = number := by
    have resolves := Site.orderedParts_spec resolved
    rw [parts] at resolves
    cases resolves with
    | cons head none =>
      cases none
      obtain ⟨mem, same, -⟩ := head
      obtain rfl := List.mem_singleton.mp mem
      exact ⟨rfl, same⟩
  have whole : e.joined s₃ id ordered = body := by
    rw [only.1, joined, List.flatMap_singleton, only.2, before.payload]
    rfl
  rw [bucket, upload, whole, before.config, only.1] at left
  rw [bucket] at cleanup xBucket
  rw [key] at xKey
  have place := x.op_eq
  rw [xBucket, xKey] at place
  rw [← xBucket] at cleanup
  have kept := left.spared (by rwa [upload]) (by rw [xBucket, upload]; exact spared _ place) cleanup
  rw [completeMeta_input] at kept ⊢
  obtain ⟨w, head, same⟩ := kept.head (by rw [xBucket]; exact bucket) (by rw [xKey]; exact key)
    rfl rfl rfl rfl
  rw [xBucket, xKey] at head
  exact ⟨w, head, same⟩

/-- Put and upload store the same metadata exactly where the input has none of the fields that the
record of an upload lacks, and the bucket gives both versions the retention of the put. -/
theorem same_metadata_iff {ins : List Input} (start : e.Starts s) (hand : ByHand s)
    (run : e.Along (fun _ i => i.Tidy) ins s) (plain : Plain inp.bucket) (legible : Legible g e inp)
    -- the put
    {token newID : String} {put : Command} {res : CallResult} {p₁ p : Disk}
    (safe : safeToken token = true)
    (asked : g.putObject e ctx (e.feed ins s) token newID inp body = .ok (put, res))
    (staged : e.handleBlobPut token body (e.feed ins s) = .ok () p₁)
    (stored : e.applyPutObject put p₁ = .ok () p)
    -- the upload
    {id token' newID' etag : String} {number : Int} {complete : Command} {res' : CallResult}
    {u₁ u₂ u₃ u : Disk} (safeID : safeToken id = true) (named : Plain token')
    (created : e.applyCreateMultipart (g.createMultipartUpload ctx id inp) (e.feed ins s) = .ok () u₁)
    (streamed : e.handlePartPut id number body u₁ = .ok () u₂)
    (uploaded : e.applyUploadPart (g'.uploadPart e ctx' inp.bucket inp.key id number body) u₂ =
      .ok () u₃)
    (asked' : g'.completeMultipartUpload e ctx' u₃ token' newID' inp.bucket inp.key id
      [⟨number, etag⟩] = .ok (complete, res'))
    (spared : ∀ op, e.objectPath inp.bucket inp.key = .ok op → ¬ e.Swept inp.bucket id op)
    (completed : e.applyCompleteMultipart complete u₃ = .ok () u) :
    (∃ v w, (e.versionsOf p inp.bucket inp.key).head? = some v ∧
        (e.versionsOf u inp.bucket inp.key).head? = some w ∧ v.unstamped = w.unstamped) ↔
      inp.contentEncoding = "" ∧ inp.contentLanguage = "" ∧ inp.contentDisposition = "" ∧
        inp.cacheControl = "" ∧ inp.expires = "" ∧ inp.tags = [] ∧ inp.legalHold = "" ∧
        inp.retention.or
            (e.defaultRetention (e.bucketMetaForWrite (e.feed ins s) inp.bucket) put) =
          e.defaultRetention (e.bucketMetaForWrite (e.feed ins s) inp.bucket) complete := by
  have ground := start.ground.along run
  have neat : e.Neat (e.feed ins s) := (Neat.mk start.ground.tidy hand.needed).along run
  obtain ⟨v, head, full⟩ := put_stored neat plain legible safe asked staged stored
  obtain ⟨w, head', bare⟩ :=
    upload_stored ground neat plain safeID named created streamed uploaded asked' spared completed
  obtain ⟨-, -, -, -, bucket, key, -⟩ := Gateway.completeMultipartUpload_ok asked'
  rw [putMeta_input legible asked] at full
  rw [completeMeta_input, bucket, key] at bare
  have same : (∃ v w, (e.versionsOf p inp.bucket inp.key).head? = some v ∧
      (e.versionsOf u inp.bucket inp.key).head? = some w ∧ v.unstamped = w.unstamped) ↔
      v.unstamped = w.unstamped := by
    rw [head, head']
    exact ⟨fun ⟨_, _, eq, eq', same⟩ => by cases eq; cases eq'; exact same,
      fun same => ⟨v, w, rfl, rfl, same⟩⟩
  rw [same, ObjectMeta.unstamped, ObjectMeta.unstamped, full, bare]
  have hold : (if inp.legalHold = "" then none else some (⟨inp.legalHold⟩ : LegalHold)) = none ↔
      inp.legalHold = "" := by
    by_cases empty : inp.legalHold = "" <;> simp [empty]
  simp only [ObjectMeta.undated, ObjectMeta.mk.injEq, true_and, hold]
  rw [and_comm (b := inp.legalHold = "")]

/-- A small deployment with a bucket. -/
def bucketOnly : Disk := (smallEnv false).feed [.command Small.create] (smallDisk false)

/-- The deployment after the put of one byte. -/
def putOne (inp : PutObjectInput) : Except Err Disk := do
  let (put, _) ←
    smallGateway.putObject (smallEnv false) ⟨"alice", ""⟩ bucketOnly (uuid 0) (uuid 1) inp [7]
  .ok (final ((smallEnv false).applyPutObject put)
    (final ((smallEnv false).handleBlobPut (uuid 0) [7]) bucketOnly))

/-- The deployment with the byte as the first part of an upload. -/
def partOne (inp : PutObjectInput) : Disk :=
  let e := smallEnv false
  let g := smallGateway
  let ctx : Ctx := ⟨"alice", ""⟩
  final (e.applyUploadPart (g.uploadPart e ctx inp.bucket inp.key (uuid 2) 1 [7]))
    (final (e.handlePartPut (uuid 2) 1 [7])
      (final (e.applyCreateMultipart (g.createMultipartUpload ctx (uuid 2) inp)) bucketOnly))

/-- The deployment after the upload. -/
def uploadOne (inp : PutObjectInput) : Except Err Disk := do
  let e := smallEnv false
  let (complete, _) ← smallGateway.completeMultipartUpload e ⟨"alice", ""⟩ (partOne inp) (uuid 3)
    (uuid 4) inp.bucket inp.key (uuid 2) [⟨1, "\"" ++ e.md5Hex [7] ++ "\""⟩]
  .ok (final (e.applyCompleteMultipart complete) (partOne inp))

/-- A content type and user metadata are stored both ways. -/
theorem plain_input_same_metadata :
    let e := smallEnv false
    let inp : PutObjectInput :=
      { bucket := "b", key := "k", contentType := "text/plain", userMeta := [("n", "v")] }
    ∃ p u, putOne inp = .ok p ∧ uploadOne inp = .ok u ∧
      ∃ v w, (e.versionsOf p "b" "k").head? = some v ∧ (e.versionsOf u "b" "k").head? = some w ∧
        v.unstamped = w.unstamped := by
  intro e inp
  let g := smallGateway
  let ctx : Ctx := ⟨"alice", ""⟩
  let part := g.uploadPart e ctx "b" "k" (uuid 2) 1 [7]
  let begin := g.createMultipartUpload ctx (uuid 2) inp
  let u₁ := final (e.applyCreateMultipart begin) bucketOnly
  let u₂ := final (e.handlePartPut (uuid 2) 1 [7]) u₁
  have hand : ByHand (smallDisk false) := everywhere_of_dom (by decide +kernel)
  have tidy : e.Along (fun _ i => i.Tidy) [.command Small.create] (smallDisk false) := by
    decide +kernel
  have legible : Legible g e inp := ⟨fun some => absurd rfl some, fun some => absurd rfl some⟩
  have mode : Gateway.bucketVersioning e bucketOnly "b" = .ok false := by decide +kernel
  have mode' : Gateway.bucketVersioning e (partOne inp) "b" = .ok false := by decide +kernel
  obtain ⟨put, res, asked, own⟩ : ∃ put res,
      g.putObject e ctx bucketOnly (uuid 0) (uuid 1) inp [7] = .ok (put, res) ∧
        (outcome (e.applyPutObject put)
          (final (e.handleBlobPut (uuid 0) [7]) bucketOnly)).isOk = true := by
    rw [Gateway.putObject, mode]
    exact ⟨_, _, rfl, by decide +kernel⟩
  obtain ⟨complete, res', asked', own'⟩ : ∃ complete res',
      g.completeMultipartUpload e ctx (partOne inp) (uuid 3) (uuid 4) "b" "k" (uuid 2)
        [⟨1, "\"" ++ e.md5Hex [7] ++ "\""⟩] = .ok (complete, res') ∧
        (outcome (e.applyCompleteMultipart complete) (partOne inp)).isOk = true := by
    rw [Gateway.completeMultipartUpload, mode']
    exact ⟨_, _, rfl, by decide +kernel⟩
  have staged : (outcome (e.handleBlobPut (uuid 0) [7]) bucketOnly).isOk = true := by decide +kernel
  have created : (outcome (e.applyCreateMultipart begin) bucketOnly).isOk = true := by decide +kernel
  have streamed : (outcome (e.handlePartPut (uuid 2) 1 [7]) u₁).isOk = true := by decide +kernel
  have uploaded : (outcome (e.applyUploadPart part) u₂).isOk = true := by decide +kernel
  have place : e.objectPath "b" "k" = .ok ["k", "b", "data"] := by decide +kernel
  have spared : ¬ e.Swept "b" (uuid 2) ["k", "b", "data"] := by
    rintro (record | pattern)
    · revert record
      decide +kernel
    · exact absurd (matches_below (by decide +kernel) pattern)
        (by decide : ¬ e.root.join "mpstaging" <:+ ["k", "b", "data"])
  have unlocked : (e.bucketMetaForWrite bucketOnly "b").objectLock = none := by decide +kernel
  have noRule (c : Command) : e.defaultRetention (e.bucketMetaForWrite bucketOnly "b") c = none := by
    rw [defaultRetention, applyLockDefaults, unlocked]
  have unasked : inp.retention = none := rfl
  refine ⟨_, _, ?_, ?_, (same_metadata_iff starts_small hand tidy (by decide) legible
    (by decide +kernel) asked (run_of_isOk staged) (run_of_isOk own) (by decide +kernel) (by decide +kernel)
    (run_of_isOk created) (run_of_isOk streamed) (run_of_isOk uploaded) asked'
    (fun op eq => by rw [place] at eq; cases eq; exact spared) (run_of_isOk own')).mpr
    ⟨rfl, rfl, rfl, rfl, rfl, rfl, rfl, ?_⟩⟩
  · rw [putOne, asked]
    rfl
  · rw [uploadOne, asked']
    rfl
  · rw [unasked, Option.none_or]
    exact (noRule put).trans (noRule complete).symm

/-- The content encoding and the legal hold of an upload are lost. -/
theorem upload_loses_encoding_and_hold :
    let e := smallEnv false
    let inp : PutObjectInput :=
      { bucket := "b", key := "k", contentEncoding := "gzip", legalHold := "ON" }
    let found (d : Except Err Disk) :=
      d.toOption.bind fun t => (e.versionsOf t "b" "k").head?.map fun v =>
        (v.size, v.contentEncoding, v.legalHold.map LegalHold.status)
    found (putOne inp) = some (1, "gzip", some "ON") ∧ found (uploadOne inp) = some (1, "", none) := by
  decide +kernel

end Env

end D9Store
