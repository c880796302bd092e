import D9Store.Keyspace.Aside

/-!
All keys of a deployment at once.

`Keyspace keys s` says that the histories of the keys stand and that no two of them share a
version blob. Keys whose names do not interfere (`Apart`) keep it under every command that
finds what it needs (`Fair`), and each history goes through the act of its own commands.
-/

namespace D9Store

open Posix FilePath Versioned

variable {e : Env} {keys : List (Site e)} {s t : Disk} {c : Command}

namespace Site

variable {x y : Site e}

/-! ### Names -/

theorem addresses_unique (hx : x.Addresses c) (hy : y.Addresses c) : x = y :=
  eq_of_names ⟨hx.1.symm.trans hy.1, hx.2.symm.trans hy.2⟩

theorem tmp_not_dirs : Env.tmpOf x.op ∉ x.dirs := by
  rintro (h | h | h | h)
  · exact not_suffix_tail x.op_ne_nil (length_le_suffixed _ _) h
  · exact Env.data_not_area (x.root_tmp.trans (h.trans (List.tail_suffix _))) x.area_hp rfl
  · exact Env.data_not_area (x.root_tmp.trans h) (Env.area_versionsDir x.tame) rfl
  · exact Env.data_not_area (x.root_tmp.trans h) List.suffix_rfl rfl

end Site

/-- Keys whose names keep them out of each other's way. -/
structure Apart (keys : List (Site e)) : Prop where
  proper : ∀ x ∈ keys, x.Proper
  spares : ∀ x ∈ keys, ∀ y ∈ keys, x ≠ y → Site.Spares x y

instance : Decidable (Apart keys) :=
  decidable_of_iff ((∀ x ∈ keys, x.Proper) ∧ ∀ x ∈ keys, ∀ y ∈ keys, x ≠ y → Site.Spares x y)
    ⟨fun h => ⟨h.1, h.2⟩, fun h => ⟨h.1, h.2⟩⟩

/-! ### The invariant -/

structure Keyspace (keys : List (Site e)) (s : Disk) : Prop where
  standing : ∀ x ∈ keys, x.Standing s
  disjoint : ∀ x ∈ keys, ∀ y ∈ keys, x ≠ y → ∀ id ∈ (x.entries s).blobs,
    ∀ id' ∈ (y.entries s).blobs, x.blob id ≠ y.blob id'
  staging : ∀ token, Plain token → s.get (e.stagingPath token) ≠ some .dir

/-- Steps that leave every history as it is. -/
theorem Keyspace.rests (inv : Keyspace keys s)
    (same : ∀ x ∈ keys, x.Standing t ∧ x.entries t = x.entries s)
    (staging : ∀ token, Plain token → t.get (e.stagingPath token) ≠ some .dir) : Keyspace keys t where
  standing x mem := (same x mem).1
  disjoint x hx y hy ne := by
    rw [(same x hx).2, (same y hy).2]
    exact inv.disjoint x hx y hy ne
  staging := staging

theorem Keyspace.aside (apart : Apart keys) (inv : Keyspace keys s) {bucket : String}
    (plain : Plain bucket) (frame : Framed e.asideFiles (e.asideDirs bucket) s t) :
    Keyspace keys t ∧ ∀ x ∈ keys, x.entries t = x.entries s := by
  have same : ∀ x ∈ keys, x.Standing t ∧ x.entries t = x.entries s := fun x mem =>
    (inv.standing x mem).aside (apart.proper x mem) plain frame
  exact ⟨inv.rests same fun token named dir => inv.staging token named
    (frame.dir _ (Site.aside_staging plain named) dir), fun x mem => (same x mem).2⟩

/-! ### One key acts -/

namespace Site

variable {x y : Site e} {act : Act Content} {O : Set FilePath} {id id' : String}

/-- What an act must not do to the history it finds. -/
structure Sane (x : Site e) (act : Act Content) (s : Disk) : Prop where
  fresh : ∀ id, act.files (x.entries s) = some id → s.file (x.blob id) = none ∧ '/' ∉ id.toList
  safe : act.spoils (x.entries s) = false

/-- Version blobs of the entries exist. -/
theorem file_of_blob (standing : x.Standing s) (mem : id ∈ (x.entries s).blobs) :
    (s.file (x.blob id)).isSome = true ∧ '/' ∉ id.toList := by
  obtain ⟨v, memv, rfl, filed⟩ := mem_blobs_entries.mp mem
  have shape := standing.sound.shape
  have live : v.deleteMarker = false := by
    by_contra marker
    exact filed (shape.marker v memv (by simpa using marker))
  have body := backed_iff.mp standing.backed v memv live
  rw [bodyAt, live, if_neg Bool.false_ne_true, if_neg filed, content, Option.isSome_map] at body
  exact ⟨body, shape.plainBlob v memv⟩

theorem Acts.blobs_nodup (standing : x.Standing s) (sane : x.Sane act s) :
    (act.run (x.entries s)).blobs.Nodup := by
  refine List.Nodup.sublist (History.blobs_run act (x.entries s)) ?_
  cases files : act.files (x.entries s) with
  | none => simpa using standing.nodup
  | some id =>
    rw [Option.toList_some, List.singleton_append, List.nodup_cons]
    refine ⟨fun mem => ?_, standing.nodup⟩
    have file := (file_of_blob standing mem).1
    rw [(sane.fresh id files).1] at file
    cases file

/-- The key that acts stands afterwards. -/
theorem Acts.standing (standing : x.Standing s) (sane : x.Sane act s) (h : x.Acts act O s t)
    (out : ∀ q ∈ O, x.Safe q) : x.Standing t where
  ready := standing.ready.keep h.frame
    (fun q mem => mem.elim cells_not_above fun mem => ⟨(out q mem).2.2.1, (out q mem).2.2.2⟩)
    fun q mem => dirs_not_place mem
  sound := h.sound
  backed := by
    rw [h.entries]
    exact History.backed_run standing.backed sane.safe
  nodup := by
    rw [h.entries]
    exact Acts.blobs_nodup standing sane
  tmp dir := standing.tmp (h.frame.dir _ tmp_not_dirs dir)

/-- What an act reaches is no blob of another key. -/
theorem reach_apart (inv : Keyspace keys s) (hx : x ∈ keys) (hy : y ∈ keys) (ne : x ≠ y)
    (sane : x.Sane act s) (mem : id ∈ reach act (x.entries s)) (mem' : id' ∈ (y.entries s).blobs) :
    x.blob id ≠ y.blob id' := by
  rcases mem with old | filed
  · exact inv.disjoint x hx y hy ne id old id' mem'
  · intro eq
    have file := (file_of_blob (inv.standing y hy) mem').1
    rw [← eq, (sane.fresh id filed).1] at file
    cases file

/-- The other keys are left alone. -/
theorem Acts.rests (apart : Apart keys) (inv : Keyspace keys s) (hx : x ∈ keys) (hy : y ∈ keys)
    (ne : x ≠ y) (sane : x.Sane act s) (h : x.Acts act O s t) (out : O ⊆ e.asideFiles) :
    y.Rests s t := by
  have spares := apart.spares x hx y hy ne
  have proper := apart.proper y hy
  have standing := inv.standing y hy
  refine Site.rests standing.ready standing.tmp h.frame ?_ (fun q mem => spares.dirs_vacant mem) ?_
  · rintro q (mem | mem)
    · exact spares.cells_safe mem
    · exact aside_safe proper (out mem)
  · rintro v mem filed (found | found)
    · have plain := standing.sound.shape.plainBlob v mem
      refine blob_out_of_reach plain (fun id reached => ?_) found
      exact reach_apart inv hx hy ne sane reached (mem_blobs_entries.mpr ⟨v, mem, rfl, filed⟩)
    · exact aside_blob (standing.sound.shape.plainBlob v mem) (out found)

/-- A failed write leaves every key alone, its own included. -/
theorem Failed.rests (apart : Apart keys) (inv : Keyspace keys s) (hx : x ∈ keys) (hy : y ∈ keys)
    (h : x.Failed s t) : y.Rests s t := by
  have standing := inv.standing y hy
  refine Site.rests standing.ready standing.tmp h.frame ?_ ?_ ?_
  · rintro q (rfl | staging)
    · refine safe_data x.root_tmp ?_
      by_cases eq : x = y
      · rw [eq]
        exact suffixed_ne (by decide)
      · exact (apart.spares x hx y hy eq).opTmp
    · exact safe_area staging (by decide) (by decide)
  · intro q mem
    by_cases eq : x = y
    · rw [eq] at mem
      exact ⟨dirs_not_place mem, fun h => tmp_not_dirs (h ▸ mem)⟩
    · exact (apart.spares x hx y hy eq).dirs_vacant mem
  · rintro v mem - (eq | staging)
    · exact Env.data_not_area x.root_tmp (y.area_blob (standing.sound.shape.plainBlob v mem)) eq.symm
    · exact Env.area_ne (y.area_blob (standing.sound.shape.plainBlob v mem)) staging (by decide) rfl

end Site

/-- One key acts, the others rest. -/
theorem Keyspace.acts (apart : Apart keys) (inv : Keyspace keys s) {x : Site e} (hx : x ∈ keys)
    {act : Act Content} {O : Set FilePath} (sane : x.Sane act s) (h : x.Acts act O s t)
    (out : O ⊆ e.asideFiles) :
    Keyspace keys t ∧ x.entries t = act.run (x.entries s) ∧
      ∀ y ∈ keys, y ≠ x → y.entries t = y.entries s := by
  have rest : ∀ y ∈ keys, y ≠ x → y.Standing t ∧ y.entries t = y.entries s := fun y hy ne =>
    (h.rests apart inv hx hy (Ne.symm ne) sane out).standing (inv.standing y hy)
  have grown : ∀ id ∈ (x.entries t).blobs, id ∈ Site.reach act (x.entries s) := fun id mem => by
    rw [h.entries] at mem
    rcases List.mem_append.mp ((History.blobs_run act (x.entries s)).subset mem) with new | old
    · exact .inr (Option.mem_toList.mp new)
    · exact .inl old
  refine ⟨⟨fun y hy => ?_, fun y hy z hz ne => ?_, fun token plain dir => ?_⟩, h.entries,
    fun y hy ne => (rest y hy ne).2⟩
  · by_cases eq : y = x
    · subst eq
      exact h.standing (inv.standing y hy) sane fun q mem =>
        Site.aside_safe (apart.proper y hy) (out mem)
    · exact (rest y hy eq).1
  · intro id mem id' mem'
    by_cases eqy : y = x
    · subst eqy
      rw [(rest z hz (Ne.symm ne)).2] at mem'
      exact Site.reach_apart inv hy hz ne sane (grown id mem) mem'
    · rw [(rest y hy eqy).2] at mem
      by_cases eqz : z = x
      · subst eqz
        exact (Site.reach_apart inv hz hy (Ne.symm ne) sane (grown id' mem') mem).symm
      · rw [(rest z hz eqz).2] at mem'
        exact inv.disjoint y hy z hz ne id mem id' mem'
  · exact inv.staging token plain (h.frame.dir _ (stagingPath_not_mem_dirs plain) dir)

end D9Store
