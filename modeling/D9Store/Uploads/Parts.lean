import D9Store.Key.Complete

/-!
The parts of an upload.

The record of an upload keeps its parts as a list that increases in the part number, so that the
list is a finite map: a part that arrives again replaces the one of its number. A completion looks
the requested numbers up in it.
-/

namespace D9Store

open Posix

/-! ### Recording a part -/

/-- The parts increase in number. -/
def Numbered (parts : List Part) : Prop := parts.Pairwise fun p q => p.partNumber < q.partNumber

section Parts

variable {part p q : Part} {parts ordered : List Part} {number prev : Int}
    {wanted : List CompletedPart} {mp : MultipartUpload} {c : Command}

theorem Numbered.numbers (h : Numbered parts) : (parts.map (·.partNumber)).Nodup :=
  List.pairwise_map.mpr (h.imp fun lt => ne_of_lt lt)

/-- Where the part of a number stands. -/
theorem split_at_number (h : (parts.any fun p => p.partNumber == number) = true) :
    ∃ before old after, parts = before ++ old :: after ∧ old.partNumber = number ∧
      (parts.span fun p => p.partNumber != number) = (before, old :: after) := by
  rw [List.span_eq_takeWhile_dropWhile]
  obtain ⟨p, mem, same⟩ := List.any_eq_true.mp h
  have found : parts.dropWhile (fun p => p.partNumber != number) ≠ [] := fun none => by
    have all := List.dropWhile_eq_nil_iff.mp none p mem
    simp_all
  obtain ⟨old, after, eq⟩ := List.exists_cons_of_ne_nil found
  refine ⟨_, old, after, ?_, ?_, by rw [eq]⟩
  · rw [← eq, List.takeWhile_append_dropWhile]
  · have first := List.head_dropWhile_not (fun p : Part => p.partNumber != number) found
    simpa [eq] using first

/-- The recorded parts: the new one, and the old ones of other numbers. -/
theorem recordPart_perm (part : Part) (asc : Numbered parts) :
    ∃ before after, (recordPart part parts).Perm (before ++ part :: after) ∧
      ((before ++ part :: after).map (·.partNumber)).Nodup ∧
      ∀ p, p ∈ before ++ after ↔ p ∈ parts ∧ p.partNumber ≠ part.partNumber := by
  unfold recordPart
  split
  · rename_i known
    obtain ⟨before, old, after, rfl, same, span⟩ := split_at_number known
    have nodup := asc.numbers
    have apart : ∀ p ∈ before ++ after, p.partNumber ≠ old.partNumber := by
      intro p mem eq
      rw [List.map_append, List.map_cons, List.nodup_middle, List.nodup_cons, ← List.map_append]
        at nodup
      exact nodup.1 (eq ▸ List.mem_map_of_mem mem)
    rw [span]
    refine ⟨before, after, List.perm_insertionSort _ _, ?_, fun p => ?_⟩
    · simpa [same] using nodup
    · rw [← same]
      constructor
      · intro mem
        exact ⟨by simp only [List.mem_append, List.mem_cons] at mem ⊢; tauto, apart p mem⟩
      · rintro ⟨mem, ne⟩
        simp only [List.mem_append, List.mem_cons] at mem ⊢
        rcases mem with mem | rfl | mem
        · exact .inl mem
        · exact absurd rfl ne
        · exact .inr mem
  · rename_i fresh
    have ne : ∀ p ∈ parts, p.partNumber ≠ part.partNumber := by simpa using fresh
    refine ⟨parts, [], List.perm_insertionSort _ _, ?_, fun p => ?_⟩
    · rw [List.map_append, List.nodup_append]
      refine ⟨asc.numbers, by simp, fun a old b new => ?_⟩
      obtain ⟨p, mem, rfl⟩ := List.mem_map.mp old
      obtain rfl : b = part.partNumber := by simpa using new
      exact ne p mem
    · rw [List.append_nil]
      exact ⟨fun mem => ⟨mem, ne p mem⟩, And.left⟩

theorem mem_recordPart_iff (asc : Numbered parts) :
    p ∈ recordPart part parts ↔ p = part ∨ p ∈ parts ∧ p.partNumber ≠ part.partNumber := by
  obtain ⟨before, after, perm, -, others⟩ := recordPart_perm part asc
  rw [perm.mem_iff, ← others p]
  simp only [List.mem_append, List.mem_cons]
  tauto

theorem numbered_recordPart (asc : Numbered parts) : Numbered (recordPart part parts) := by
  obtain ⟨before, after, perm, nodup, -⟩ := recordPart_perm part asc
  have distinct := ((perm.map _).nodup_iff).mpr nodup
  have sorted : (recordPart part parts).Pairwise fun p q => p.partNumber ≤ q.partNumber :=
    List.pairwise_insertionSort _ _
  exact (sorted.and (List.pairwise_map.mp distinct)).imp fun h => lt_of_le_of_ne h.1 h.2

/-! ### The parts of a request -/

/-- The recorded parts that a request asks for. -/
def requestedParts (mp : MultipartUpload) (c : Command) : List Part :=
  c.parts.filterMap fun want => mp.parts.find? fun p => p.partNumber == want.partNumber

theorem find_eq_some (distinct : (parts.map (·.partNumber)).Nodup) :
    parts.find? (fun p => p.partNumber == number) = some p ↔ p ∈ parts ∧ p.partNumber = number := by
  constructor
  · exact fun found => ⟨List.mem_of_find?_eq_some found, by simpa using List.find?_some found⟩
  · rintro ⟨mem, rfl⟩
    cases found : parts.find? (fun q => q.partNumber == p.partNumber) with
    | none => exact absurd (beq_self_eq_true _) (List.find?_eq_none.mp found p mem)
    | some q =>
      have same : q.partNumber = p.partNumber := by simpa using List.find?_some found
      rw [List.inj_on_of_nodup_map distinct (List.mem_of_find?_eq_some found) mem same]

theorem resolveParts_numbered {uploaded : List Part}
    (h : resolveParts uploaded prev wanted = .ok ordered) :
    (∀ want ∈ wanted, prev < want.partNumber) ∧
      (wanted.map (·.partNumber)).Pairwise (· < ·) := by
  induction wanted generalizing prev ordered with
  | nil => exact ⟨by simp, .nil⟩
  | cons want rest ih =>
    unfold resolveParts at h
    split at h
    · cases h
    rename_i above
    split at h
    · cases h
    split at h
    · obtain ⟨others, more, -⟩ := except_bind_ok h
      obtain ⟨after, ascending⟩ := ih more
      have first : prev < want.partNumber := by omega
      refine ⟨?_, ?_⟩
      · exact List.forall_mem_cons.mpr ⟨first, fun w mem => first.trans (after w mem)⟩
      · rw [List.map_cons, List.pairwise_cons]
        refine ⟨?_, ascending⟩
        intro number mem
        obtain ⟨w, listed, rfl⟩ := List.mem_map.mp mem
        exact after w listed
    · cases h

/-- A request is resolved when its numbers increase and every part is there with its digest. -/
theorem resolveParts_iff (asc : Numbered parts) :
    resolveParts parts prev wanted = .ok ordered ↔
      (prev :: wanted.map (·.partNumber)).Pairwise (· < ·) ∧
        List.Forall₂ (Site.Resolves parts) ordered wanted := by
  constructor
  · intro h
    obtain ⟨above, ascending⟩ := resolveParts_numbered h
    refine ⟨List.pairwise_cons.mpr ⟨fun number mem => ?_, ascending⟩, Site.resolveParts_spec h⟩
    obtain ⟨want, listed, rfl⟩ := List.mem_map.mp mem
    exact above want listed
  · rintro ⟨ascending, resolved⟩
    have distinct : (parts.reverse.map (·.partNumber)).Nodup := by
      rw [List.map_reverse, List.nodup_reverse]
      exact asc.numbers
    induction resolved generalizing prev with
    | nil => rfl
    | @cons got want _ rest first _ ih =>
      obtain ⟨mem, same, digest⟩ := first
      obtain ⟨above, later⟩ := List.pairwise_cons.mp ascending
      have next : prev < want.partNumber := above _ List.mem_cons_self
      have found : parts.reverse.find? (fun p => p.partNumber == want.partNumber) = some got :=
        (find_eq_some distinct).mpr ⟨List.mem_reverse.mpr mem, same⟩
      rw [resolveParts, if_neg (not_le.mpr next), found]
      dsimp only
      rw [if_pos digest, ih later]
      rfl

theorem orderedParts_iff (asc : Numbered mp.parts) :
    orderedParts mp c = .ok ordered ↔
      (0 :: c.parts.map (·.partNumber)).Pairwise (· < ·) ∧
        List.Forall₂ (Site.Resolves mp.parts) ordered c.parts ∧ ordered ≠ [] ∧
        ∀ p ∈ ordered.dropLast, minPartSize ≤ p.size := by
  rw [← and_assoc, ← resolveParts_iff asc, orderedParts]
  cases resolveParts mp.parts 0 c.parts with
  | error err => simp
  | ok parts =>
    rw [except_ok_bind]
    by_cases empty : parts = []
    · simp only [empty, if_true, reduceCtorEq, false_iff, not_and, Except.ok.injEq]
      rintro rfl ne
      exact absurd rfl ne
    · rw [if_neg empty]
      by_cases small : (parts.dropLast.any fun p => p.size < minPartSize) = true
      · rw [if_pos small]
        simp only [reduceCtorEq, Except.ok.injEq, false_iff, not_and, not_forall]
        rintro rfl -
        obtain ⟨p, mem, lt⟩ := List.any_eq_true.mp small
        exact ⟨p, mem, by simpa using lt⟩
      · rw [if_neg small, Except.ok.injEq]
        constructor
        · rintro rfl
          refine ⟨rfl, empty, fun p mem => ?_⟩
          have large := List.any_eq_false.mp (Bool.eq_false_iff.mpr small) p mem
          simpa using large
        · exact And.left

/-- Resolved parts are those of the numbers that the request lists. -/
theorem requested_of_resolves (asc : Numbered mp.parts)
    (h : List.Forall₂ (Site.Resolves mp.parts) ordered c.parts) :
    requestedParts mp c = ordered := by
  unfold requestedParts
  generalize c.parts = wanted at h
  induction h with
  | nil => rfl
  | @cons got want _ rest first _ ih =>
    have found := (find_eq_some asc.numbers).mpr ⟨first.1, first.2.1⟩
    rw [List.filterMap_cons, found, ih]

/-- What a completion asks of its request. -/
structure Acceptable (e : Env) (s : Disk) (mp : MultipartUpload) (c : Command) : Prop where
  nonempty : c.parts ≠ []
  positive : ∀ want ∈ c.parts, 0 < want.partNumber
  increasing : (c.parts.map (·.partNumber)).Pairwise (· < ·)
  recorded : ∀ want ∈ c.parts, ∃ p ∈ mp.parts, p.partNumber = want.partNumber ∧
    etagEqual p.etag want.etag = true
  large : ∀ p ∈ (requestedParts mp c).dropLast, minPartSize ≤ p.size
  present : ∀ want ∈ c.parts,
    (s.file (e.mpPartPath c.uploadID want.partNumber)).isSome = true

theorem forall₂_mem_left {α β : Type} {R : α → β → Prop} {as : List α} {bs : List β}
    (h : List.Forall₂ R as bs) {a : α} (mem : a ∈ as) : ∃ b ∈ bs, R a b := by
  induction h with
  | nil => cases mem
  | cons first _ ih =>
    rcases List.mem_cons.mp mem with rfl | later
    · exact ⟨_, List.mem_cons_self, first⟩
    · obtain ⟨b, listed, related⟩ := ih later
      exact ⟨b, List.mem_cons_of_mem _ listed, related⟩

theorem forall₂_of_exists {α β : Type} {R : α → β → Prop} {bs : List β}
    (h : ∀ b ∈ bs, ∃ a, R a b) : ∃ as, List.Forall₂ R as bs := by
  induction bs with
  | nil => exact ⟨[], .nil⟩
  | cons b rest ih =>
    obtain ⟨⟨a, first⟩, others⟩ := List.forall_mem_cons.mp h
    obtain ⟨as, more⟩ := ih others
    exact ⟨a :: as, .cons first more⟩

/-- The parts of a request that passes the checks are those it lists. -/
theorem acceptable_iff {e : Env} {s : Disk} (asc : Numbered mp.parts) :
    (orderedParts mp c = .ok (requestedParts mp c) ∧ ∀ p ∈ requestedParts mp c,
      (s.file (e.mpPartPath c.uploadID p.partNumber)).isSome = true) ↔ Acceptable e s mp c := by
  rw [orderedParts_iff asc, List.pairwise_cons]
  constructor
  · rintro ⟨⟨⟨above, ascending⟩, resolved, ne, large⟩, present⟩
    have listed : ∀ want ∈ c.parts, ∃ p ∈ requestedParts mp c, Site.Resolves mp.parts p want :=
      fun want mem => forall₂_mem_left resolved.flip mem
    refine ⟨?_, fun want mem => above _ (List.mem_map_of_mem mem), ascending, fun want mem => ?_,
      large, fun want mem => ?_⟩
    · intro empty
      exact ne (by rw [requestedParts, empty]; rfl)
    · obtain ⟨p, -, known, same, digest⟩ := listed want mem
      exact ⟨p, known, same, digest⟩
    · obtain ⟨p, asked, -, same, -⟩ := listed want mem
      rw [← same]
      exact present p asked
  · intro ok
    obtain ⟨parts, resolved⟩ : ∃ parts, List.Forall₂ (Site.Resolves mp.parts) parts c.parts :=
      forall₂_of_exists fun want mem => by
        obtain ⟨p, known, same, digest⟩ := ok.recorded want mem
        exact ⟨p, known, same, digest⟩
    have large := ok.large
    rw [requested_of_resolves asc resolved] at large ⊢
    refine ⟨⟨⟨fun number mem => ?_, ok.increasing⟩, resolved, fun empty => ?_, large⟩, fun p mem => ?_⟩
    · obtain ⟨want, listed, rfl⟩ := List.mem_map.mp mem
      exact ok.positive want listed
    · rw [empty] at resolved
      exact ok.nonempty (List.forall₂_nil_left_iff.mp resolved)
    · obtain ⟨want, listed, -, same, -⟩ := forall₂_mem_left resolved mem
      rw [same]
      exact ok.present want listed

end Parts

end D9Store
