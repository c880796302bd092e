import D9Store.S3Api.Conditional

/-!
Conditional reads against RFC 7232.

The RFC looks at `If-Match` first, at `If-Unmodified-Since` only without it, then at `If-None-Match`,
and at `If-Modified-Since` only without that. `evalConditional` looks at the last two first, at
`If-Unmodified-Since` always, and takes an ETag that occurs anywhere in a value for one that is listed.
-/

namespace D9Store

open Text

/-! ### The RFC -/

/-- The value of a header that is present. -/
def Values.first (h : Values) (k : String) : Option String := (h.lookup k).bind List.head?

/-- An element of a comma-separated list is the ETag; empty elements do not count. -/
def etagListed (etag value : String) : Bool :=
  etag != "" && (split value ',').any fun x => trimSpace x == etag

/-- The value is a star or lists the ETag. -/
def selects (etag value : String) : Bool := trimSpace value == "*" || etagListed etag value

section Conditions

variable (parseTime : String → Option Time) (h : Values) (etag : String) (lastMod : Time)

/-- A precondition fails. -/
def rfcFails : Bool :=
  match h.first "If-Match" with
  | some value => !selects etag value
  | none => modifiedAfter parseTime lastMod (h.get "If-Unmodified-Since")

/-- The client has the object as it is. -/
def rfcUnmodified : Bool :=
  match h.first "If-None-Match" with
  | some value => selects etag value
  | none => notModifiedAfter parseTime lastMod (h.get "If-Modified-Since")

/-- The status that RFC 7232 asks for. -/
def rfcStatus : Nat :=
  if rfcFails parseTime h etag lastMod then 412
  else if rfcUnmodified parseTime h etag lastMod then 304
  else 0

/-- What `evalConditional` takes for an unmodified object. -/
def foundUnmodified : Bool :=
  if h.get "If-None-Match" = "" then
    notModifiedAfter parseTime lastMod (h.get "If-Modified-Since")
  else etagMatch etag (h.get "If-None-Match")

/-- What it takes for a failed precondition. -/
def foundFailed : Bool :=
  (h.get "If-Match" != "" && !etagMatch etag (h.get "If-Match")) ||
    modifiedAfter parseTime lastMod (h.get "If-Unmodified-Since")

/-- The headers on which both agree. -/
structure Unambiguous : Prop where
  /-- An `If-None-Match` that contains the ETag lists it. -/
  listed : ∀ value, h.first "If-None-Match" = some value → value ≠ "" →
    etagMatch etag value = true → selects etag value = true
  /-- Next to an empty `If-None-Match`, `If-Modified-Since` has nothing to say. -/
  present : h.first "If-None-Match" = some "" →
    notModifiedAfter parseTime lastMod (h.get "If-Modified-Since") = false
  /-- The order of the tests does not matter: an object found unmodified fails no precondition. -/
  order : foundUnmodified parseTime h etag lastMod = true →
    (∀ value, h.first "If-Match" = some value → selects etag value = true) ∧
      (h.first "If-Match" = none →
        modifiedAfter parseTime lastMod (h.get "If-Unmodified-Since") = false)
  /-- Next to an `If-Match` that lists the ETag, `If-Unmodified-Since` does not fail; it does next to
  one that is empty or only contains the ETag. -/
  matched : foundUnmodified parseTime h etag lastMod = false →
    ∀ value, h.first "If-Match" = some value →
      (selects etag value = true →
        modifiedAfter parseTime lastMod (h.get "If-Unmodified-Since") = false) ∧
      (selects etag value = false → value = "" ∨ etagMatch etag value = true →
        modifiedAfter parseTime lastMod (h.get "If-Unmodified-Since") = true)

end Conditions

/-! ### ETags in lists -/

theorem contains_iff {s sub : String} : contains s sub = true ↔ sub.toList <:+: s.toList :=
  decide_eq_true_iff

/-- A value that selects the ETag also matches. -/
theorem etagMatch_of_selects {etag value : String} (h : selects etag value = true) :
    etagMatch etag value = true := by
  rw [etagMatch, Bool.or_eq_true, Bool.or_eq_true]
  rcases Bool.or_eq_true_iff.mp h with star | found
  · exact .inl (.inl star)
  · obtain ⟨named, found⟩ := Bool.and_eq_true_iff.mp found
    obtain ⟨piece, mem, eq⟩ := List.any_eq_true.mp found
    obtain rfl : trimSpace piece = etag := beq_iff_eq.mp eq
    have ne : (trimSpace piece).toList ≠ [] := by
      intro empty
      exact bne_iff_ne.mp named (String.toList_injective empty)
    have part := (trimSpace_part piece).trans (infix_of_mem_split mem)
    exact .inl (.inr (contains_iff.mpr (infix_trimSpace ne (solid_trimSpace piece) part)))

theorem not_selects_empty (etag : String) : selects etag "" = false := by
  have empty : trimSpace "" = "" := by decide
  have pieces : split "" ',' = [""] := by decide
  by_cases named : etag = ""
  · subst named
    decide
  · have other : ("" == etag) = false := beq_eq_false_iff_ne.mpr fun eq => named eq.symm
    simp [selects, etagListed, empty, pieces, other]

/-! ### Agreement -/

section Agreement

variable {parseTime : String → Option Time} {h : Values} {etag k : String} {lastMod : Time}

theorem failed_eq : (if h.get "If-Match" ≠ "" ∧ etagMatch etag (h.get "If-Match") = false then 412
    else if modifiedAfter parseTime lastMod (h.get "If-Unmodified-Since") then 412 else 0) =
      if foundFailed parseTime h etag lastMod then 412 else 0 := by
  unfold foundFailed
  by_cases absent : h.get "If-Match" = ""
  · simp [absent]
  · cases etagMatch etag (h.get "If-Match") <;> simp [absent]

/-- `evalConditional` decides with its readings of the headers, the unmodified object first. -/
theorem evalConditional_eq : evalConditional parseTime h etag lastMod =
    if foundUnmodified parseTime h etag lastMod then 304
    else if foundFailed parseTime h etag lastMod then 412
    else 0 := by
  unfold evalConditional foundUnmodified
  dsimp only
  rw [failed_eq]
  by_cases absent : h.get "If-None-Match" = ""
  · simp only [absent, ne_eq, not_true_eq_false, false_and, if_false, true_and, if_true]
  · simp only [absent, ne_eq, not_false_eq_true, true_and, false_and, if_false]

theorem get_of_first {value : String} (present : h.first k = some value) : h.get k = value := by
  rw [Values.get, ← Values.first, present, Option.getD_some]

theorem get_of_absent (absent : h.first k = none) : h.get k = "" := by
  rw [Values.get, ← Values.first, absent, Option.getD_none]

/-- An object that is unmodified is found to be. -/
theorem foundUnmodified_of (rfc : rfcUnmodified parseTime h etag lastMod = true) :
    foundUnmodified parseTime h etag lastMod = true := by
  unfold rfcUnmodified at rfc
  unfold foundUnmodified
  cases value : h.first "If-None-Match" with
  | none =>
    rw [value] at rfc
    rwa [if_pos (get_of_absent value)]
  | some value' =>
    rw [value] at rfc
    have selected : selects etag value' = true := rfc
    have ne : value' ≠ "" := by
      rintro rfl
      rw [not_selects_empty] at selected
      cases selected
    rw [get_of_first value, if_neg ne]
    exact etagMatch_of_selects selected

/-- What is found unmodified is so exactly if `If-None-Match` is understood. -/
theorem unmodified_iff :
    (foundUnmodified parseTime h etag lastMod = true → rfcUnmodified parseTime h etag lastMod = true) ↔
      (∀ value, h.first "If-None-Match" = some value → value ≠ "" →
        etagMatch etag value = true → selects etag value = true) ∧
      (h.first "If-None-Match" = some "" →
        notModifiedAfter parseTime lastMod (h.get "If-Modified-Since") = false) := by
  unfold foundUnmodified rfcUnmodified
  cases sent : h.first "If-None-Match" with
  | none => simp [get_of_absent sent]
  | some value =>
    rw [get_of_first sent]
    by_cases empty : value = ""
    · subst empty
      simp [not_selects_empty]
    · simp [empty]

theorem rfcFails_eq_false_iff : rfcFails parseTime h etag lastMod = false ↔
    (∀ value, h.first "If-Match" = some value → selects etag value = true) ∧
      (h.first "If-Match" = none →
        modifiedAfter parseTime lastMod (h.get "If-Unmodified-Since") = false) := by
  unfold rfcFails
  cases h.first "If-Match" <;> simp

/-- The preconditions are understood alike exactly if `If-Match` is. -/
theorem failed_iff : foundFailed parseTime h etag lastMod = rfcFails parseTime h etag lastMod ↔
    ∀ value, h.first "If-Match" = some value →
      (selects etag value = true →
        modifiedAfter parseTime lastMod (h.get "If-Unmodified-Since") = false) ∧
      (selects etag value = false → value = "" ∨ etagMatch etag value = true →
        modifiedAfter parseTime lastMod (h.get "If-Unmodified-Since") = true) := by
  unfold foundFailed rfcFails
  generalize modifiedAfter parseTime lastMod (h.get "If-Unmodified-Since") = late
  cases sent : h.first "If-Match" with
  | none => simp [get_of_absent sent]
  | some value =>
    rw [get_of_first sent]
    simp only [Option.some.injEq, forall_eq']
    by_cases empty : value = ""
    · subst empty
      cases late <;> simp [not_selects_empty]
    · cases listed : selects etag value with
      | true => cases late <;> simp [empty, etagMatch_of_selects listed]
      | false => cases late <;> cases etagMatch etag value <;> simp [empty]

/-- Both give the same status exactly if they find the same: unmodified objects fail no precondition,
and the preconditions of the others are understood alike. -/
theorem agree_iff :
    evalConditional parseTime h etag lastMod = rfcStatus parseTime h etag lastMod ↔
      (foundUnmodified parseTime h etag lastMod = true →
        rfcUnmodified parseTime h etag lastMod = true) ∧
      (foundUnmodified parseTime h etag lastMod = true →
        rfcFails parseTime h etag lastMod = false) ∧
      (foundUnmodified parseTime h etag lastMod = false →
        foundFailed parseTime h etag lastMod = rfcFails parseTime h etag lastMod) := by
  have back : rfcUnmodified parseTime h etag lastMod = true →
      foundUnmodified parseTime h etag lastMod = true := foundUnmodified_of
  rw [evalConditional_eq, rfcStatus]
  revert back
  cases foundUnmodified parseTime h etag lastMod <;> cases rfcUnmodified parseTime h etag lastMod <;>
    cases foundFailed parseTime h etag lastMod <;> cases rfcFails parseTime h etag lastMod <;> simp

/-- The status is the RFC's exactly on the unambiguous headers. -/
theorem conditional_rfc_iff (parseTime : String → Option Time) (h : Values) (etag : String)
    (lastMod : Time) :
    evalConditional parseTime h etag lastMod = rfcStatus parseTime h etag lastMod ↔
      Unambiguous parseTime h etag lastMod := by
  rw [agree_iff, unmodified_iff, rfcFails_eq_false_iff, failed_iff]
  constructor
  · rintro ⟨⟨listed, present⟩, order, matched⟩
    exact ⟨listed, present, order, matched⟩
  · rintro ⟨listed, present, order, matched⟩
    exact ⟨⟨listed, present⟩, order, matched⟩

end Agreement

/-- A header that lists the ETag, and one that does not. -/
theorem plain_headers_agree :
    evalConditional (fun _ => none) [("If-Match", ["\"a\", \"b\""]), ("If-None-Match", ["\"c\""])]
        "\"a\"" 5 =
      rfcStatus (fun _ => none) [("If-Match", ["\"a\", \"b\""]), ("If-None-Match", ["\"c\""])]
        "\"a\"" 5 := by
  have clear : Unambiguous (fun _ => none)
      [("If-Match", ["\"a\", \"b\""]), ("If-None-Match", ["\"c\""])] "\"a\"" 5 := by
    refine ⟨?_, by decide, fun found => absurd found (by decide), fun _ => ?_⟩
    · rintro value ⟨⟩
      decide
    · rintro value ⟨⟩
      decide
  exact (conditional_rfc_iff _ _ _ _).mpr clear

/-- The ETag `a` occurs in a list that does not contain it, an empty ETag occurs everywhere, and both
conditions at once are answered with the second. -/
theorem ambiguous_headers_differ :
    (evalConditional (fun _ => none) [("If-Match", ["\"ab\""])] "a" 5 = 0 ∧
      rfcStatus (fun _ => none) [("If-Match", ["\"ab\""])] "a" 5 = 412) ∧
    (evalConditional (fun _ => none) [("If-None-Match", ["\"x\""])] "" 5 = 304 ∧
      rfcStatus (fun _ => none) [("If-None-Match", ["\"x\""])] "" 5 = 0) ∧
    (evalConditional (fun _ => none) [("If-Match", ["\"x\""]), ("If-None-Match", ["*"])] "\"a\"" 5 =
        304 ∧
      rfcStatus (fun _ => none) [("If-Match", ["\"x\""]), ("If-None-Match", ["*"])] "\"a\"" 5 = 412) ∧
    (evalConditional (fun _ => some 1) [("If-Match", ["*"]), ("If-Unmodified-Since", ["then"])] "\"a\""
        5 = 412 ∧
      rfcStatus (fun _ => some 1) [("If-Match", ["*"]), ("If-Unmodified-Since", ["then"])] "\"a\"" 5 =
        0) := by
  decide

/-! ### Times that are sent back -/

/-- The four headers a request may set. -/
structure OnlyHeader (h : Values) (name value : String) : Prop where
  sent : h.get name = value
  others : ∀ other ∈ ["If-Match", "If-None-Match", "If-Modified-Since", "If-Unmodified-Since"],
    other ≠ name → h.get other = ""

theorem parse_lastModified {lenient : String → Option Time} {lastMod : Time} {text : String}
    (pos : 0 < lastMod) (before : lastMod < Calendar.daysOfYears 9999 * 86400 * second)
    (header : lastModifiedHeader lastMod = some text) :
    text ≠ "" ∧ parseHTTPTime lenient text = some (lastMod / second * second) := by
  rw [lastModifiedHeader, if_neg (Int.ne_of_gt pos)] at header
  cases header
  have nonneg : 0 ≤ lastMod / second := Int.ediv_nonneg (Int.le_of_lt pos) (by decide)
  have early : (lastMod / second).toNat < Calendar.daysOfYears 9999 * 86400 := by
    rw [Int.toNat_lt nonneg]
    exact Int.ediv_lt_of_lt_mul (by decide) (by exact_mod_cast before)
  have parsed := HttpDate.read_write early
  constructor
  · intro empty
    have none : HttpDate.write (lastMod / second).toNat = [] := by
      rw [← String.toList_ofList (l := HttpDate.write _), empty]
      rfl
    rw [none] at parsed
    cases parsed
  · rw [parseHTTPTime, String.toList_ofList, parsed]
    dsimp only
    rw [Int.toNat_of_nonneg nonneg]

theorem truncated_lt_iff (a : Int) {b : Int} (ne : b ≠ 0) : a / b * b < a ↔ a % b ≠ 0 := by
  have split := Int.ediv_mul_add_emod a b
  have low := Int.emod_nonneg a ne
  generalize a / b * b = whole at split ⊢
  omega

/-- Sending `Last-Modified` back works exactly for times of whole seconds. -/
theorem last_modified_sent_back_iff {lenient : String → Option Time} {lastMod : Time} {text : String}
    (pos : 0 < lastMod) (before : lastMod < Calendar.daysOfYears 9999 * 86400 * second)
    (header : lastModifiedHeader lastMod = some text) {h₁ h₂ : Values}
    (unmodified : OnlyHeader h₁ "If-Unmodified-Since" text)
    (modified : OnlyHeader h₂ "If-Modified-Since" text) (etag : String) :
    (evalConditional (parseHTTPTime lenient) h₁ etag lastMod = 0 ∧
      evalConditional (parseHTTPTime lenient) h₂ etag lastMod = 304) ↔ lastMod % second = 0 := by
  obtain ⟨ne, parsed⟩ : text ≠ "" ∧ parseHTTPTime lenient text = some (lastMod / second * second) :=
    parse_lastModified pos before header
  have whole : lastMod / second * second < lastMod ↔ lastMod % second ≠ 0 :=
    truncated_lt_iff lastMod (by decide)
  have first : evalConditional (parseHTTPTime lenient) h₁ etag lastMod =
      if lastMod / second * second < lastMod then 412 else 0 := by
    rw [evalConditional_eq]
    simp [foundUnmodified, foundFailed, unmodified.sent, unmodified.others, notModifiedAfter,
      modifiedAfter, ne, parsed]
  have last : evalConditional (parseHTTPTime lenient) h₂ etag lastMod =
      if lastMod / second * second < lastMod then 0 else 304 := by
    have found : foundUnmodified (parseHTTPTime lenient) h₂ etag lastMod =
        !decide (lastMod / second * second < lastMod) := by
      simp [foundUnmodified, modified.sent, modified.others, notModifiedAfter, ne, parsed]
    have passed : foundFailed (parseHTTPTime lenient) h₂ etag lastMod = false := by
      simp [foundFailed, modified.others, modifiedAfter]
    rw [evalConditional_eq, found, passed]
    by_cases fraction : lastMod / second * second < lastMod <;> simp [fraction]
  rw [first, last]
  by_cases fraction : lastMod / second * second < lastMod
  · simp [fraction, whole.mp fraction]
  · simp [fraction, not_not.mp fun ne => fraction (whole.mpr ne)]

/-- The first second of 1970, as a `Last-Modified` header. -/
def epochHeader : String := "Thu, 01 Jan 1970 00:00:00 GMT"

theorem whole_second_sent_back :
    evalConditional (parseHTTPTime fun _ => none) [("If-Unmodified-Since", [epochHeader])] "e"
        (62135596800 * second) = 0 ∧
      evalConditional (parseHTTPTime fun _ => none) [("If-Modified-Since", [epochHeader])] "e"
        (62135596800 * second) = 304 := by
  have header : lastModifiedHeader (62135596800 * second) = some epochHeader := by decide +kernel
  have unmodified : OnlyHeader [("If-Unmodified-Since", [epochHeader])] "If-Unmodified-Since" epochHeader :=
    ⟨by decide, by decide⟩
  have modified : OnlyHeader [("If-Modified-Since", [epochHeader])] "If-Modified-Since" epochHeader :=
    ⟨by decide, by decide⟩
  exact (last_modified_sent_back_iff (by decide) (by decide) header unmodified modified "e").mpr (by decide)

/-- A nanosecond later the header is the same, and both conditions are answered the other way. -/
theorem fraction_of_second_sent_back :
    lastModifiedHeader (62135596800 * second + 1) = some epochHeader ∧
      evalConditional (parseHTTPTime fun _ => none) [("If-Unmodified-Since", [epochHeader])] "e"
        (62135596800 * second + 1) = 412 ∧
      evalConditional (parseHTTPTime fun _ => none) [("If-Modified-Since", [epochHeader])] "e"
        (62135596800 * second + 1) = 0 := by
  decide +kernel

end D9Store
