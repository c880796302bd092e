import D9Store.Runs
import D9Store.S3Api.Ranges

/-!
What a read with a range returns.

A range arrives as a header, is parsed, written out again for the node and parsed there. The forms
with a first byte survive this. The suffix of no bytes does not: parsed, it is the range that begins at
byte zero, and the whole object is returned where no range can be satisfied.
-/

namespace D9Store

open Posix Text

/-! ### What is asked for -/

/-- A single range of bytes. -/
inductive RangeSpec where
  | closed (first last : Nat)
  | open_ (first : Nat)
  | suffix (count : Nat)

namespace RangeSpec

/-- A header that asks for the range. -/
inductive Writes : RangeSpec → String → Prop where
  | closed {a b : String} {first last : Nat} (start : Numeral a first) (stop : Numeral b last) :
      Writes (.closed first last) ("bytes=" ++ (a ++ "-" ++ b))
  | open_ {a : String} {first : Nat} (start : Numeral a first) :
      Writes (.open_ first) ("bytes=" ++ (a ++ "-"))
  | suffix {k : String} {count : Nat} (length : Numeral k count) :
      Writes (.suffix count) ("bytes=" ++ ("-" ++ k))

/-- The numbers fit and are in order. -/
def WellFormed : RangeSpec → Prop
  | .closed first last => first ≤ last ∧ last < 2 ^ 63
  | .open_ first => first < 2 ^ 63
  | .suffix count => count < 2 ^ 63

/-- The first and last byte to return of an object of `size` bytes, `none` when there are none. -/
def bytes (size : Nat) : RangeSpec → Option (Nat × Nat)
  | .closed first last => if first < size then some (first, min last (size - 1)) else none
  | .open_ first => if first < size then some (first, size - 1) else none
  | .suffix count =>
    if 0 < count ∧ 0 < size then some (size - min count size, size - 1) else none

/-- The answer to a range of an object that is `whole`. -/
def answer (r : RangeSpec) (whole : GetResult) : Except Err GetResult :=
  match r.bytes whole.body.length with
  | none => .error (.api errInvalidRange)
  | some (first, last) =>
    .ok { info := whole.info
          body := (whole.body.drop first).take (last + 1 - first)
          isRange := true
          contentRange := "bytes " ++ toString first ++ "-" ++ toString last ++ "/" ++
            toString whole.body.length
          partialLength := (last + 1 - first : Nat) }

/-- The range that is asked of the node: a suffix of no bytes becomes the whole object. -/
def forwarded : RangeSpec → RangeSpec
  | .suffix 0 => .open_ 0
  | r => r

/-- The range as the parsers represent it. -/
def parsed : RangeSpec → ByteRange
  | .closed first last => ⟨first, last⟩
  | .open_ first => ⟨first, -1⟩
  | .suffix count => ⟨-count, -1⟩

end RangeSpec

open RangeSpec

/-! ### The parsers -/

theorem int64_of_lt {x : Int} (low : -2 ^ 63 ≤ x) (high : x < 2 ^ 63) : int64 x = x := by
  rw [int64, Int.bmod_eq_of_le_mul_two] <;> omega

variable {a : String}

theorem rangeParts_of {b : String} (noDash : '-' ∉ a.toList) (noComma : ',' ∉ a.toList)
    (noComma' : ',' ∉ b.toList) : rangeParts ("bytes=" ++ (a ++ "-" ++ b)) = some (a, b) := by
  have shape : (a ++ "-" ++ b).toList = a.toList ++ '-' :: b.toList := by
    simp [String.toList_append]
  have one : ',' ∉ (a ++ "-" ++ b).toList := by
    rw [shape]
    simp [noComma, noComma']
  have before : ∀ c ∈ a.toList, (c != '-') = true := by
    intro c mem
    exact bne_iff_ne.mpr fun eq => noDash (eq ▸ mem)
  have cut : (a ++ "-" ++ b).toList.span (· != '-') = (a.toList, '-' :: b.toList) := by
    rw [shape, List.span_eq_takeWhile_dropWhile, List.takeWhile_append_of_pos before,
      List.dropWhile_append_of_pos before]
    simp
  rw [rangeParts, if_pos (hasPrefix_append _ _), trimPrefix_append]
  simp only [one, if_false, cut, String.ofList_toList]

theorem rangeParts_closed {b : String} {first last : Nat} (start : Numeral a first)
    (stop : Numeral b last) : rangeParts ("bytes=" ++ (a ++ "-" ++ b)) = some (a, b) :=
  rangeParts_of (start.not_mem (by decide)) (start.not_mem (by decide)) (stop.not_mem (by decide))

theorem rangeParts_open {first : Nat} (start : Numeral a first) :
    rangeParts ("bytes=" ++ (a ++ "-")) = some (a, "") := by
  have parts := rangeParts_of (b := "") (start.not_mem (c := '-') (by decide))
    (start.not_mem (c := ',') (by decide)) (by decide)
  rwa [String.append_empty] at parts

variable {count : Nat}

theorem rangeParts_suffix {k : String} (length : Numeral k count) :
    rangeParts ("bytes=" ++ ("-" ++ k)) = some ("", k) := by
  have parts := rangeParts_of (a := "") (by decide) (by decide) (length.not_mem (c := ',') (by decide))
  rwa [String.empty_append] at parts

theorem Numeral_ne_empty {n : Nat} (h : Numeral a n) : a ≠ "" := by
  rintro rfl
  exact h.nonempty rfl

variable {r : RangeSpec} {h : String}

/-- The front end reads every well-formed header as it is meant. -/
theorem parseRangeHeader_of (wellFormed : r.WellFormed) (writes : r.Writes h) :
    parseRangeHeader h = some r.parsed := by
  cases writes with
  | @closed a b first last start stop =>
    obtain ⟨ordered, small⟩ := wellFormed
    simp [parseRangeHeader, rangeParts_closed start stop, Numeral_ne_empty start,
      Numeral_ne_empty stop, start.atoi (by omega), stop.atoi small, parsed]
  | @open_ a first start =>
    have small : first < 2 ^ 63 := wellFormed
    simp [parseRangeHeader, rangeParts_open start, Numeral_ne_empty start, start.atoi small, parsed]
  | @suffix k count length =>
    have small : count < 2 ^ 63 := wellFormed
    have wrap : int64 (-(count : Int)) = -(count : Int) := int64_of_lt (by omega) (by omega)
    simp [parseRangeHeader, rangeParts_suffix length, length.atoi small, wrap, parsed]

theorem parseRange_of (wellFormed : r.WellFormed) (writes : r.Writes h) :
    parseRange h = some r.parsed := by
  cases writes with
  | @closed a b first last start stop =>
    obtain ⟨ordered, small⟩ := wellFormed
    simp [parseRange, rangeParts_closed start stop, Numeral_ne_empty start, Numeral_ne_empty stop,
      start.atoi (by omega), stop.atoi small, parsed]
  | @open_ a first start =>
    have small : first < 2 ^ 63 := wellFormed
    simp [parseRange, rangeParts_open start, Numeral_ne_empty start, start.atoi small, parsed]
  | @suffix k count length =>
    have small : count < 2 ^ 63 := wellFormed
    have wrap : int64 (-(count : Int)) = -(count : Int) := int64_of_lt (by omega) (by omega)
    simp [parseRange, rangeParts_suffix length, Numeral_ne_empty length, length.atoi small, wrap,
      parsed]

theorem rangeHeader_closed (first last : Nat) :
    rangeHeader ⟨first, last⟩ = "bytes=" ++ (toString first ++ "-" ++ toString last) := by
  have low : ¬ (first : Int) < 0 := by omega
  have closed : (last : Int) ≥ 0 := by omega
  rw [rangeHeader, if_neg low, if_pos closed, String.append_assoc, String.append_assoc,
    String.append_assoc]
  rfl

theorem rangeHeader_open (first : Nat) :
    rangeHeader ⟨first, -1⟩ = "bytes=" ++ (toString first ++ "-") := by
  have low : ¬ (first : Int) < 0 := by omega
  have open_ : ¬ (-1 : Int) ≥ 0 := by decide
  rw [rangeHeader, if_neg low, if_neg open_, String.append_assoc]
  rfl

theorem rangeHeader_suffix (pos : 0 < count) (small : count < 2 ^ 63) :
    rangeHeader ⟨-count, -1⟩ = "bytes=" ++ ("-" ++ toString count) := by
  have neg : -(count : Int) < 0 := by omega
  have wrap : int64 (- -(count : Int)) = count := by
    rw [neg_neg]
    exact int64_of_lt (by omega) (by omega)
  rw [rangeHeader, if_pos neg, wrap]
  rfl

/-- The header the client sends asks for the same range, but for a suffix of no bytes. -/
theorem writes_rangeHeader (wellFormed : r.WellFormed) :
    r.forwarded.Writes (rangeHeader r.parsed) := by
  cases r with
  | closed first last =>
    rw [parsed, rangeHeader_closed]
    exact .closed (numeral_toString first) (numeral_toString last)
  | open_ first =>
    rw [parsed, rangeHeader_open]
    exact .open_ (numeral_toString first)
  | suffix count =>
    cases count with
    | zero => exact .open_ (numeral_toString 0)
    | succ count =>
      rw [parsed, rangeHeader_suffix (Nat.succ_pos count) wellFormed]
      exact .suffix (numeral_toString (count + 1))

theorem forwardedRange_of (wellFormed : r.WellFormed) (writes : r.Writes h) :
    forwardedRange h = some r.forwarded.parsed := by
  have wellFormed' : r.forwarded.WellFormed := by
    unfold forwarded
    split
    · exact Nat.two_pow_pos 63
    · exact wellFormed
  rw [forwardedRange, parseRangeHeader_of wellFormed writes, Option.bind_some]
  exact parseRange_of wellFormed' (writes_rangeHeader wellFormed)

/-! ### The engine -/

theorem resolve_of_nonneg {r : ByteRange} {size : Int} (nonneg : 0 ≤ r.start) :
    r.resolve size =
      let stop := if r.stop < 0 ∨ r.stop ≥ size then size - 1 else r.stop
      if r.start ≥ size ∨ r.start > stop then none else some (r.start, stop) := by
  unfold ByteRange.resolve
  rw [if_neg (by omega)]
  by_cases clipped : r.stop < 0 ∨ r.stop ≥ size
  · simp only [if_pos clipped, Int.not_lt.mpr nonneg, false_or]
  · simp only [if_neg clipped, Int.not_lt.mpr nonneg, false_or]

theorem resolve_suffix {size : Nat} (pos : 0 < count) (bound : count < 2 ^ 63)
    (small : size < 2 ^ 63) :
    ByteRange.resolve ⟨-count, -1⟩ size =
      if 0 < size then some (((size - min count size : Nat) : Int), (size : Int) - 1) else none := by
  have wrap : int64 (- -(count : Int)) = count := by
    rw [neg_neg]
    exact int64_of_lt (by omega) (by omega)
  have clipped : (if (count : Int) > size then (size : Int) else count) = (min count size : Nat) := by
    split <;> omega
  have first : int64 ((size : Int) - (min count size : Nat)) = ((size - min count size : Nat) : Int) := by
    rw [int64_of_lt (by omega) (by omega)]
    omega
  have last : int64 ((size : Int) - 1) = (size : Int) - 1 := int64_of_lt (by omega) (by omega)
  have neg : -(count : Int) < 0 := by omega
  unfold ByteRange.resolve
  rw [if_pos neg]
  simp only [wrap, clipped, first, last]
  by_cases empty : 0 < size
  · rw [if_neg (by omega), if_pos empty]
  · rw [if_pos (by omega), if_neg empty]

/-- The engine finds the bytes that are asked for, but for a suffix of no bytes. -/
theorem resolve_parsed {size : Nat} (wellFormed : r.WellFormed) (some_ : r ≠ .suffix 0)
    (small : size < 2 ^ 63) :
    r.parsed.resolve size = (r.bytes size).map fun x => ((x.1 : Int), (x.2 : Int)) := by
  cases r with
  | closed first last =>
    obtain ⟨ordered, -⟩ := wellFormed
    rw [parsed, resolve_of_nonneg (by exact Int.natCast_nonneg first), bytes]
    dsimp only
    have stop : (if (last : Int) < 0 ∨ (last : Int) ≥ size then (size : Int) - 1 else last) =
        if last < size then (last : Int) else (size : Int) - 1 := by
      split <;> split <;> omega
    rw [stop]
    by_cases inside : first < size
    · rw [if_pos inside, Option.map_some, if_neg (by split <;> omega)]
      congr 2
      split <;> omega
    · rw [if_neg inside, Option.map_none, if_pos (by omega)]
  | open_ first =>
    rw [parsed, resolve_of_nonneg (by exact Int.natCast_nonneg first), bytes]
    dsimp only
    have stop : (if (-1 : Int) < 0 ∨ (-1 : Int) ≥ size then (size : Int) - 1 else -1) = size - 1 :=
      if_pos (by omega)
    rw [stop]
    by_cases inside : first < size
    · rw [if_pos inside, Option.map_some, if_neg (by omega)]
      congr 2
      omega
    · rw [if_neg inside, Option.map_none, if_pos (by omega)]
  | suffix count =>
    have pos : 0 < count := by
      apply Nat.pos_of_ne_zero
      rintro rfl
      exact some_ rfl
    rw [parsed, resolve_suffix pos wellFormed small, bytes]
    by_cases empty : 0 < size
    · rw [if_pos empty, if_pos ⟨pos, empty⟩, Option.map_some]
      congr 2
      omega
    · rw [if_neg empty, if_neg fun h => empty h.2, Option.map_none]

variable {e : Env} {s : Disk} {versionID : String} {whole : GetResult}

/-- A read with a range is one of a part of what a read without returns. -/
theorem getObject_range {bucket key : String}
    (found : e.getObject s bucket key { versionID } = .ok whole) (r : ByteRange) :
    e.getObject s bucket key { versionID, range := some r } =
      match r.resolve whole.info.size with
      | none => .error (.api errInvalidRange)
      | some (start, stop) =>
        .ok { info := whole.info
              body := (whole.body.drop start.toNat).take (stop - start + 1).toNat
              isRange := true
              partialLength := stop - start + 1
              contentRange := "bytes " ++ toString start ++ "-" ++ toString stop ++ "/" ++
                toString whole.info.size } := by
  obtain ⟨v, live, found⟩ := except_bind_ok found
  obtain ⟨pp, place, found⟩ := except_bind_ok found
  unfold Env.getObject
  rw [live, except_ok_bind, place, except_ok_bind]
  split at found
  · cases found
  · cases found
  · rename_i f file
    cases found
    rfl

theorem bytes_ordered {size first last : Nat} (wellFormed : r.WellFormed)
    (h : r.bytes size = some (first, last)) : first ≤ last := by
  cases r with
  | closed a b =>
    obtain ⟨ordered, -⟩ := wellFormed
    rw [bytes] at h
    split at h
    · cases h
      omega
    · cases h
  | open_ a =>
    rw [bytes] at h
    split at h
    · cases h
      omega
    · cases h
  | suffix k =>
    rw [bytes] at h
    split at h
    · cases h
      omega
    · cases h

theorem getObject_parsed {bucket key : String}
    (found : e.getObject s bucket key { versionID } = .ok whole)
    (sized : whole.info.size = whole.body.length) (small : whole.body.length < 2 ^ 63)
    (wellFormed : r.WellFormed) (some_ : r ≠ .suffix 0) :
    e.getObject s bucket key { versionID, range := some r.parsed } = r.answer whole := by
  rw [getObject_range found, sized, resolve_parsed wellFormed some_ small, answer]
  cases chosen : r.bytes whole.body.length with
  | none => rfl
  | some x =>
    obtain ⟨first, last⟩ := x
    have ordered := bytes_ordered wellFormed chosen
    have length : (last : Int) - first + 1 = ((last + 1 - first : Nat) : Int) := by omega
    simp only [Option.map_some, length, Int.toNat_natCast]
    rfl

/-! ### End to end -/

/-- The answer is the one to the range that was forwarded. -/
theorem rangedGet_eq {bucket key header : String}
    (found : e.getObject s bucket key { versionID } = .ok whole)
    (sized : whole.info.size = whole.body.length) (small : whole.body.length < 2 ^ 63)
    (wellFormed : r.WellFormed) (writes : r.Writes header) :
    e.rangedGet s bucket key versionID header = r.forwarded.answer whole := by
  have wellFormed' : r.forwarded.WellFormed := by
    unfold forwarded
    split
    · exact Nat.two_pow_pos 63
    · exact wellFormed
  have some_ : r.forwarded ≠ .suffix 0 := by
    unfold forwarded
    split
    · intro eq
      cases eq
    · assumption
  rw [Env.rangedGet, forwardedRange_of wellFormed writes]
  exact getObject_parsed found sized small wellFormed' some_

/-- A range is answered with exactly the bytes it asks for, unless it is the suffix of no bytes of an
object that has some. -/
theorem ranged_get_iff {e : Env} {s : Disk} {bucket key versionID header : String} {whole : GetResult}
    (found : e.getObject s bucket key { versionID } = .ok whole)
    (sized : whole.info.size = whole.body.length) (small : whole.body.length < 2 ^ 63) {r : RangeSpec}
    (wellFormed : r.WellFormed) (writes : r.Writes header) :
    e.rangedGet s bucket key versionID header = r.answer whole ↔
      ¬ (r = .suffix 0 ∧ 0 < whole.body.length) := by
  rw [rangedGet_eq found sized small wellFormed writes]
  constructor
  · rintro same ⟨rfl, some_⟩
    have served : answer (.open_ 0) whole ≠ .error (.api errInvalidRange) := by
      rw [answer, bytes, if_pos some_]
      exact fun eq => by cases eq
    exact served same
  · intro other
    by_cases suffix : r = .suffix 0
    · subst suffix
      have empty : whole.body.length = 0 := by
        by_contra some_
        exact other ⟨rfl, Nat.pos_of_ne_zero some_⟩
      simp [forwarded, answer, bytes, empty]
    · have same : r.forwarded = r := by
        unfold forwarded
        split
        · exact absurd rfl suffix
        · rfl
      rw [same]

/-- A bucket with one object of one byte. -/
def oneByteStored : List Input :=
  [.command Small.create, Small.payload 1, .command (Small.put "k" 1)]

theorem first_byte_answered :
    let e := smallEnv false
    let s := e.feed oneByteStored (smallDisk false)
    ∃ whole, e.getObject s "b" "k" {} = .ok whole ∧
      e.rangedGet s "b" "k" "" "bytes=0-0" = answer (.closed 0 0) whole := by
  intro e s
  have checked : (e.getObject s "b" "k" {}).map (fun w => (w.info.size, w.body.length)) = .ok (1, 1) := by
    decide +kernel
  cases found : e.getObject s "b" "k" {} with
  | error err =>
    rw [found] at checked
    cases checked
  | ok whole =>
    rw [found] at checked
    obtain ⟨size, length⟩ := Prod.mk.inj (Except.ok.inj checked)
    have writes : Writes (.closed 0 0) "bytes=0-0" :=
      .closed (numeral_toString 0) (numeral_toString 0)
    have wellFormed : WellFormed (.closed 0 0) := ⟨le_rfl, by decide⟩
    have other : ¬ (RangeSpec.closed 0 0 = .suffix 0 ∧ 0 < whole.body.length) := by
      rintro ⟨eq, -⟩
      cases eq
    exact ⟨whole, rfl, (ranged_get_iff found (by rw [size, length]; rfl) (by rw [length]; decide)
      wellFormed writes).mpr other⟩

/-- The suffix of no bytes is answered with the whole object. -/
theorem empty_suffix_answered :
    let e := smallEnv false
    let s := e.feed oneByteStored (smallDisk false)
    Writes (.suffix 0) "bytes=-0" ∧
      (e.rangedGet s "b" "k" "" "bytes=-0").map (fun res => (res.body, res.contentRange)) =
        .ok ([1], "bytes 0-0/1") ∧
      ∀ whole, answer (.suffix 0) whole = .error (.api errInvalidRange) :=
  ⟨.suffix (numeral_toString 0), by decide +kernel, fun _ => rfl⟩

end D9Store
