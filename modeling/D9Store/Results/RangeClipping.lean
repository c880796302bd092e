import D9Store.Results.RangeReads

/-!
The arithmetic of ranges.

The bounds of a range are any 64-bit numbers. The first byte of a suffix is found by a negation and a
subtraction before anything is checked; only the smallest number has no negation, and what it wraps to
is refused.
-/

namespace D9Store

open Posix

/-- The values of `int64`. -/
def Is64 (x : Int) : Prop := -2 ^ 63 ≤ x ∧ x < 2 ^ 63

/-- The bytes from `first` to `last` are those a range asks for, and their number does not wrap. -/
structure ByteRange.Clips (r : ByteRange) (size first last : Int) : Prop where
  nonneg : 0 ≤ first
  ordered : first ≤ last
  inside : last < size
  length : int64 (int64 (last - first) + 1) = last - first + 1
  fromStart : 0 ≤ r.start → first = r.start ∧ last = if r.stop < 0 then size - 1 else min r.stop (size - 1)
  suffix : r.start < 0 → last = size - 1 ∧ last - first + 1 = min (-r.start) size

/-- The ranges that are refused. -/
def ByteRange.Refused (r : ByteRange) (size : Int) : Prop :=
  size = 0 ∨ size ≤ r.start ∨ (0 ≤ r.stop ∧ r.stop < r.start) ∨ r.start = -2 ^ 63

theorem int64_length {first last : Int} (nonneg : 0 ≤ first) (ordered : first ≤ last)
    (small : last < 2 ^ 63 - 1) : int64 (int64 (last - first) + 1) = last - first + 1 := by
  rw [int64_of_lt (x := last - first) (by omega) (by omega), int64_of_lt (by omega) (by omega)]

variable {r : ByteRange} {size : Int}

/-- A range with a first byte. -/
theorem resolve_fromStart (size64 : 0 ≤ size ∧ size < 2 ^ 63) (nonneg : 0 ≤ r.start) :
    (r.resolve size = none ∧ r.Refused size) ∨
      (¬ r.Refused size ∧ ∃ first last, r.resolve size = some (first, last) ∧
        r.Clips size first last) := by
  have stop : (if r.stop < 0 ∨ r.stop ≥ size then size - 1 else r.stop) =
      if r.stop < 0 then size - 1 else min r.stop (size - 1) := by
    split <;> split <;> omega
  rw [resolve_of_nonneg nonneg, stop]
  generalize last : (if r.stop < 0 then size - 1 else min r.stop (size - 1)) = stop
  have bound : stop ≤ size - 1 := by
    rw [← last]
    split <;> omega
  dsimp only
  by_cases none_ : r.start ≥ size ∨ r.start > stop
  · rw [if_pos none_]
    refine .inl ⟨rfl, ?_⟩
    unfold ByteRange.Refused
    split at last <;> omega
  · rw [if_neg none_]
    refine .inr ⟨?_, r.start, stop, rfl, nonneg, by omega, by omega, ?_, fun _ => ⟨rfl, last.symm⟩,
      fun neg => absurd neg (by omega)⟩
    · unfold ByteRange.Refused
      split at last <;> omega
    · exact int64_length nonneg (by omega) (by omega)

/-- A suffix. -/
theorem resolve_fromEnd (size64 : 0 ≤ size ∧ size < 2 ^ 63) (start64 : Is64 r.start)
    (neg : r.start < 0) :
    (r.resolve size = none ∧ r.Refused size) ∨
      (¬ r.Refused size ∧ ∃ first last, r.resolve size = some (first, last) ∧
        r.Clips size first last) := by
  obtain ⟨low, -⟩ := start64
  have last : int64 (size - 1) = size - 1 := int64_of_lt (by omega) (by omega)
  unfold ByteRange.resolve
  rw [if_pos neg, last]
  by_cases least : r.start = -2 ^ 63
  · -- The negation wraps to the smallest number, and so does the first byte.
    have negated : int64 (-r.start) = -2 ^ 63 := by
      rw [least]
      decide
    have first : int64 (size - -2 ^ 63) = size - 2 ^ 63 := by
      rw [int64, show size - -2 ^ 63 = size - 2 ^ 63 + ((2 ^ 64 : Nat) : Int) by omega, Int.add_bmod_right]
      exact int64_of_lt (by omega) (by omega)
    simp only [negated]
    rw [if_neg (show ¬ (-2 ^ 63 : Int) > size by omega), first, if_pos (by omega)]
    exact .inl ⟨rfl, .inr (.inr (.inr least))⟩
  · have negated : int64 (-r.start) = -r.start := int64_of_lt (by omega) (by omega)
    have count : (if -r.start > size then size else -r.start) = min (-r.start) size := by
      split <;> omega
    have first : int64 (size - min (-r.start) size) = size - min (-r.start) size :=
      int64_of_lt (by omega) (by omega)
    simp only [negated, count, first]
    by_cases empty : size = 0
    · rw [if_pos (by omega)]
      exact .inl ⟨rfl, .inl empty⟩
    · rw [if_neg (by omega)]
      refine .inr ⟨by unfold ByteRange.Refused; omega, _, _, rfl, by omega, by omega, by omega, ?_,
        fun nonneg => absurd neg (by omega), fun _ => ⟨rfl, by omega⟩⟩
      exact int64_length (by omega) (by omega) (by omega)

/-- A read with any range is refused, or returns exactly the bytes that the range asks for; the
refusals are those of an empty object, of bounds outside the object or in the wrong order, and of the
smallest number. -/
theorem range_clipped_safely {e : Env} {s : Disk} {bucket key versionID : String} {whole : GetResult}
    (found : e.getObject s bucket key { versionID } = .ok whole)
    (size64 : 0 ≤ whole.info.size ∧ whole.info.size < 2 ^ 63) (r : ByteRange)
    (start64 : Is64 r.start) :
    (e.getObject s bucket key { versionID, range := some r } = .error (.api errInvalidRange) ∧
        r.Refused whole.info.size) ∨
      (¬ r.Refused whole.info.size ∧ ∃ first last, r.Clips whole.info.size first last ∧
        e.getObject s bucket key { versionID, range := some r } =
          .ok { info := whole.info
                body := (whole.body.drop first.toNat).take (last - first + 1).toNat
                isRange := true
                partialLength := last - first + 1
                contentRange := "bytes " ++ toString first ++ "-" ++ toString last ++ "/" ++
                  toString whole.info.size }) := by
  have resolved := if neg : r.start < 0 then resolve_fromEnd size64 start64 neg
    else resolve_fromStart (r := r) size64 (by omega)
  rw [getObject_range found]
  rcases resolved with ⟨none_, refused⟩ | ⟨fine, first, last, some_, clips⟩
  · rw [none_]
    exact .inl ⟨rfl, refused⟩
  · rw [some_]
    exact .inr ⟨fine, first, last, clips, rfl⟩

/-- The smallest number is refused on an object that has a byte. -/
theorem smallest_start_refused :
    let e := smallEnv false
    let s := e.feed oneByteStored (smallDisk false)
    e.getObject s "b" "k" { range := some ⟨-2 ^ 63, -1⟩ } = .error (.api errInvalidRange) := by
  intro e s
  have checked : (e.getObject s "b" "k" {}).map (fun w => w.info.size) = .ok 1 := by decide +kernel
  cases found : e.getObject s "b" "k" {} with
  | error err =>
    rw [found] at checked
    cases checked
  | ok whole =>
    rw [found] at checked
    have size : whole.info.size = 1 := Except.ok.inj checked
    rcases range_clipped_safely found (by omega) ⟨-2 ^ 63, -1⟩ ⟨by decide, by decide⟩
      with ⟨refused, -⟩ | ⟨fine, -⟩
    · exact refused
    · exact absurd (.inr (.inr (.inr rfl))) fine

end D9Store
