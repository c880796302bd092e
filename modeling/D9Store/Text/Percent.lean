import Mathlib

/-!
Percent-encoding of byte strings (`net/url`).

A percent sign and two hexadecimal digits stand for a byte. In a query a plus sign stands for a blank;
in a path it stands for itself.
-/

namespace Percent

/-- The value of a hexadecimal digit. -/
def hex (c : UInt8) : Option UInt8 :=
  if 48 ≤ c ∧ c ≤ 57 then some (c - 48)
  else if 97 ≤ c ∧ c ≤ 102 then some (c - 87)
  else if 65 ≤ c ∧ c ≤ 70 then some (c - 55)
  else none

/-- `unescape`, of a query or of a path. -/
def unescape (query : Bool) : List UInt8 → Option (List UInt8)
  | [] => some []
  | c :: rest =>
    if c = 37 then
      match rest with
      | a :: b :: rest => do
        let x ← hex a
        let y ← hex b
        let s ← unescape query rest
        some ((16 * x + y) :: s)
      | _ => none
    else do
      let s ← unescape query rest
      some ((if query && c = 43 then 32 else c) :: s)

/-- The bytes that are not escaped. -/
def unreserved (c : UInt8) : Bool :=
  (48 ≤ c && c ≤ 57) || (65 ≤ c && c ≤ 90) || (97 ≤ c && c ≤ 122) || c = 45 || c = 46 || c = 95 ||
    c = 126

def upperHex (n : UInt8) : UInt8 := if n < 10 then 48 + n else 55 + n

def escapeByte (c : UInt8) : List UInt8 :=
  if unreserved c then [c] else if c = 32 then [43] else [37, upperHex (c / 16), upperHex (c % 16)]

/-- `QueryEscape`. -/
def queryEscape (s : List UInt8) : List UInt8 := s.flatMap escapeByte

/-! ### Decoding -/

variable {query : Bool} {c : UInt8} {d s : List UInt8}

theorem unescape_plain (plain : c ≠ 37) (rest : List UInt8) :
    unescape query (c :: rest) =
      (unescape query rest).map ((if query && c = 43 then 32 else c) :: ·) := by
  rw [unescape.eq_def]
  simp only [if_neg plain]
  cases unescape query rest <;> rfl

theorem unescape_escape (a b : UInt8) (rest : List UInt8) :
    unescape query (37 :: a :: b :: rest) =
      (hex a).bind fun x => (hex b).bind fun y => (unescape query rest).map ((16 * x + y) :: ·) := by
  rw [unescape, if_pos rfl]
  cases hex a with
  | none => rfl
  | some x =>
    cases hex b with
    | none => rfl
    | some y => cases unescape query rest <;> rfl

theorem hex_plus : hex 43 = none := by decide

/-- A path is decoded as a query exactly when it has no plus sign. -/
theorem unescape_eq_iff (s : List UInt8) (decoded : unescape false s = some d) :
    unescape true s = some d ↔ 43 ∉ s := by
  fun_induction unescape false s generalizing d with
  | case1 => simpa [unescape] using decoded
  | case2 a b rest ih =>
    simp only [Option.bind_eq_bind, Option.bind_eq_some_iff] at decoded
    obtain ⟨x, first, y, second, s, rest', eq⟩ := decoded
    cases eq
    have digits : a ≠ 43 ∧ b ≠ 43 := by
      constructor <;> rintro rfl <;> rw [hex_plus] at *
      · cases first
      · cases second
    rw [unescape_escape, first, second, Option.bind_some, Option.bind_some, Option.map_eq_some_iff]
    simp only [List.cons.injEq, true_and, exists_eq_right, ih rest', List.mem_cons, not_or, digits.1.symm,
      digits.2.symm, not_false_eq_true, show (43 : UInt8) ≠ 37 by decide]
  | case3 rest short => cases decoded
  | case4 c rest plain ih =>
    simp only [Option.bind_eq_bind, Option.bind_eq_some_iff] at decoded
    obtain ⟨s, rest', eq⟩ := decoded
    cases eq
    rw [unescape_plain plain, Option.map_eq_some_iff, List.mem_cons, not_or]
    by_cases plus : c = 43
    · subst plus
      simp
    · simp only [plus, decide_false, Bool.and_false, Bool.false_eq_true, if_false, List.cons.injEq,
        true_and, exists_eq_right, ih rest', Ne.symm plus, not_false_eq_true]

/-- A text that decodes as a path decodes as a query. -/
theorem exists_unescape (s : List UInt8) (decoded : unescape false s = some d) :
    ∃ d', unescape query s = some d' := by
  fun_induction unescape false s generalizing d with
  | case1 => exact ⟨[], rfl⟩
  | case2 a b rest ih =>
    simp only [Option.bind_eq_bind, Option.bind_eq_some_iff] at decoded
    obtain ⟨x, first, y, second, s, rest', -⟩ := decoded
    obtain ⟨d', decoded'⟩ := ih rest'
    exact ⟨_, by rw [unescape_escape, first, second, decoded']; rfl⟩
  | case3 rest short => cases decoded
  | case4 c rest plain ih =>
    simp only [Option.bind_eq_bind, Option.bind_eq_some_iff] at decoded
    obtain ⟨s, rest', -⟩ := decoded
    obtain ⟨d', decoded'⟩ := ih rest'
    exact ⟨_, by rw [unescape_plain plain, decoded']; rfl⟩

/-- A byte that is no percent sign is still there after decoding a path. -/
theorem mem_unescape (plain : c ≠ 37) (digit : hex c = none) (s : List UInt8)
    (decoded : unescape query s = some d) (other : (query && c = 43) = false) (mem : c ∈ s) :
    c ∈ d := by
  fun_induction unescape query s generalizing d with
  | case1 => cases mem
  | case2 a b rest ih =>
    simp only [Option.bind_eq_bind, Option.bind_eq_some_iff] at decoded
    obtain ⟨x, first, y, second, s, rest', eq⟩ := decoded
    cases eq
    simp only [List.mem_cons, plain, false_or] at mem
    rcases mem with rfl | rfl | mem
    · rw [digit] at first
      cases first
    · rw [digit] at second
      cases second
    · exact List.mem_cons_of_mem _ (ih rest' mem)
  | case3 rest short => cases decoded
  | case4 c' rest plain' ih =>
    simp only [Option.bind_eq_bind, Option.bind_eq_some_iff] at decoded
    obtain ⟨s, rest', eq⟩ := decoded
    cases eq
    rcases List.mem_cons.mp mem with rfl | mem
    · rw [if_neg (by simpa using other)]
      exact List.mem_cons_self
    · exact List.mem_cons_of_mem _ (ih rest' mem)

/-! ### Encoding -/

/-- What an encoded byte looks like, for each of them. -/
theorem escapeByte_cases (c : UInt8) :
    (escapeByte c = [c] ∧ c ≠ 37 ∧ c ≠ 43 ∧ c ∉ [38, 59, 61, 63]) ∨ (escapeByte c = [43] ∧ c = 32) ∨
      ∃ a b x y, escapeByte c = [37, a, b] ∧ hex a = some x ∧ hex b = some y ∧ 16 * x + y = c ∧
        a ∉ [38, 59, 61, 63] ∧ b ∉ [38, 59, 61, 63] := by
  have digit : ∀ n : Fin 16, hex (upperHex (UInt8.ofNat n)) = some (UInt8.ofNat n) ∧
      upperHex (UInt8.ofNat n) ∉ [38, 59, 61, 63] := by decide +kernel
  have high := digit ⟨c.toNat / 16, by have := c.toNat_lt; omega⟩
  have low := digit ⟨c.toNat % 16, by omega⟩
  rw [show UInt8.ofNat (c.toNat / 16) = c / 16 by
    rw [← UInt8.toNat_inj, UInt8.toNat_div, UInt8.toNat_ofNat']
    have := c.toNat_lt
    simp
    omega] at high
  rw [show UInt8.ofNat (c.toNat % 16) = c % 16 by
    rw [← UInt8.toNat_inj, UInt8.toNat_mod, UInt8.toNat_ofNat']
    simp
    omega] at low
  unfold escapeByte
  split
  · rename_i plain
    refine .inl ⟨rfl, ?_, ?_, ?_⟩
    · rintro rfl
      cases plain
    · rintro rfl
      cases plain
    · intro mem
      fin_cases mem <;> cases plain
  · split
    · rename_i blank
      exact .inr (.inl ⟨rfl, blank⟩)
    · refine .inr (.inr ⟨_, _, _, _, rfl, high.1, low.1, ?_, high.2, low.2⟩)
      rw [← UInt8.toNat_inj]
      have := c.toNat_lt
      simp [UInt8.toNat_add, UInt8.toNat_mul, UInt8.toNat_div, UInt8.toNat_mod]
      omega

theorem unescape_escapeByte (c : UInt8) (rest : List UInt8) :
    unescape true (escapeByte c ++ rest) = (unescape true rest).map (c :: ·) := by
  rcases escapeByte_cases c with ⟨eq, plain, notPlus, -⟩ | ⟨eq, rfl⟩ | ⟨a, b, x, y, eq, first, second, value, -⟩
  · rw [eq, List.singleton_append, unescape_plain plain]
    simp [notPlus]
  · rw [eq, List.singleton_append, unescape_plain (by decide)]
    rfl
  · rw [eq, List.cons_append, List.cons_append, List.singleton_append, unescape_escape, first, second,
      Option.bind_some, Option.bind_some, value]

theorem unescape_queryEscape (s : List UInt8) : unescape true (queryEscape s) = some s := by
  induction s with
  | nil => rfl
  | cons c s ih => rw [queryEscape, List.flatMap_cons, ← queryEscape, unescape_escapeByte, ih, Option.map_some]

/-- No separator of a query is left in an encoded text. -/
theorem clean_queryEscape (mem : c ∈ queryEscape s) : c ∉ [38, 59, 61, 63] := by
  obtain ⟨b, -, mem⟩ := List.mem_flatMap.mp mem
  rcases escapeByte_cases b with ⟨eq, -, -, clean⟩ | ⟨eq, -⟩ | ⟨a, a', x, y, eq, -, -, -, clean, clean'⟩
  · rw [eq, List.mem_singleton] at mem
    exact mem ▸ clean
  · rw [eq, List.mem_singleton] at mem
    rw [mem]
    decide
  · rw [eq] at mem
    simp only [List.mem_cons, List.not_mem_nil, or_false] at mem
    rcases mem with rfl | rfl | rfl
    · decide
    · exact clean
    · exact clean'

end Percent
