import D9Store.Text

/-!
Prefixes, surrounding blanks and decimal numerals.
-/

namespace D9Store.Text

theorem hasPrefix_append (start s : String) : hasPrefix (start ++ s) start = true := by
  rw [hasPrefix, String.toList_append, List.isPrefixOf_iff_prefix]
  exact List.prefix_append _ _

theorem trimPrefix_append (start s : String) : trimPrefix (start ++ s) start = s := by
  rw [trimPrefix, if_pos (hasPrefix_append start s), String.toList_append, List.drop_left,
    String.ofList_toList]

variable {s : String}

/-- A text without blanks at its ends is not trimmed. -/
theorem trimSpace_of_ends {first last : Char} {middle : List Char}
    (shape : s.toList = first :: middle ++ [last]) (front : isSpace first = false)
    (back : isSpace last = false) : trimSpace s = s := by
  rw [trimSpace, trimBoth, shape, List.cons_append, List.dropWhile_cons_of_neg (by simp [front]),
    ← List.cons_append, List.reverse_append, List.reverse_singleton, List.singleton_append,
    List.dropWhile_cons_of_neg (by simp [back]), ← List.singleton_append, List.reverse_append,
    List.reverse_reverse, List.reverse_singleton, ← shape, String.ofList_toList]

/-! ### What trimming leaves -/

/-- The text begins and ends with no blank. -/
structure Solid (text : List Char) : Prop where
  head : ∀ c ∈ text.head?, isSpace c = false
  last : ∀ c ∈ text.getLast?, isSpace c = false

theorem dropWhile_solid {text : List Char} : ∀ c ∈ (text.dropWhile isSpace).head?, isSpace c = false := by
  intro c mem
  have here := List.head?_dropWhile_not isSpace text
  rw [Option.mem_def.mp mem] at here
  exact here

theorem solid_trimSpace (s : String) : Solid (trimSpace s).toList := by
  rw [trimSpace, trimBoth, String.toList_ofList]
  constructor
  · intro c mem
    have front : ((s.toList.dropWhile isSpace).reverse.dropWhile isSpace).reverse <+:
        s.toList.dropWhile isSpace := List.rdropWhile_prefix isSpace _
    obtain ⟨rest, shape⟩ := front
    apply dropWhile_solid c
    rw [← shape, Option.mem_def, List.head?_append, Option.mem_def.mp mem, Option.some_or]
  · intro c mem
    rw [List.getLast?_reverse] at mem
    exact dropWhile_solid c mem

theorem trimSpace_part (s : String) : (trimSpace s).toList <:+: s.toList := by
  rw [trimSpace, trimBoth, String.toList_ofList]
  have front : ((s.toList.dropWhile isSpace).reverse.dropWhile isSpace).reverse <+:
      s.toList.dropWhile isSpace := List.rdropWhile_prefix isSpace _
  exact front.isInfix.trans (List.dropWhile_suffix isSpace).isInfix

theorem dropWhile_append_solid {a c : List Char} (ne : c ≠ [])
    (head : ∀ x ∈ c.head?, isSpace x = false) :
    (a ++ c).dropWhile isSpace = a.dropWhile isSpace ++ c := by
  obtain ⟨x, rest, rfl⟩ := List.exists_cons_of_ne_nil ne
  have stays : (x :: rest).dropWhile isSpace = x :: rest :=
    List.dropWhile_cons_of_neg (by simp [head x rfl])
  rw [List.dropWhile_append]
  cases all : a.dropWhile isSpace with
  | nil => rw [List.isEmpty_nil, if_pos rfl, stays, List.nil_append]
  | cons y ys => rfl

/-- A solid part of a text is a part of the trimmed text. -/
theorem infix_trimSpace {part : List Char} (ne : part ≠ []) (solid : Solid part)
    (inside : part <:+: s.toList) : part <:+: (trimSpace s).toList := by
  obtain ⟨before, after, shape⟩ := inside
  have head : ∀ x ∈ (part ++ after).head?, isSpace x = false := by
    obtain ⟨x, rest, rfl⟩ := List.exists_cons_of_ne_nil ne
    exact solid.head
  have last : ∀ x ∈ (part.reverse ++ (before.dropWhile isSpace).reverse).head?, isSpace x = false := by
    intro x mem
    apply solid.last
    obtain ⟨y, rest, back⟩ := List.exists_cons_of_ne_nil (List.reverse_ne_nil_iff.mpr ne)
    rw [back] at mem
    rw [List.getLast?_eq_head?_reverse, back]
    exact mem
  rw [trimSpace, trimBoth, String.toList_ofList, ← shape, List.append_assoc,
    dropWhile_append_solid (by simp [ne]) head, List.reverse_append, List.reverse_append,
    List.append_assoc, dropWhile_append_solid (by simp [ne]) last, List.reverse_append,
    List.reverse_append, List.reverse_reverse, List.reverse_reverse]
  exact List.infix_append _ _ _

theorem infix_intercalate {sep x : List Char} {xs : List (List Char)} (mem : x ∈ xs) :
    x <:+: sep.intercalate xs := by
  induction xs with
  | nil => cases mem
  | cons y ys ih =>
    cases ys with
    | nil =>
      rw [List.mem_singleton.mp mem]
      simp [List.intercalate]
    | cons z zs =>
      have shape : sep.intercalate (y :: z :: zs) = y ++ (sep ++ sep.intercalate (z :: zs)) := by
        simp [List.intercalate]
      rw [shape]
      rcases List.mem_cons.mp mem with rfl | later
      · exact (List.prefix_append x _).isInfix
      · exact (ih later).trans ((List.suffix_append sep _).trans (List.suffix_append y _)).isInfix

/-- The pieces of a text are parts of it. -/
theorem infix_of_mem_split {piece : String} {at_ : Char} (mem : piece ∈ split s at_) :
    piece.toList <:+: s.toList := by
  obtain ⟨part, here, rfl⟩ := List.mem_map.mp mem
  have inside : part <:+: [at_].intercalate _ := infix_intercalate here
  rwa [List.intercalate_splitOn, ← String.toList_ofList (l := part)] at inside

/-! ### Numerals -/

/-- Decimal digits with the value `n`; there may be leading zeros. -/
structure Numeral (s : String) (n : Nat) : Prop where
  nonempty : s.toList ≠ []
  digits : ∀ c ∈ s.toList, c.isDigit = true
  value : Nat.ofDigitChars 10 s.toList 0 = n

theorem numeral_toString (n : Nat) : Numeral (toString n) n := by
  have shape : (toString n).toList = Nat.toDigits 10 n := Nat.toList_repr
  constructor
  · rw [shape]
    exact Nat.toDigits_ne_nil
  · intro c mem
    rw [shape] at mem
    exact Nat.isDigit_of_mem_toDigits (by decide) (by decide) mem
  · rw [shape]
    exact Nat.ofDigitChars_ten_toDigits

theorem Numeral.not_mem {n : Nat} (h : Numeral s n) {c : Char} (other : c.isDigit = false) :
    c ∉ s.toList := by
  intro mem
  rw [h.digits c mem] at other
  cases other

theorem foldlM_digit (digits : List Char) (all : ∀ c ∈ digits, c.isDigit = true) (n : Nat) :
    digits.foldlM atoi.digit (n : Int) = some ((Nat.ofDigitChars 10 digits n : Nat) : Int) := by
  induction digits generalizing n with
  | nil => simp
  | cons c digits ih =>
    have digit : c.isDigit = true := all c List.mem_cons_self
    have low : 48 ≤ c.toNat := by
      simp only [Char.isDigit, Bool.and_eq_true, decide_eq_true_eq] at digit
      exact digit.1
    have step : atoi.digit (n : Int) c = some ((10 * n + (c.toNat - '0'.toNat) : Nat) : Int) := by
      rw [atoi.digit, if_pos digit]
      congr 1
      have zero : '0'.toNat = 48 := rfl
      omega
    rw [List.foldlM_cons, step, Nat.ofDigitChars_cons]
    exact ih (fun d mem => all d (List.mem_cons_of_mem c mem)) _

/-- A numeral that fits is read as its value. -/
theorem Numeral.atoi {n : Nat} (h : Numeral s n) (small : n < 2 ^ 63) :
    atoi s = some (n : Int) := by
  obtain ⟨c, digits, shape⟩ := List.exists_cons_of_ne_nil h.nonempty
  have digit : c.isDigit = true := h.digits c (by rw [shape]; exact List.mem_cons_self)
  have noPlus : c ≠ '+' := by
    rintro rfl
    exact absurd digit (by decide)
  have noMinus : c ≠ '-' := by
    rintro rfl
    exact absurd digit (by decide)
  have unsigned : Text.atoi s = atoi.bounded (s.toList.foldlM atoi.digit 0) s.toList := by
    unfold Text.atoi
    split
    · rename_i eq
      rw [shape] at eq
      exact absurd (List.cons.inj eq).1 noPlus
    · rename_i eq
      rw [shape] at eq
      exact absurd (List.cons.inj eq).1 noMinus
    · rfl
  have value := foldlM_digit s.toList h.digits 0
  rw [h.value] at value
  rw [unsigned, atoi.bounded, if_neg h.nonempty]
  have value' : s.toList.foldlM atoi.digit 0 = some (n : Int) := value
  rw [value', Option.bind_some, if_pos (by omega)]

end D9Store.Text
