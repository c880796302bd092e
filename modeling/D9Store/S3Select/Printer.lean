import D9Store.S3Select.Lexer

/-!
Texts as they are written, and the tokens they are read as.

A word that ends where no character of an identifier follows is one token. `Reads` says which tokens
a text stands for, whatever follows it.
-/

namespace D9Store.S3Select

open Text Descent

variable {F : Type} (lib : Lib F)

/-! ### Well-formed names and numbers -/

/-- A character that begins an identifier. -/
def Begins (c : Char) : Prop := c = '_' ∨ lib.isLetter c = true

/-- An identifier of the lexer. -/
def Ident (s : String) : Prop :=
  (∀ c, s.toList.head? = some c → Begins lib c) ∧ s.toList ≠ [] ∧ ∀ c ∈ s.toList, identRune lib c = true

/-! ### Single tokens -/

/-- The characters with a token of their own. -/
def marks : List Char := ['\'', '(', ')', ',', '.', '*', '[', ']', '=', '<', '>', '!']

variable {lib} {rest more front : List Char} {c : Char} {s : String}

theorem punctuation_none (h : c ∉ marks) : punctuation c = none := by
  unfold punctuation
  split
  all_goals first | rfl | exact absurd (by decide) h

theorem operator_none (h : c ∉ marks) (rest : List Char) : operator c rest = none := by
  unfold operator
  split
  all_goals first | rfl | exact absurd (by decide) h

/-- What begins or continues a word has no token of its own. -/
theorem not_mark (h : c = '-' ∨ identRune lib c = true) : c ∉ marks := by
  intro mem
  have ascii : marks.all (fun c => c.toNat < 128 && c != '-' && c != '_' && !c.isAlpha &&
      !c.isDigit) = true := by rfl
  have plain := List.all_eq_true.mp ascii c mem
  simp only [Bool.and_eq_true, decide_eq_true_eq, bne_iff_ne, Bool.not_eq_true'] at plain
  obtain ⟨⟨⟨⟨low, minus⟩, under⟩, letter⟩, digit⟩ := plain
  rcases h with rfl | ident
  · exact minus rfl
  · rw [← lib.letter_ascii c low] at letter
    rw [← lib.digit_ascii c low] at digit
    simp [identRune, under, letter, digit] at ident

theorem isSpace_of_identRune (h : identRune lib c = true) : isSpace c = false := by
  simp only [identRune, Bool.or_eq_true, beq_iff_eq] at h
  rcases h with (rfl | letter) | digit
  · decide
  · exact lib.letter_not_space c letter
  · exact lib.digit_not_space c digit

/-- A word is not taken for anything else. -/
theorem lexeme_word (h : c = '-' ∨ identRune lib c = true) (rest : List Char) :
    lexeme lib c rest = (word lib c rest).map fun x => (some x.1, x.2) := by
  have mark := not_mark h
  have space : isSpace c = false := by
    rcases h with rfl | ident
    · decide
    · exact isSpace_of_identRune ident
  have quote : c ≠ '\'' := fun eq => mark (eq ▸ by decide)
  rw [lexeme, if_neg (by rw [space]; nofun), if_neg quote, punctuation_none mark,
    operator_none mark]

theorem lex_space (rest : List Char) : lex lib (' ' :: rest) = lex lib rest := by
  rw [lex_cons, show lexeme lib ' ' rest = .ok (none, rest) from rfl]
  dsimp only
  cases lex lib rest <;> rfl

theorem lex_of_lexeme {t : Token} (h : lexeme lib c more = .ok (some t, rest)) :
    lex lib (c :: more) = (lex lib rest).map (t :: ·) := by
  rw [lex_cons, h]
  rfl

theorem span_of_stop {p : Char → Bool} (all : ∀ c ∈ front, p c = true)
    (stop : ∀ c, rest.head? = some c → p c = false) : (front ++ rest).span p = (front, rest) := by
  rw [List.span_eq_takeWhile_dropWhile, List.takeWhile_append_of_pos all,
    List.dropWhile_append_of_pos all]
  cases rest with
  | nil => simp
  | cons c more =>
    have := stop c rfl
    simp [this]

theorem lex_ident (ident : Ident lib s) (stop : ∀ c, rest.head? = some c → identRune lib c = false) :
    lex lib (s.toList ++ rest) = (lex lib rest).map (.ident s :: ·) := by
  obtain ⟨begins, some_, all⟩ := ident
  have spanned := span_of_stop all stop
  have text : String.ofList s.toList = s := String.ofList_toList
  revert begins some_ all spanned text
  cases s.toList with
  | nil => exact fun _ some_ => absurd rfl some_
  | cons c more =>
    intro begins some_ all spanned text
    have first := begins c rfl
    have rune := all c (List.mem_cons_self ..)
    rw [List.cons_append] at spanned ⊢
    apply lex_of_lexeme
    have notMinus : c ≠ '-' := by
      rintro rfl
      rcases first with eq | letter
      · cases eq
      · rw [lib.letter_ascii _ (by decide)] at letter
        cases letter
    have notDigit : ¬ lib.isDigit c = true := by
      rcases first with rfl | letter
      · rw [lib.digit_ascii _ (by decide)]
        decide
      · rw [lib.letter_not_digit c letter]
        nofun
    rw [lexeme_word (.inr rune), word, if_neg notMinus, if_neg notDigit,
      if_pos (show c = '_' ∨ lib.isLetter c = true from first), spanned, ← text]
    rfl

/-- A word of letters is an identifier. -/
theorem ident_of_alpha (some_ : s.toList ≠ []) (letters : s.toList.all Char.isAlpha = true) :
    Ident lib s := by
  have each (c : Char) (mem : c ∈ s.toList) : lib.isLetter c = true := by
    have alpha := List.all_eq_true.mp letters c mem
    have range := toNat_of_isAlpha alpha
    rw [lib.letter_ascii c (by omega)]
    exact alpha
  refine ⟨fun c head => .inr (each c (List.mem_of_head? head)), some_, fun c mem => ?_⟩
  simp [identRune, each c mem]

/-! ### Texts and their tokens -/

/-- What may follow a text: a space, a parenthesis that closes, or nothing. -/
def Follows (rest : List Char) : Prop := ∀ c, rest.head? = some c → c = ' ' ∨ c = ')'

/-- The text is read as these tokens, whatever follows. -/
def Reads (lib : Lib F) (text : List Char) (toks : List Token) : Prop :=
  ∀ rest, Follows rest → lex lib (text ++ rest) = (lex lib rest).map (toks ++ ·)

theorem follows_space (rest : List Char) : Follows (' ' :: rest) := by
  rintro c ⟨⟩
  exact .inl rfl

theorem Follows.ident (h : Follows rest) (c : Char) (head : rest.head? = some c) :
    identRune lib c = false := by
  have blank : lib.isLetter ' ' = false ∧ lib.isDigit ' ' = false :=
    ⟨by rw [lib.letter_ascii _ (by decide)]; decide, by rw [lib.digit_ascii _ (by decide)]; decide⟩
  have paren : lib.isLetter ')' = false ∧ lib.isDigit ')' = false :=
    ⟨by rw [lib.letter_ascii _ (by decide)]; decide, by rw [lib.digit_ascii _ (by decide)]; decide⟩
  rcases h c head with rfl | rfl
  · simp [identRune, blank]
  · simp [identRune, paren]

theorem map_append_map {x : Except (Stop String) (List Token)} (ts ts' : List Token) :
    (x.map (ts' ++ ·)).map (ts ++ ·) = x.map ((ts ++ ts') ++ ·) := by
  cases x with
  | error stop => rfl
  | ok more => simp [Except.map]

theorem Reads.space {text text' : List Char} {ts ts' : List Token} (h : Reads lib text ts)
    (h' : Reads lib text' ts') : Reads lib (text ++ ' ' :: text') (ts ++ ts') := by
  intro rest follows
  rw [List.append_assoc, List.cons_append, h _ (follows_space _), lex_space, h' rest follows,
    map_append_map]

theorem reads_ident (ident : Ident lib s) : Reads lib s.toList [.ident s] :=
  fun _ follows => lex_ident ident follows.ident

theorem reads_word (some_ : s.toList ≠ []) (letters : s.toList.all Char.isAlpha = true) :
    Reads lib s.toList [.ident s] := reads_ident (ident_of_alpha some_ letters)

end D9Store.S3Select
