import D9Store.S3Select.Syntax
import D9Store.Text.Descent

/-!
The lexer of S3 Select (`lex` in `internal/s3select/parser.go`).

A query is the sequence of its characters. `lexeme` is one turn of the loop, `lexLoop` the loop with a
bound on its turns, and `lex` the loop with as many turns as there are characters; `lex_cons` shows that
the bound is never met.
-/

namespace D9Store.S3Select

open Text Descent

variable {F : Type} (lib : Lib F) {cs rest : List Char} {c : Char}

/-- The rest of a string literal: its text with doubled quotes taken for one, and what follows it. -/
def quoted : List Char → Option (List Char × List Char)
  | [] => none
  | '\'' :: '\'' :: rest => (quoted rest).map fun x => ('\'' :: x.1, x.2)
  | '\'' :: rest => some ([], rest)
  | c :: rest => (quoted rest).map fun x => (c :: x.1, x.2)

/-- Digits and an optional fraction. -/
def numeral (cs : List Char) : List Char × List Char :=
  let digits := cs.span lib.isDigit
  match digits.2 with
  | '.' :: rest =>
    let fraction := rest.span lib.isDigit
    (digits.1 ++ '.' :: fraction.1, fraction.2)
  | rest => (digits.1, rest)

/-- A character that continues an identifier. -/
def identRune (c : Char) : Bool := c == '_' || lib.isLetter c || lib.isDigit c

def unexpected {α : Type} (c : Char) : Except (Stop String) α :=
  .error (.refused ("s3select: unexpected character " ++ lib.quote (String.singleton c)))

/-- The tokens of one character. -/
def punctuation : Char → Option Token
  | '(' => some .lparen
  | ')' => some .rparen
  | ',' => some .comma
  | '.' => some .dot
  | '*' => some .star
  | '[' => some .lbracket
  | ']' => some .rbracket
  | '=' => some (.op .eq)
  | _ => none

/-- The operators that look at the character after theirs. -/
def operator : Char → List Char → Option (CmpOp × List Char)
  | '<', '>' :: rest => some (.ltgt, rest)
  | '<', '=' :: rest => some (.le, rest)
  | '<', rest => some (.lt, rest)
  | '>', '=' :: rest => some (.ge, rest)
  | '>', rest => some (.gt, rest)
  | '!', '=' :: rest => some (.bangEq, rest)
  | _, _ => none

/-- A number, or an identifier; an exclamation mark that is no operator ends here too, and is refused. -/
def word (c : Char) (rest : List Char) : Except (Stop String) (Token × List Char) :=
  if c = '-' then
    if rest.head?.any lib.isDigit then
      let x := numeral lib rest
      .ok (.number (String.ofList ('-' :: x.1)), x.2)
    else unexpected lib c
  else if lib.isDigit c then
    let x := numeral lib (c :: rest)
    .ok (.number (String.ofList x.1), x.2)
  else if c = '_' ∨ lib.isLetter c = true then
    let x := (c :: rest).span (identRune lib)
    .ok (.ident (String.ofList x.1), x.2)
  else unexpected lib c

/-- One turn of the loop of `lex`: the token that begins with the character, if it begins one, and
what follows it. -/
def lexeme (c : Char) (rest : List Char) : Except (Stop String) (Option Token × List Char) :=
  if isSpace c then .ok (none, rest)
  else if c = '\'' then
    match quoted rest with
    | none => .error (.refused "s3select: unterminated string literal")
    | some x => .ok (some (.string (String.ofList x.1)), x.2)
  else
    match punctuation c with
    | some t => .ok (some t, rest)
    | none =>
      match operator c rest with
      | some x => .ok (some (.op x.1), x.2)
      | none => (word lib c rest).map fun x => (some x.1, x.2)

/-- The loop of `lex`, with a bound on its turns. -/
def lexLoop : Nat → List Char → Except (Stop String) (List Token)
  | _, [] => .ok [.eof]
  | 0, _ :: _ => .error .spent
  | fuel + 1, c :: rest => do
    let x ← lexeme lib c rest
    let toks ← lexLoop fuel x.2
    .ok (x.1.toList ++ toks)

/-- `lex`. -/
def lex (s : List Char) : Except (Stop String) (List Token) := lexLoop lib s.length s

/-! ### Every turn consumes -/

theorem quoted_length {text : List Char} (h : quoted cs = some (text, rest)) :
    rest.length < cs.length := by
  induction cs using quoted.induct generalizing text rest with
  | case1 => cases h
  | case2 cs ih =>
    rw [quoted] at h
    obtain ⟨x, found, eq⟩ := Option.map_eq_some_iff.mp h
    cases eq
    have := ih found
    simp only [List.length_cons]
    omega
  | case3 cs other =>
    rw [quoted] at h
    · cases h
      simp
    · exact other
  | case4 c cs other notQuote ih =>
    rw [quoted] at h
    · obtain ⟨x, found, eq⟩ := Option.map_eq_some_iff.mp h
      cases eq
      have := ih found
      simp only [List.length_cons]
      omega
    · exact other
    · exact notQuote

theorem span_length (p : Char → Bool) (cs : List Char) : (cs.span p).2.length ≤ cs.length := by
  rw [List.span_eq_takeWhile_dropWhile]
  exact List.length_dropWhile_le p cs

theorem numeral_length (cs : List Char) : (numeral lib cs).2.length ≤ cs.length := by
  have first := span_length lib.isDigit cs
  unfold numeral
  dsimp only
  split
  · rename_i rest eq
    rw [eq] at first
    have second := span_length lib.isDigit rest
    simp only [List.length_cons] at first
    dsimp only
    omega
  · exact first

/-- A numeral that begins with a digit consumes it. -/
theorem numeral_cons_length (digit : lib.isDigit c = true) (rest : List Char) :
    (numeral lib (c :: rest)).2.length ≤ rest.length := by
  have first := span_length lib.isDigit rest
  have eq : (c :: rest).span lib.isDigit =
      (c :: (rest.span lib.isDigit).1, (rest.span lib.isDigit).2) := by
    simp [List.span_eq_takeWhile_dropWhile, digit]
  unfold numeral
  rw [eq]
  dsimp only
  split
  · rename_i more eq
    rw [eq] at first
    have second := span_length lib.isDigit more
    simp only [List.length_cons] at first
    dsimp only
    omega
  · exact first

theorem ident_length (begins : identRune lib c = true) (rest : List Char) :
    ((c :: rest).span (identRune lib)).2.length ≤ rest.length := by
  rw [List.span_eq_takeWhile_dropWhile, List.dropWhile_cons_of_pos begins]
  exact List.length_dropWhile_le _ rest

theorem operator_length {x : CmpOp × List Char} (h : operator c rest = some x) :
    x.2.length ≤ rest.length := by
  unfold operator at h
  split at h
  all_goals
    first
    | cases h
      simp
    | cases h

theorem word_ok {x : Token × List Char} (h : word lib c rest = .ok x) :
    x.2.length ≤ rest.length ∧ x.1 ≠ .eof := by
  unfold word at h
  split at h
  · split at h
    · cases h
      exact ⟨numeral_length lib rest, nofun⟩
    · cases h
  · split at h
    · rename_i digit
      cases h
      exact ⟨numeral_cons_length lib digit rest, nofun⟩
    · split at h
      · rename_i begins
        cases h
        refine ⟨ident_length lib ?_ rest, nofun⟩
        rcases begins with rfl | letter
        · rfl
        · simp [identRune, letter]
      · cases h

theorem punctuation_ne {t : Token} (h : punctuation c = some t) : t ≠ .eof := by
  unfold punctuation at h
  split at h
  all_goals cases h
  all_goals nofun

/-- What a turn leaves is no longer than what it was given after its character, and the end marker is
never one of its tokens. -/
theorem lexeme_ok {x : Option Token × List Char} (h : lexeme lib c rest = .ok x) :
    x.2.length ≤ rest.length ∧ x.1 ≠ some .eof := by
  unfold lexeme at h
  split at h
  · cases h
    exact ⟨Nat.le_refl _, nofun⟩
  · split at h
    · cases found : quoted rest with
      | none =>
        rw [found] at h
        cases h
      | some y =>
        rw [found] at h
        cases h
        exact ⟨(quoted_length found).le, nofun⟩
    · cases mark : punctuation c with
      | some t =>
        rw [mark] at h
        cases h
        exact ⟨Nat.le_refl _, fun eq => punctuation_ne mark (Option.some.inj eq)⟩
      | none =>
        cases sign : operator c rest with
        | some y =>
          rw [mark, sign] at h
          cases h
          exact ⟨operator_length sign, nofun⟩
        | none =>
          rw [mark, sign] at h
          cases found : word lib c rest with
          | error stop =>
            rw [found] at h
            cases h
          | ok y =>
            rw [found] at h
            cases h
            obtain ⟨shorter, other⟩ := word_ok lib found
            exact ⟨shorter, fun eq => other (Option.some.inj eq)⟩

/-- A turn refuses its text or takes it; it has no other way to stop. -/
theorem lexeme_error {stop : Stop String} (h : lexeme lib c rest = .error stop) :
    ∃ why, stop = .refused why := by
  unfold lexeme word unexpected at h
  repeat' split at h
  all_goals
    first
    | cases h
      exact ⟨_, rfl⟩
    | cases h

/-! ### The loop -/

theorem lexLoop_cons (fuel : Nat) (c : Char) (rest : List Char) :
    lexLoop lib (fuel + 1) (c :: rest) =
      match lexeme lib c rest with
      | .error stop => .error stop
      | .ok x => (lexLoop lib fuel x.2).map fun toks => x.1.toList ++ toks := by
  rw [lexLoop]
  cases lexeme lib c rest with
  | error stop => rfl
  | ok x => cases lexLoop lib fuel x.2 <;> rfl

/-- More turns than characters make no difference. -/
theorem lexLoop_congr {n m : Nat} (enough : cs.length ≤ n) (enough' : cs.length ≤ m) :
    lexLoop lib n cs = lexLoop lib m cs := by
  induction n generalizing m cs with
  | zero =>
    rw [List.length_eq_zero_iff.mp (Nat.le_zero.mp enough), lexLoop, lexLoop]
  | succ n ih =>
    cases cs with
    | nil => rw [lexLoop, lexLoop]
    | cons c rest =>
      cases m with
      | zero => cases enough'
      | succ m =>
        rw [lexLoop_cons, lexLoop_cons]
        cases found : lexeme lib c rest with
        | error stop => rfl
        | ok x =>
          have shorter := (lexeme_ok lib found).1
          rw [List.length_cons] at enough enough'
          dsimp only
          rw [ih (m := m) (by omega) (by omega)]

theorem lex_nil : lex lib [] = .ok [.eof] := rfl

theorem lex_cons (c : Char) (rest : List Char) :
    lex lib (c :: rest) =
      match lexeme lib c rest with
      | .error stop => .error stop
      | .ok x => (lex lib x.2).map fun toks => x.1.toList ++ toks := by
  rw [lex, List.length_cons, lexLoop_cons]
  cases found : lexeme lib c rest with
  | error stop => rfl
  | ok x =>
    have shorter := (lexeme_ok lib found).1
    dsimp only
    rw [lex, lexLoop_congr lib shorter (Nat.le_refl _)]

/-- The lexer refuses its text or reads it, and the tokens it reads end with the end marker. -/
theorem lex_ends (cs : List Char) :
    (∃ toks, lex lib cs = .ok toks ∧ Marked .eof toks) ∨ ∃ why, lex lib cs = .error (.refused why) := by
  induction n : cs.length using Nat.strong_induction_on generalizing cs with
  | h n ih =>
    cases cs with
    | nil => exact .inl ⟨_, lex_nil lib, [], rfl, nofun⟩
    | cons c rest =>
      rw [lex_cons]
      cases found : lexeme lib c rest with
      | error stop =>
        obtain ⟨why, rfl⟩ := lexeme_error lib found
        exact .inr ⟨why, rfl⟩
      | ok x =>
        obtain ⟨shorter, other⟩ := lexeme_ok lib found
        rw [List.length_cons] at n
        rcases ih x.2.length (by omega) x.2 rfl with ⟨toks, read, body, rfl, absent⟩ | ⟨why, read⟩
        · refine .inl ⟨x.1.toList ++ (body ++ [.eof]), ?_, x.1.toList ++ body, ?_, ?_⟩
          · dsimp only
            rw [read]
            rfl
          · rw [List.append_assoc]
          · intro mem
            rcases List.mem_append.mp mem with mem | mem
            · exact other (Option.mem_toList.mp mem)
            · exact absent mem
        · right
          refine ⟨why, ?_⟩
          dsimp only
          rw [read]
          rfl

end D9Store.S3Select
