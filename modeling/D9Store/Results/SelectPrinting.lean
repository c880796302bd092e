import D9Store.Posix.Prog
import D9Store.S3Select.Parser
import D9Store.S3Select.Printer

/-!
Parsing a statement that selects everything.

The tokens of `SELECT * FROM S3Object`, with or without a condition, are read clause by clause:
`statement_star` says what the statement is once its condition is known.
-/

namespace D9Store.S3Select

open Text Descent Posix

variable {F α : Type} {lib : Lib F} {toks rest : List Token} {pos fuel next : Nat} {t : Token}

theorem isKeyword_bind {kw : String} (at_ : At toks pos (t :: rest)) (f : Bool → Parse α) :
    (isKeyword kw >>= f) toks pos = f (t.isKeyword kw) toks pos :=
  bind_of_ok (show isKeyword kw toks pos = .ok (t.isKeyword kw, pos) from by
    rw [isKeyword, at_.peek_bind]
    rfl)

/-! ### The clauses of a statement -/

theorem parseProjection_star (at_ : At toks pos (.star :: t :: rest)) (after : t ≠ .comma)
    (enough : 0 < fuel) :
    parseProjection lib fuel toks pos = .ok ({ star := true }, pos + 1) := by
  have none_ : counts toks pos = .ok (false, pos) := by
    rw [counts, at_.peek_bind, if_neg (by nofun)]
    rfl
  have item : parseItem lib fuel {} toks pos = .ok ({ star := true }, pos + 1) := by
    rw [parseItem, bind_of_ok none_, if_neg (by nofun), at_.peek_bind, if_pos rfl,
      at_.next_bind (by simp)]
    rfl
  cases fuel with
  | zero => cases enough
  | succ fuel =>
    have loop : projectionLoop lib (fuel + 1) (fuel + 1) {} toks pos =
        .ok ({ star := true }, pos + 1) := by
      rw [projectionLoop, bind_of_ok item, at_.tail.peek_bind, if_neg after]
      rfl
    rw [parseProjection, bind_of_ok loop]
    rfl

theorem parseFrom_plain (at_ : At toks pos (.ident "S3Object" :: t :: rest))
    (after : t = .eof ∨ t = .ident "WHERE") (enough : 0 < fuel) :
    parseFrom fuel toks pos = .ok ("", pos + 1) := by
  have facts : t ≠ .lbracket ∧ t ≠ .dot ∧ t.isKeyword "AS" = false := by
    rcases after with rfl | rfl
    · decide
    · decide
  have brackets_ : optBrackets toks (pos + 1) = .ok ((), pos + 1) := by
    rw [optBrackets, at_.tail.peek_bind, if_neg facts.1]
    rfl
  have path : fromPath fuel toks (pos + 1) = .ok ((), pos + 1) := by
    cases fuel with
    | zero => cases enough
    | succ fuel =>
      rw [fromPath, at_.tail.peek_bind, if_neg facts.2.1]
      rfl
  have alias_ : optAlias toks (pos + 1) = .ok ("", pos + 1) := by
    rw [optAlias, at_.tail.peek_bind, if_neg (by rw [facts.2.2]; nofun)]
    rcases after with rfl | rfl
    · rfl
    · dsimp only
      rw [if_pos (by decide)]
      rfl
  rw [parseFrom, at_.next_bind (by simp), require_true (by decide), bind_of_ok brackets_,
    bind_of_ok path, alias_]

theorem parseLimit_none (at_ : At toks pos [.eof]) : parseLimit lib toks pos = .ok (-1, pos) := by
  rw [parseLimit, at_.peek_bind, if_neg (by nofun)]
  rfl

/-- A statement that selects everything, up to its condition. -/
theorem statement_star (at_ : At toks 0 (.ident "SELECT" :: .star :: .ident "FROM" ::
      .ident "S3Object" :: t :: rest)) (after : t = .eof ∨ t = .ident "WHERE") (enough : 0 < fuel)
    {where_ : Except (Stop String) (Option (PredExpr F))}
    (condition : Gives (parseWhere lib fuel) toks 4 where_ next) (last : At toks next [.eof]) :
    statement lib fuel toks 0 =
      where_.map fun w => ({ proj := { star := true }, where_ := w }, next) := by
  rw [statement, isKeyword_bind at_, require_true (by decide), at_.next_bind (by simp),
    bind_of_ok (parseProjection_star at_.tail (by nofun) enough), isKeyword_bind at_.tail.tail,
    require_true (by decide), at_.tail.tail.next_bind (by simp),
    bind_of_ok (parseFrom_plain at_.tail.tail.tail after enough), condition.bind]
  cases where_ with
  | error stop => rfl
  | ok w =>
    rw [except_ok_bind, bind_of_ok (parseLimit_none last), last.peek_bind,
      require_true (beq_self_eq_true _)]
    rfl

theorem reads_star : Reads lib ['*'] [.star] := fun _ _ => lex_of_lexeme rfl

theorem reads_table : Reads lib "S3Object".toList [.ident "S3Object"] := by
  apply reads_ident
  have letter (c : Char) (alpha : c.isAlpha = true) : lib.isLetter c = true := by
    have range := toNat_of_isAlpha alpha
    rw [lib.letter_ascii c (by omega)]
    exact alpha
  have each : "S3Object".toList.all (fun c => c.isAlpha || c == '3') = true := by decide
  have three : lib.isDigit '3' = true := by
    rw [lib.digit_ascii _ (by decide)]
    decide
  refine ⟨fun c head => ?_, by decide, fun c mem => ?_⟩
  · cases head
    exact .inr (letter 'S' (by decide))
  · rcases Bool.or_eq_true_iff.mp (List.all_eq_true.mp each c mem) with alpha | digit
    · simp [identRune, letter c alpha]
    · rw [beq_iff_eq.mp digit]
      simp [identRune, three]

end D9Store.S3Select
