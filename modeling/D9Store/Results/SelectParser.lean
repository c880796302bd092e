import D9Store.S3Select.Execute

/-!
The parser of S3 Select stays inside its tokens and ends.

Each part of the parser moves its index forward, so the steps it is given are enough, and looks one
token ahead only from a token that is not the end marker.
-/

namespace D9Store.S3Select

open Text Descent Posix

variable {F α : Type} {lib : Lib F} {toks : List Token} {pos fuel turns : Nat} {t : Token}
    {kw : String} {R : α → Nat → Prop} {primary operand : Parse (PredExpr F)} {proj : Projection F}
    {q : Query F}

/-- The parser has moved forward, and not past the end. -/
def Advances (toks : List Token) (pos : Nat) (_ : α) (next : Nat) : Prop :=
  pos < next ∧ next < toks.length

/-- The parser has not moved back, nor past the end. -/
def Stays (toks : List Token) (pos : Nat) (_ : α) (next : Nat) : Prop :=
  pos ≤ next ∧ next < toks.length

theorem ne_eof_of_isKeyword (h : t.isKeyword kw = true) : t ≠ .eof := by
  rintro rfl
  cases h

theorem safe_isKeyword {f : Bool → Parse α} (bound : pos < toks.length)
    (h : ∀ t, toks[pos]? = some t → Safe (f (t.isKeyword kw)) toks pos R) :
    Safe (isKeyword kw >>= f) toks pos R := by
  apply safe_bind
  apply safe_peek bound
  intro t found
  exact h t found

/-- Taking a token that is not the end marker. -/
theorem safe_take {f : Token → Parse α} (marked : Marked .eof toks) (found : toks[pos]? = some t)
    (other : t ≠ .eof) (h : pos + 1 < toks.length → Safe (f t) toks (pos + 1) R) :
    Safe (next >>= f) toks pos R :=
  safe_next found (marked.more found other) (h (marked.more found other))

/-! ### Values -/

theorem colRefLoop_safe (marked : Marked .eof toks) {parts : List String} (bound : pos < toks.length)
    (enough : toks.length ≤ pos + fuel) :
    Safe (colRefLoop fuel parts) toks pos (Stays toks pos) := by
  induction fuel generalizing pos parts with
  | zero => omega
  | succ fuel ih =>
    apply safe_peek bound
    intro t found
    split
    · rename_i dot
      refine safe_take marked found (by rw [dot]; nofun) fun bound' => ?_
      apply safe_peek bound'
      intro nt found'
      -- The name after the dot is taken, and the loop goes on two tokens further.
      have turn (other : nt ≠ .eof) (text : String) :
          Safe (next >>= fun _ => colRefLoop fuel (parts ++ [text])) toks (pos + 1)
            (Stays toks pos) := by
        refine safe_take marked found' other fun bound'' => ?_
        refine (ih bound'' (by omega)).mono fun _ next h => ?_
        exact ⟨by have := h.1; omega, h.2⟩
      cases nt with
      | ident text => exact turn nofun text
      | number text => exact turn nofun text
      | _ => exact safe_refuse
    · exact safe_pure ⟨Nat.le_refl _, bound⟩

theorem parseColRef_safe (marked : Marked .eof toks) (found : toks[pos]? = some t)
    (other : t ≠ .eof) (enough : toks.length ≤ pos + 1 + fuel) :
    Safe (parseColRef fuel : Parse (ValExpr F)) toks pos (Advances toks pos) := by
  refine safe_take marked found other fun bound => ?_
  apply (colRefLoop_safe marked bound enough).bind
  intro parts next h
  exact safe_pure ⟨by have := h.1; omega, h.2⟩

theorem parseType_safe (bound : pos < toks.length) :
    Safe (parseType lib) toks pos (Stays toks pos) := by
  apply safe_next_any bound
  intro t next found moved inside
  cases t with
  | ident text =>
    dsimp only
    split
    · exact safe_pure ⟨moved, inside⟩
    · exact safe_refuse
  | _ => exact safe_refuse

theorem parseCast_safe (marked : Marked .eof toks) (found : toks[pos]? = some t) (other : t ≠ .eof)
    {value : Parse (ValExpr F)} (inner : ∀ next, pos + 1 < next → next < toks.length →
      Safe value toks next (Advances toks next)) :
    Safe (parseCast lib value) toks pos (Advances toks pos) := by
  refine safe_take marked found other fun bound => ?_
  apply safe_peek bound
  intro t found
  apply safe_require
  intro paren
  rw [beq_iff_eq] at paren
  refine safe_take marked found (by rw [paren]; nofun) fun bound => ?_
  apply (inner _ (by omega) bound).bind
  intro e next h
  apply safe_isKeyword h.2
  intro t found
  apply safe_require
  intro as_
  refine safe_take marked found (ne_eof_of_isKeyword as_) fun bound => ?_
  apply (parseType_safe bound).bind
  intro typ next' h'
  apply safe_peek h'.2
  intro t found
  apply safe_require
  intro paren
  rw [beq_iff_eq] at paren
  refine safe_take marked found (by rw [paren]; nofun) fun bound => ?_
  exact safe_pure ⟨by have := h.1; have := h'.1; omega, bound⟩

theorem parseValue_safe (marked : Marked .eof toks) (bound : pos < toks.length)
    (enough : toks.length ≤ pos + fuel) :
    Safe (parseValue lib fuel) toks pos (Advances toks pos) := by
  induction fuel generalizing pos with
  | zero => omega
  | succ fuel ih =>
    apply safe_peek bound
    intro t found
    -- A literal is one token.
    have literal (other : t ≠ .eof) (e : ValExpr F) :
        Safe (next >>= fun _ => (pure e : Parse (ValExpr F))) toks pos (Advances toks pos) :=
      safe_take marked found other fun bound' => safe_pure ⟨Nat.lt_succ_self _, bound'⟩
    cases t with
    | string text => exact literal nofun _
    | number text =>
      refine safe_take marked found nofun fun bound' => ?_
      split
      · exact safe_refuse
      · exact safe_pure ⟨Nat.lt_succ_self _, bound'⟩
    | ident text =>
      dsimp only
      split
      · exact literal nofun _
      · split
        · exact literal nofun _
        · split
          · apply parseCast_safe marked found nofun
            intro next forward inside
            exact ih inside (by omega)
          · exact parseColRef_safe marked found nofun (by omega)
    | _ => exact safe_refuse

/-! ### Predicates -/

theorem negated_safe (marked : Marked .eof toks) (bound : pos < toks.length) :
    Safe negated toks pos (Stays toks pos) := by
  apply safe_peek bound
  intro t found
  split
  · rename_i not_
    have other := ne_eof_of_isKeyword not_
    apply safe_look (marked.more found other)
    intro u found'
    split
    · exact safe_take marked found other fun bound' => safe_pure ⟨Nat.le_succ _, bound'⟩
    · exact safe_pure ⟨Nat.le_refl _, bound⟩
  · exact safe_pure ⟨Nat.le_refl _, bound⟩

theorem comparison_safe (marked : Marked .eof toks) (bound : pos < toks.length)
    (enough : toks.length ≤ pos + fuel) (left : ValExpr F) :
    Safe (comparison lib fuel left) toks pos (Stays toks pos) := by
  apply (negated_safe marked bound).bind
  intro neg next ⟨moved, inside⟩
  apply safe_peek inside
  intro t found
  split
  · rename_i like
    refine safe_take marked found (ne_eof_of_isKeyword like) fun bound' => ?_
    apply safe_next_any bound'
    intro u next' found' moved' inside'
    cases u with
    | string pattern =>
      dsimp only
      split
      · exact safe_refuse
      · exact safe_pure ⟨by omega, inside'⟩
    | _ => exact safe_refuse
  · split
    · exact safe_refuse
    · cases t with
      | op o =>
        refine safe_take marked found nofun fun bound' => ?_
        apply (parseValue_safe marked bound' (by omega)).bind
        intro right next' h
        exact safe_pure ⟨by have := h.1; omega, h.2⟩
      | _ => exact safe_pure ⟨moved, inside⟩

theorem parsePrimaryPred_safe (marked : Marked .eof toks) (bound : pos < toks.length)
    (enough : toks.length ≤ pos + fuel) {inner : Parse (PredExpr F)}
    (nested : ∀ next, pos < next → next < toks.length → Safe inner toks next (Advances toks next)) :
    Safe (parsePrimaryPred lib fuel inner) toks pos (Advances toks pos) := by
  apply safe_peek bound
  intro t found
  split
  · rename_i paren
    refine safe_take marked found (by rw [paren]; nofun) fun bound' => ?_
    apply (nested _ (Nat.lt_succ_self _) bound').bind
    intro p next h
    apply safe_peek h.2
    intro u found'
    apply safe_require
    intro close
    rw [beq_iff_eq] at close
    refine safe_take marked found' (by rw [close]; nofun) fun bound'' => ?_
    exact safe_pure ⟨by have := h.1; omega, bound''⟩
  · apply (parseValue_safe marked bound enough).bind
    intro left next h
    have forward := h.1
    refine (comparison_safe marked h.2 (by omega) left).mono fun _ next' h' => ?_
    exact ⟨by have := h'.1; omega, h'.2⟩

theorem parseNot_safe (marked : Marked .eof toks) (bound : pos < toks.length)
    (enough : toks.length ≤ pos + fuel) (operand : ∀ next, pos ≤ next → next < toks.length →
      Safe primary toks next (Advances toks next)) :
    Safe (parseNot primary fuel) toks pos (Advances toks pos) := by
  induction fuel generalizing pos with
  | zero => omega
  | succ fuel ih =>
    apply safe_peek bound
    intro t found
    split
    · rename_i not_
      refine safe_take marked found (ne_eof_of_isKeyword not_) fun bound' => ?_
      apply (ih bound' (by omega) fun next forward => operand next (by omega)).bind
      intro inner next h
      exact safe_pure ⟨by have := h.1; omega, h.2⟩
    · exact operand pos (Nat.le_refl _) bound

theorem chain_safe (marked : Marked .eof toks) {join : PredExpr F → PredExpr F → PredExpr F}
    {left : PredExpr F} (bound : pos < toks.length) (enough : toks.length ≤ pos + fuel)
    (each : ∀ next, pos ≤ next → next < toks.length →
      Safe operand toks next (Advances toks next)) :
    Safe (chain kw join operand fuel left) toks pos (Stays toks pos) := by
  induction fuel generalizing pos left with
  | zero => omega
  | succ fuel ih =>
    apply safe_peek bound
    intro t found
    split
    · rename_i keyword
      refine safe_take marked found (ne_eof_of_isKeyword keyword) fun bound' => ?_
      apply (each _ (Nat.le_succ _) bound').bind
      intro right next h
      have forward := h.1
      refine (ih h.2 (by omega) fun next' forward' => each next' (by omega)).mono fun _ next' h' => ?_
      exact ⟨by have := h'.1; omega, h'.2⟩
    · exact safe_pure ⟨Nat.le_refl _, bound⟩

theorem parseAnd_safe (marked : Marked .eof toks) (bound : pos < toks.length)
    (enough : toks.length ≤ pos + fuel) (operand : ∀ next, pos ≤ next → next < toks.length →
      Safe primary toks next (Advances toks next)) :
    Safe (parseAnd fuel primary) toks pos (Advances toks pos) := by
  apply (parseNot_safe marked bound enough operand).bind
  intro left next h
  have forward := h.1
  refine (chain_safe marked h.2 (by omega) fun next' forward' inside => ?_).mono fun _ next' h' => ?_
  · exact parseNot_safe marked inside (by omega) fun next'' forward'' => operand next'' (by omega)
  · exact ⟨by have := h'.1; omega, h'.2⟩

theorem parseOr_safe (marked : Marked .eof toks) (bound : pos < toks.length)
    (enough : toks.length < pos + fuel) :
    Safe (parseOr lib fuel) toks pos (Advances toks pos) := by
  induction fuel generalizing pos with
  | zero => omega
  | succ fuel ih =>
    have operand (next : Nat) (forward : pos ≤ next) (inside : next < toks.length) :
        Safe (parseAnd fuel (parsePrimaryPred lib fuel (parseOr lib fuel))) toks next
          (Advances toks next) := by
      apply parseAnd_safe marked inside (by omega)
      intro next' forward' inside'
      apply parsePrimaryPred_safe marked inside' (by omega)
      intro next'' forward'' inside''
      exact ih inside'' (by omega)
    apply (operand pos (Nat.le_refl _) bound).bind
    intro left next h
    have forward := h.1
    refine (chain_safe marked h.2 (by omega) fun next' forward' => operand next' (by omega)).mono
      fun _ next' h' => ?_
    exact ⟨by have := h'.1; omega, h'.2⟩

/-! ### Clauses -/

theorem optAlias_safe (marked : Marked .eof toks) (bound : pos < toks.length) :
    Safe optAlias toks pos (Stays toks pos) := by
  apply safe_peek bound
  intro t found
  split
  · rename_i as_
    refine safe_take marked found (ne_eof_of_isKeyword as_) fun bound' => ?_
    apply safe_next_any bound'
    intro u next found' moved inside
    cases u with
    | _ => exact safe_pure ⟨by omega, inside⟩
  · cases t with
    | ident text =>
      dsimp only
      split
      · exact safe_pure ⟨Nat.le_refl _, bound⟩
      · exact safe_take marked found nofun fun bound' => safe_pure ⟨Nat.le_succ _, bound'⟩
    | _ => exact safe_pure ⟨Nat.le_refl _, bound⟩

theorem counts_safe (marked : Marked .eof toks) (bound : pos < toks.length) :
    Safe counts toks pos fun count next =>
      next = pos ∧ (count = true → pos + 2 < toks.length) := by
  apply safe_peek bound
  intro t found
  split
  · rename_i keyword
    have more := marked.more found (ne_eof_of_isKeyword keyword)
    apply safe_look more
    intro u found'
    refine safe_pure ⟨rfl, fun paren => ?_⟩
    exact marked.more found' (by rw [beq_iff_eq.mp paren]; nofun)
  · exact safe_pure ⟨rfl, nofun⟩

/-- Only a count has items without an expression. -/
def Counted (proj : Projection F) : Prop :=
  ∀ item ∈ proj.items, item.expr = none → proj.countStar = true

theorem parseItem_safe (marked : Marked .eof toks) (bound : pos < toks.length)
    (enough : toks.length ≤ pos + fuel) (counted : Counted proj) :
    Safe (parseItem lib fuel proj) toks pos fun proj' next =>
      Counted proj' ∧ Advances toks pos proj' next := by
  apply (counts_safe marked bound).bind
  rintro count next ⟨rfl, ahead⟩
  split
  · rename_i count
    have ahead := ahead count
    apply safe_next (List.getElem?_eq_getElem bound) (by omega)
    apply safe_next (List.getElem?_eq_getElem (by omega)) (by omega)
    apply safe_peek ahead
    intro t found
    apply safe_require
    intro star
    refine safe_take marked found (by rw [beq_iff_eq.mp star]; nofun) fun bound' => ?_
    apply safe_peek bound'
    intro u found'
    apply safe_require
    intro paren
    refine safe_take marked found' (by rw [beq_iff_eq.mp paren]; nofun) fun bound'' => ?_
    exact safe_pure ⟨fun _ _ _ => rfl, by omega, bound''⟩
  · apply safe_peek bound
    intro t found
    split
    · rename_i star
      refine safe_take marked found (by rw [star]; nofun) fun bound' => ?_
      exact safe_pure ⟨counted, Nat.lt_succ_self _, bound'⟩
    · apply (parseValue_safe marked bound enough).bind
      intro e p₁ h₁
      apply (optAlias_safe marked h₁.2).bind
      intro name p₂ h₂
      refine safe_pure ⟨fun item mem missing => ?_, by have := h₁.1; have := h₂.1; omega, h₂.2⟩
      rcases List.mem_append.mp mem with mem | mem
      · exact counted item mem missing
      · rw [List.mem_singleton.mp mem] at missing
        cases missing

theorem projectionLoop_safe (marked : Marked .eof toks) (bound : pos < toks.length)
    (enough : toks.length ≤ pos + fuel) (enough' : toks.length ≤ pos + turns)
    (counted : Counted proj) :
    Safe (projectionLoop lib fuel turns proj) toks pos fun proj' next =>
      Counted proj' ∧ Advances toks pos proj' next := by
  induction turns generalizing pos proj with
  | zero => omega
  | succ turns ih =>
    apply (parseItem_safe marked bound enough counted).bind
    intro proj' next ⟨counted', h⟩
    have forward := h.1
    apply safe_peek h.2
    intro t found
    split
    · rename_i comma
      refine safe_take marked found (by rw [comma]; nofun) fun bound' => ?_
      refine (ih bound' (by omega) (by omega) counted').mono fun _ next' ⟨counted'', h'⟩ => ?_
      exact ⟨counted'', by have := h'.1; omega, h'.2⟩
    · exact safe_pure ⟨counted', h⟩

theorem parseProjection_safe (marked : Marked .eof toks) (bound : pos < toks.length)
    (enough : toks.length ≤ pos + fuel) :
    Safe (parseProjection lib fuel) toks pos fun proj next =>
      Counted proj ∧ Advances toks pos proj next := by
  apply (projectionLoop_safe marked bound enough enough fun _ mem => absurd mem List.not_mem_nil).bind
  intro proj next h
  apply safe_require
  intro _
  exact safe_pure h

theorem brackets_safe (marked : Marked .eof toks) (bound : pos < toks.length) :
    Safe brackets toks pos (Stays toks pos) := by
  apply safe_peek bound
  intro t found
  cases t with
  | star => exact safe_take marked found nofun fun bound' => safe_pure ⟨Nat.le_succ _, bound'⟩
  | number text => exact safe_take marked found nofun fun bound' => safe_pure ⟨Nat.le_succ _, bound'⟩
  | _ => exact safe_pure ⟨Nat.le_refl _, bound⟩

theorem optBrackets_safe (marked : Marked .eof toks) (bound : pos < toks.length) :
    Safe optBrackets toks pos (Stays toks pos) := by
  apply safe_peek bound
  intro t found
  split
  · rename_i open_
    refine safe_take marked found (by rw [open_]; nofun) fun bound' => ?_
    apply (brackets_safe marked bound').bind
    intro _ next h
    apply safe_peek h.2
    intro u found'
    apply safe_require
    intro close
    refine safe_take marked found' (by rw [beq_iff_eq.mp close]; nofun) fun bound'' => ?_
    exact safe_pure ⟨by have := h.1; omega, bound''⟩
  · exact safe_pure ⟨Nat.le_refl _, bound⟩

theorem fromPath_safe (marked : Marked .eof toks) (bound : pos < toks.length)
    (enough : toks.length ≤ pos + fuel) : Safe (fromPath fuel) toks pos (Stays toks pos) := by
  induction fuel generalizing pos with
  | zero => omega
  | succ fuel ih =>
    apply safe_peek bound
    intro t found
    split
    · rename_i dot
      refine safe_take marked found (by rw [dot]; nofun) fun bound' => ?_
      apply safe_peek bound'
      intro u found'
      cases u with
      | ident text =>
        refine safe_take marked found' nofun fun bound'' => ?_
        refine (ih bound'' (by omega)).mono fun _ next h => ?_
        exact ⟨by have := h.1; omega, h.2⟩
      | _ => exact safe_refuse
    · exact safe_pure ⟨Nat.le_refl _, bound⟩

theorem parseFrom_safe (marked : Marked .eof toks) (bound : pos < toks.length)
    (enough : toks.length ≤ pos + fuel) : Safe (parseFrom fuel) toks pos (Stays toks pos) := by
  apply safe_next_any bound
  intro t p₁ _ moved inside
  apply safe_require
  intro _
  apply (optBrackets_safe marked inside).bind
  intro _ p₂ h₂
  have forward := h₂.1
  apply (fromPath_safe marked h₂.2 (by omega)).bind
  intro _ p₃ h₃
  refine (optAlias_safe marked h₃.2).mono fun _ p₄ h₄ => ?_
  exact ⟨by have := h₃.1; have := h₄.1; omega, h₄.2⟩

theorem parseWhere_safe (marked : Marked .eof toks) (bound : pos < toks.length)
    (enough : toks.length ≤ pos + fuel) : Safe (parseWhere lib fuel) toks pos (Stays toks pos) := by
  apply safe_peek bound
  intro t found
  split
  · rename_i where_
    refine safe_take marked found (ne_eof_of_isKeyword where_) fun bound' => ?_
    apply (parseOr_safe marked bound' (by omega)).bind
    intro w next h
    exact safe_pure ⟨by have := h.1; omega, h.2⟩
  · exact safe_pure ⟨Nat.le_refl _, bound⟩

theorem parseLimit_safe (marked : Marked .eof toks) (bound : pos < toks.length) :
    Safe (parseLimit lib) toks pos (Stays toks pos) := by
  apply safe_peek bound
  intro t found
  split
  · rename_i limit
    refine safe_take marked found (ne_eof_of_isKeyword limit) fun bound' => ?_
    apply safe_next_any bound'
    intro u next _ moved inside
    cases u with
    | number text =>
      dsimp only
      split
      · split
        · exact safe_refuse
        · exact safe_pure ⟨by omega, inside⟩
      · exact safe_refuse
    | _ => exact safe_refuse
  · exact safe_pure ⟨Nat.le_refl _, bound⟩

/-- A statement that is accepted ends at the end marker. -/
theorem statement_safe (marked : Marked .eof toks) (enough : toks.length ≤ fuel) :
    Safe (statement lib fuel) toks 0 fun q next =>
      Counted q.proj ∧ next + 1 = toks.length ∧ toks[next]? = some .eof := by
  have bound : 0 < toks.length := by
    obtain ⟨body, rfl, -⟩ := marked
    simp
  apply safe_isKeyword bound
  intro t found
  apply safe_require
  intro select
  refine safe_take marked found (ne_eof_of_isKeyword select) fun bound => ?_
  apply (parseProjection_safe marked bound (by omega)).bind
  intro proj p₁ ⟨counted, h₁⟩
  apply safe_isKeyword h₁.2
  intro t found
  apply safe_require
  intro from_
  refine safe_take marked found (ne_eof_of_isKeyword from_) fun bound => ?_
  apply (parseFrom_safe marked bound (by omega)).bind
  intro alias_ p₂ h₂
  apply (parseWhere_safe marked h₂.2 (by omega)).bind
  intro where_ p₃ h₃
  apply (parseLimit_safe marked h₃.2).bind
  intro limit p₄ h₄
  apply safe_peek h₄.2
  intro t found
  apply safe_require
  intro end_
  rw [beq_iff_eq.mp end_] at found
  exact safe_pure ⟨counted, marked.last found, found⟩

/-! ### Missing expressions -/

theorem handle_ne_nilExpr (counted : Counted q.proj) (out : Output) (st : Progress)
    (rec_ : Record F) : handle lib out q st rec_ ≠ .error .nilExpr := by
  intro failed
  obtain ⟨ok, passed⟩ := passes_ok lib q rec_
  rw [handle, passed, except_ok_bind] at failed
  split at failed
  · cases failed
  · split at failed
    · cases failed
    · split at failed
      · cases failed
      · rename_i notCount
        cases row : writeRow lib out q rec_ with
        | ok text =>
          rw [row] at failed
          cases failed
        | error err =>
          rw [row] at failed
          cases failed
          rcases writeRow_error row with ⟨-, item, mem, missing⟩ | other
          · exact notCount (counted item mem missing)
          · cases other

theorem deliver_ne_nilExpr (counted : Counted q.proj) (out : Output) {last : Option ExecErr}
    (ends : last ≠ some .nilExpr) (records : List (Record F)) (st : Progress) :
    (deliver lib out q last records st).2 ≠ some .nilExpr := by
  induction records generalizing st with
  | nil => exact ends
  | cons rec_ rest ih =>
    rw [deliver]
    cases next : handle lib out q st rec_ with
    | ok st' => exact ih st'
    | error err =>
      intro eq
      rw [Option.some.inj eq] at next
      exact handle_ne_nilExpr counted out st rec_ next

theorem runQuery_ne_nilExpr (counted : Counted q.proj) (out : Output)
    {delivered : List (Record F) × Option ExecErr} (ends : delivered.2 ≠ some .nilExpr) :
    runQuery lib out q delivered ≠ .error .nilExpr := by
  have fine : (deliver lib out q delivered.2 delivered.1 {}).2 ≠ some .nilExpr :=
    deliver_ne_nilExpr counted out ends delivered.1 {}
  intro failed
  unfold runQuery at failed
  dsimp only at failed
  split at failed
  · cases failed
  · rename_i notDone
    cases eq : (deliver lib out q delivered.2 delivered.1 {}).2 with
    | none => exact notDone (.inl eq)
    | some err =>
      rw [eq] at failed fine
      cases failed
      exact fine rfl

/-! ### The parser as a whole -/

theorem parse_ok {sql : List Char} (h : parse lib sql = .ok q) :
    ∃ toks next, lex lib sql = .ok toks ∧ parseTokens lib toks = .ok (q, next) := by
  obtain ⟨toks, read, rest⟩ := except_bind_ok h
  obtain ⟨x, parsed, eq⟩ := except_bind_ok rest
  cases eq
  exact ⟨toks, x.2, read, parsed⟩

/-- The parser refuses a statement or accepts it; it is never out of steps, nor out of its tokens. -/
theorem parse_ends (lib : Lib F) (sql : List Char) :
    (∃ q, parse lib sql = .ok q) ∨ ∃ why, parse lib sql = .error (.refused why) := by
  unfold parse
  rcases lex_ends lib sql with ⟨toks, read, marked⟩ | ⟨why, read⟩
  · rw [read, except_ok_bind]
    have safe : Safe (statement lib (toks.length + 1)) toks 0 _ :=
      statement_safe marked (Nat.le_succ _)
    cases run : parseTokens lib toks with
    | ok x => exact .inl ⟨x.1, rfl⟩
    | error stop =>
      cases stop with
      | refused why => exact .inr ⟨why, rfl⟩
      | outOfRange => exact absurd run safe.in_range
      | spent => exact absurd run safe.not_spent
  · exact .inr ⟨why, by rw [read]; rfl⟩

/-- Lexing and parsing always end inside their tokens. A statement that is accepted is read up to the
end marker, only a count has items without an expression, and such an item is evaluated on no
record. -/
theorem select_parser_total (lib : Lib F) (sql : List Char) :
    ((∃ toks, lex lib sql = .ok toks ∧ Marked .eof toks) ∨
      ∃ why, lex lib sql = .error (.refused why)) ∧
    ((∃ q, parse lib sql = .ok q) ∨ ∃ why, parse lib sql = .error (.refused why)) ∧
    ∀ q, parse lib sql = .ok q →
      (∃ toks next, lex lib sql = .ok toks ∧ parseTokens lib toks = .ok (q, next) ∧
        next + 1 = toks.length ∧ toks[next]? = some .eof) ∧
      (∀ item ∈ q.proj.items, item.expr = none → q.proj.countStar = true) ∧
      (∀ out st rec_, handle lib out q st rec_ ≠ .error .nilExpr) ∧
      ∀ inp out src, execute lib sql inp out src ≠ .error .nilExpr := by
  refine ⟨lex_ends lib sql, parse_ends lib sql, fun q accepted => ?_⟩
  obtain ⟨toks, next, read, parsed⟩ := parse_ok accepted
  have marked : Marked .eof toks := by
    rcases lex_ends lib sql with ⟨toks', read', marked⟩ | ⟨why, read'⟩
    · rw [read] at read'
      cases read'
      exact marked
    · rw [read] at read'
      cases read'
  obtain ⟨counted, last, end_⟩ := (statement_safe marked (Nat.le_succ _)).ok parsed
  refine ⟨⟨toks, next, read, parsed, last, end_⟩, counted, handle_ne_nilExpr counted, ?_⟩
  intro inp out src
  rw [execute, accepted]
  dsimp only
  split
  · nofun
  · rename_i text _
    split
    · apply runQuery_ne_nilExpr counted
      unfold readCSV
      dsimp only
      repeat' split
      all_goals nofun
    · split
      · apply runQuery_ne_nilExpr counted
        cases eq : (lib.readJSON (equalFold inp.jsonType "LINES") text).2 <;> simp [readJSON, eq]
      · nofun

/-- A count with another item beside it has an item without an expression. -/
theorem count_with_item_total :
    ∃ q, parse smallLib "SELECT COUNT(*), a.b FROM S3Object s WHERE NOT (s.a NOT LIKE 'x%')".toList =
        .ok q ∧
      (∃ item ∈ q.proj.items, item.expr = none) ∧
      ∀ out st rec_, handle smallLib out q st rec_ ≠ .error .nilExpr := by
  let items : List (ProjItem Int) := [{ name := "_1" }, { expr := some (.colRef ["a", "b"]), name := "b" }]
  have parsed : (parse smallLib
      "SELECT COUNT(*), a.b FROM S3Object s WHERE NOT (s.a NOT LIKE 'x%')".toList).map
        (fun q => q.proj.items) = .ok items := by decide +kernel
  cases accepted : parse smallLib
      "SELECT COUNT(*), a.b FROM S3Object s WHERE NOT (s.a NOT LIKE 'x%')".toList with
  | error stop =>
    rw [accepted] at parsed
    cases parsed
  | ok q =>
    rw [accepted] at parsed
    have found : q.proj.items = items := Except.ok.inj parsed
    obtain ⟨-, -, sound⟩ := select_parser_total smallLib
      "SELECT COUNT(*), a.b FROM S3Object s WHERE NOT (s.a NOT LIKE 'x%')".toList
    refine ⟨q, rfl, ⟨{ name := "_1" }, ?_, rfl⟩, (sound q accepted).2.2.1⟩
    rw [found]
    exact List.mem_cons_self ..

end D9Store.S3Select
