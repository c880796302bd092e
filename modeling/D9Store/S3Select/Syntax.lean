import D9Store.Text
import D9Store.Text.Utf8
import D9Store.Text.Wildcard
import D9Store.Types

/-!
The language of S3 Select (`internal/s3select`): its tokens, and the trees its parser builds
(`parser.go`, `sql.go`).

Numbers are `float64` in Go; here their type is a parameter, with what the package asks of it and of
the character tables of Go in `Lib`.
-/

namespace D9Store.S3Select

open Text

/-- `tOp`: the comparison operators. -/
inductive CmpOp where
  | eq
  | ltgt
  | bangEq
  | lt
  | gt
  | le
  | ge
  deriving DecidableEq, Repr

def CmpOp.text : CmpOp → String
  | .eq => "="
  | .ltgt => "<>"
  | .bangEq => "!="
  | .lt => "<"
  | .gt => ">"
  | .le => "<="
  | .ge => ">="

/-- `token`, with the text of those that have one of their own. -/
inductive Token where
  | eof
  | ident (text : String)
  | string (text : String)
  | number (text : String)
  | op (o : CmpOp)
  | lparen
  | rparen
  | comma
  | dot
  | star
  | lbracket
  | rbracket
  deriving DecidableEq, Repr

/-- `token.text`. -/
def Token.text : Token → String
  | .eof => ""
  | .ident text => text
  | .string text => text
  | .number text => text
  | .op o => o.text
  | .lparen => "("
  | .rparen => ")"
  | .comma => ","
  | .dot => "."
  | .star => "*"
  | .lbracket => "["
  | .rbracket => "]"

def upperRune (c : Char) : Char :=
  if c.toNat = 0x131 then 'I' else if c.toNat = 0x17F then 'S' else c.toUpper

/-- `strings.ToUpper`, as far as words in ASCII tell. -/
def toUpper (s : String) : String := String.ofList (s.toList.map upperRune)

/-- `parser.isKeyword`, of a token. -/
def Token.isKeyword (kw : String) : Token → Bool
  | .ident text => equalFold text kw
  | _ => false

/-- The types a value can be cast to, under the name the parser gives them. -/
inductive CastType where
  | int
  | float
  | string
  deriving DecidableEq, Repr

/-- `valExpr`. -/
inductive ValExpr (F : Type) where
  | colRef (parts : List String)
  | strLit (s : String)
  | numLit (f : F)
  | boolLit (b : Bool)
  | castExpr (inner : ValExpr F) (typ : CastType)
  deriving DecidableEq

/-- `colRef.name`. -/
def colRefName (parts : List String) : String := parts.getLast?.getD ""

/-- `predExpr`. -/
inductive PredExpr (F : Type) where
  | andPred (a b : PredExpr F)
  | orPred (a b : PredExpr F)
  | notPred (inner : PredExpr F)
  | cmpPred (left right : ValExpr F) (op : CmpOp)
  | likePred (left : ValExpr F) (re : Bool × List Regexp.Item) (neg : Bool)
  | truthPred (expr : ValExpr F)
  deriving DecidableEq

/-- `projItem`; an item without an expression stands for `COUNT(*)`. -/
structure ProjItem (F : Type) where
  expr : Option (ValExpr F) := none
  name : String
  deriving DecidableEq

/-- `projection`. -/
structure Projection (F : Type) where
  star : Bool := false
  countStar : Bool := false
  items : List (ProjItem F) := []
  deriving DecidableEq

/-- `query`. -/
structure Query (F : Type) where
  proj : Projection F := {}
  alias_ : String := ""
  where_ : Option (PredExpr F) := none
  /-- -1 when there is no limit. -/
  limit : Int := -1
  deriving DecidableEq

/-! ### Patterns -/

def likeAlphabet : Wildcard.Alphabet where
  many := '%'
  single := '_'
  distinct := by decide
  many_ne := by decide
  single_ne := by decide

/-- The loop of `likeToRegexp`; `lit` is the run of ordinary characters that is still to be quoted. -/
def likeBody (lit : List Char) : List Char → List Char
  | [] => Regexp.quoteMeta lit
  | r :: rest =>
    if r = '%' then Regexp.quoteMeta lit ++ '.' :: '*' :: likeBody [] rest
    else if r = '_' then Regexp.quoteMeta lit ++ '.' :: likeBody [] rest
    else likeBody (lit ++ [r]) rest

/-- `likeToRegexp`. -/
def likeToRegexp (pattern : String) : Option (Bool × List Regexp.Item) :=
  Regexp.compile ('^' :: likeBody [] pattern.toList ++ ['$'])

theorem likeBody_eq (lit pattern : List Char) :
    likeBody lit pattern = Regexp.quoteMeta lit ++ Wildcard.body likeAlphabet pattern := by
  induction pattern generalizing lit with
  | nil => rw [likeBody, Wildcard.body, List.flatMap_nil, List.append_nil]
  | cons r rest ih =>
    rw [likeBody, Wildcard.body, List.flatMap_cons, ← Wildcard.body]
    by_cases many : r = '%'
    · rw [if_pos many, if_pos (show r = likeAlphabet.many from many), ih]
      simp
    by_cases single : r = '_'
    · rw [if_neg many, if_pos single, if_neg (show ¬ r = likeAlphabet.many from many),
        if_pos (show r = likeAlphabet.single from single), ih]
      simp
    · rw [if_neg many, if_neg single, if_neg (show ¬ r = likeAlphabet.many from many),
        if_neg (show ¬ r = likeAlphabet.single from single), ih, Regexp.quoteMeta_append,
        List.append_assoc]

/-- Every pattern has an expression. -/
theorem likeToRegexp_eq (pattern : String) :
    likeToRegexp pattern =
      some (false, .start :: pattern.toList.map (Wildcard.item likeAlphabet) ++ [.stop]) := by
  have parsed := Wildcard.parse_expression (a := likeAlphabet) pattern.toList
  have expression : '^' :: likeBody [] pattern.toList ++ ['$'] =
      Wildcard.expression likeAlphabet pattern.toList := by
    rw [likeBody_eq]
    rfl
  rw [likeToRegexp, expression, Wildcard.expression, List.cons_append, Regexp.compile]
  · exact congrArg (Option.map fun items => (false, items)) parsed
  · nofun

/-! ### The libraries of Go -/

/-- A decoded value (`any`). -/
inductive Value (F : Type) where
  | null
  | bool (b : Bool)
  | str (s : Bytes)
  | num (f : F)
  | arr (items : List (Value F))
  | obj (fields : List (Bytes × Value F))

/-- What the package takes from the libraries of Go. The laws tie the character tables to ASCII, and
keep letters, digits and spaces apart. -/
structure Lib (F : Type) where
  /-- `unicode.IsLetter` and `unicode.IsDigit`. -/
  isLetter : Char → Bool
  isDigit : Char → Bool
  /-- `%q`. -/
  quote : String → String
  /-- `strconv.ParseFloat` and `strconv.FormatFloat`. -/
  parseFloat : Bytes → Option F
  formatFloat : F → Bytes
  less : F → F → Bool
  equal : F → F → Bool
  zero : F
  /-- `float64(int64(f))`. -/
  truncate : F → F
  /-- `%v` of an array or an object. -/
  sprint : Value F → Bytes
  /-- `json.Marshal`; a number that is not finite has no text. -/
  marshal : Value F → Option Bytes
  /-- The characters of a text, as a loop over it finds them. -/
  runes : Bytes → List Char
  /-- `gzip`. -/
  gunzip : Bytes → Option Bytes
  /-- The values of a JSON text, by lines or as a document, and the error that ends them. -/
  readJSON : Bool → Bytes → List (Value F) × Option String
  marshal_str : ∀ s, (marshal (.str s)).isSome = true
  letter_ascii : ∀ c : Char, c.toNat < 128 → isLetter c = c.isAlpha
  digit_ascii : ∀ c : Char, c.toNat < 128 → isDigit c = c.isDigit
  letter_not_space : ∀ c, isLetter c = true → isSpace c = false
  digit_not_space : ∀ c, isDigit c = true → isSpace c = false
  letter_not_digit : ∀ c, isLetter c = true → isDigit c = false

variable {c : Char}

theorem isSpace_of_visible (low : 0x20 < c.toNat) (high : c.toNat < 0x85) : isSpace c = false := by
  simp only [isSpace, Bool.or_eq_false_iff, Bool.and_eq_false_iff, decide_eq_false_iff_not,
    beq_eq_false_iff_ne]
  omega

theorem toNat_of_isAlpha (h : c.isAlpha = true) :
    (65 ≤ c.toNat ∧ c.toNat ≤ 90) ∨ (97 ≤ c.toNat ∧ c.toNat ≤ 122) := by
  simp only [Char.isAlpha, Char.isUpper, Char.isLower, Bool.or_eq_true, Bool.and_eq_true,
    decide_eq_true_eq, ge_iff_le, UInt32.le_iff_toNat_le] at h
  exact h

theorem toNat_of_isDigit (h : c.isDigit = true) : 48 ≤ c.toNat ∧ c.toNat ≤ 57 := by
  simp only [Char.isDigit, Bool.and_eq_true, decide_eq_true_eq, ge_iff_le,
    UInt32.le_iff_toNat_le] at h
  exact h

/-- Letters of ASCII, digits of ASCII and those of Arabic, and whole numbers. -/
def smallLib : Lib Int where
  isLetter c := c.isAlpha
  isDigit c := c.isDigit || (0x660 ≤ c.toNat && c.toNat ≤ 0x669)
  quote s := "\"" ++ s ++ "\""
  parseFloat text := atoi (String.ofList (text.map fun b => Char.ofNat b.toNat))
  formatFloat n := Utf8.encode (toString n)
  less a b := a < b
  equal a b := a == b
  zero := 0
  truncate n := n
  sprint _ := []
  marshal
    | .str s => some (34 :: s ++ [34])
    | .num n => some (Utf8.encode (toString n))
    | .bool b => some (Utf8.encode (if b then "true" else "false"))
    | _ => some (Utf8.encode "null")
  runes text := text.map fun b => Char.ofNat b.toNat
  gunzip _ := none
  readJSON _ _ := ([], none)
  marshal_str _ := rfl
  letter_ascii _ _ := rfl
  digit_ascii c low := by
    have : ¬ 0x660 ≤ c.toNat := by omega
    simp [this]
  letter_not_space c letter := by
    have := toNat_of_isAlpha letter
    exact isSpace_of_visible (by omega) (by omega)
  digit_not_space c digit := by
    rcases Bool.or_eq_true_iff.mp digit with ascii | arabic
    · have := toNat_of_isDigit ascii
      exact isSpace_of_visible (by omega) (by omega)
    · simp only [Bool.and_eq_true, decide_eq_true_eq] at arabic
      simp only [isSpace, Bool.or_eq_false_iff, Bool.and_eq_false_iff, decide_eq_false_iff_not,
        beq_eq_false_iff_ne]
      omega
  letter_not_digit c letter := by
    have range := toNat_of_isAlpha letter
    rw [Bool.or_eq_false_iff]
    constructor
    · rw [Bool.eq_false_iff]
      intro digit
      have := toNat_of_isDigit digit
      omega
    · simp only [Bool.and_eq_false_iff, decide_eq_false_iff_not]
      omega

end D9Store.S3Select
