import Mathlib

/-!
The parts of Go's `strings` and `unicode` packages that the front end compares text with.

Case conversion is given for the results it is used for, comparison with ASCII texts: besides the
ASCII letters, U+017F and U+212A fold to one, and U+0130 and U+212A have one as lower case.
-/

namespace D9Store.Text

/-- `unicode.IsSpace`. -/
def isSpace (c : Char) : Bool :=
  let n := c.toNat
  (9 ≤ n && n ≤ 13) || n == 0x20 || n == 0x85 || n == 0xA0 || n == 0x1680 ||
    (0x2000 ≤ n && n ≤ 0x200A) || n == 0x2028 || n == 0x2029 || n == 0x202F || n == 0x205F ||
    n == 0x3000

/-- `strings.TrimFunc`. -/
def trimBoth (drop : Char → Bool) (s : String) : String :=
  String.ofList ((s.toList.dropWhile drop).reverse.dropWhile drop).reverse

/-- `strings.TrimSpace`. -/
def trimSpace (s : String) : String := trimBoth isSpace s

/-- The representative of a rune's case-folding orbit. -/
def foldRune (c : Char) : Char :=
  if c.toNat = 0x17F then 'S' else if c.toNat = 0x212A then 'K' else c.toUpper

/-- `strings.EqualFold`. -/
def equalFold (s t : String) : Bool := s.toList.map foldRune == t.toList.map foldRune

def lowerRune (c : Char) : Char :=
  if c.toNat = 0x130 then 'i' else if c.toNat = 0x212A then 'k' else c.toLower

/-- `strings.ToLower`. -/
def toLower (s : String) : String := String.ofList (s.toList.map lowerRune)

/-- `strings.HasPrefix`. -/
def hasPrefix (s start : String) : Bool := start.toList.isPrefixOf s.toList

/-- `strings.TrimPrefix`. -/
def trimPrefix (s start : String) : String :=
  if hasPrefix s start then String.ofList (s.toList.drop start.toList.length) else s

/-- `strings.HasSuffix`. -/
def hasSuffix (s ending : String) : Bool := ending.toList.isSuffixOf s.toList

/-- `strings.Split` at one character. -/
def split (s : String) (at_ : Char) : List String := (s.toList.splitOn at_).map String.ofList

/-- `strings.Join`. -/
def join (parts : List String) (sep : String) : String :=
  String.ofList (List.intercalate sep.toList (parts.map String.toList))

/-- `strings.ReplaceAll` of one character. -/
def replaceAll (s : String) (old : Char) (new : String) : String :=
  String.ofList (s.toList.flatMap fun c => if c = old then new.toList else [c])

/-- `strconv.Atoi`, where an `int` has 64 bits. -/
def atoi (s : String) : Option Int :=
  match s.toList with
  | '+' :: digits => bounded (digits.foldlM digit 0) digits
  | '-' :: digits => bounded ((digits.foldlM digit 0).map Neg.neg) digits
  | digits => bounded (digits.foldlM digit 0) digits
where
  digit (n : Int) (c : Char) : Option Int :=
    if c.isDigit then some (10 * n + (c.toNat - 48)) else none
  bounded (n : Option Int) (digits : List Char) : Option Int :=
    if digits = [] then none else n.bind fun n => if -2 ^ 63 ≤ n ∧ n < 2 ^ 63 then some n else none

end D9Store.Text
