import D9Store.Auth.Chunked
import D9Store.Posix.Prog
import D9Store.S3Select.Parser
import D9Store.Text.Csv

/-!
The execution of a query (`s3select.go`, `sql.go` and `reader.go` of `internal/s3select`).

A reader delivers its records one by one to `handle`, which filters them, counts them against the limit
and writes their rows. The result of `execute` is the payload of the `Records` message; the frames of
the event stream around it are left out. Delimiters of the input are single bytes.
-/

namespace D9Store.S3Select

open Text Descent Posix

variable {F : Type} (lib : Lib F)

/-- Why a query gives no result. -/
inductive ExecErr where
  | parse (stop : Stop String)
  /-- `errLimitReached`. -/
  | limitReached
  /-- An expression that is `nil` was evaluated, which Go answers with a panic. -/
  | nilExpr
  | message (text : String)
  deriving DecidableEq

/-- `record`: the fields of a line, with the positions its header gives to names, or a JSON value. -/
inductive Record (F : Type) where
  | csv (fields : List Bytes) (header : Option (List (Bytes × Nat)))
  | json (v : Value F)

/-- `CSVInput`, as far as it is read, with delimiters that begin with an ASCII character. -/
structure CSVInput where
  fileHeaderInfo : String := ""
  fieldDelimiter : String := ""
  commentChar : String := ""
  ascii : [fieldDelimiter, commentChar].all (fun s => s.toList.head?.all (·.toNat < 128)) = true := by
    decide

/-- `firstRune`, as the byte it is in a text. -/
def firstRune (s : String) : Option UInt8 := s.toList.head?.map fun c => UInt8.ofNat c.toNat

/-- `Input`. -/
structure Input where
  format : String := ""
  csv : CSVInput := {}
  jsonType : String := ""
  compressionType : String := ""

/-- `Output`, as far as it is read. -/
structure Output where
  format : String := ""
  csvFieldDelimiter : Bytes := []
  csvRecordDelimiter : Bytes := []
  jsonRecordDelimiter : Bytes := []

/-! ### Records -/

/-- The position of a field that is named by it: `_1`, `_2` and so on. -/
def position (p : String) : Option Int :=
  match p.toList with
  | '_' :: c :: rest => atoi (String.ofList (c :: rest))
  | _ => none

/-- `csvRecord.lookup`, for one part. -/
def csvLookup (fields : List Bytes) (header : Option (List (Bytes × Nat))) (p : String) :
    Option Bytes :=
  match position p with
  | some idx => if 1 ≤ idx then fields[(idx - 1).toNat]? else none
  | none => (header.bind fun names => names.lookup (Utf8.encode p)).bind fun i => fields[i]?

/-- The step of `jsonRecord.lookup`. -/
def member (v : Value F) (p : String) : Option (Value F) :=
  match v with
  | .obj fields => fields.lookup (Utf8.encode p)
  | _ => none

/-- `record.lookup`. -/
def Record.lookup : Record F → List String → Option (Value F)
  | .csv fields header, [p] => (csvLookup fields header p).map .str
  | .csv _ _, _ => none
  | .json v, parts => parts.foldlM member v

/-! ### Values -/

/-- `asFloat`. -/
def asFloat : Value F → Option F
  | .num f => some f
  | .str s => lib.parseFloat (Auth.trimSpace s)
  | _ => none

/-- `asString`. -/
def asString : Value F → Bytes
  | .null => []
  | .str s => s
  | .bool b => Utf8.encode (if b then "true" else "false")
  | .num f => lib.formatFloat f
  | v => lib.sprint v

/-- `truthy`. -/
def truthy : Value F → Bool
  | .null => false
  | .bool b => b
  | .str s => s != []
  | .num f => !lib.equal f lib.zero
  | _ => true

/-- `valuesEqual`. -/
def valuesEqual (l r : Value F) : Bool :=
  match l, r with
  | .bool lb, .bool rb => lb == rb
  | l, r =>
    match asFloat lib l, asFloat lib r with
    | some lf, some rf => lib.equal lf rf
    | _, _ => asString lib l == asString lib r

/-- `order`. -/
def order (l r : Value F) : Ordering :=
  match asFloat lib l, asFloat lib r with
  | some lf, some rf => if lib.less lf rf then .lt else if lib.less rf lf then .gt else .eq
  | _, _ =>
    let ls := asString lib l
    let rs := asString lib r
    if ls < rs then .lt else if rs < ls then .gt else .eq

/-- `compareOp`. -/
def compareOp (l r : Value F) : CmpOp → Bool
  | .eq => valuesEqual lib l r
  | .ltgt => !valuesEqual lib l r
  | .bangEq => !valuesEqual lib l r
  | .lt => order lib l r == .lt
  | .le => order lib l r != .gt
  | .gt => order lib l r == .gt
  | .ge => order lib l r != .lt

/-- The parts of a reference without the name of the table. -/
def stripTable (alias_ : String) : List String → List String
  | first :: second :: rest =>
    if (alias_ != "" && equalFold first alias_) || equalFold first "S3Object" then second :: rest
    else first :: second :: rest
  | parts => parts

/-- `valExpr.eval`. -/
def ValExpr.eval (rec_ : Record F) (alias_ : String) : ValExpr F → Option (Value F)
  | .colRef parts => rec_.lookup (stripTable alias_ parts)
  | .strLit s => some (.str (Utf8.encode s))
  | .numLit f => some (.num f)
  | .boolLit b => some (.bool b)
  | .castExpr inner typ =>
    match ValExpr.eval rec_ alias_ inner with
    | none => none
    | some v =>
      match typ with
      | .int => (asFloat lib v).map fun f => .num (lib.truncate f)
      | .float => (asFloat lib v).map .num
      | .string => some (.str (asString lib v))

/-- `predExpr.test`. -/
def PredExpr.test (rec_ : Record F) (alias_ : String) : PredExpr F → Except ExecErr Bool
  | .andPred a b => do
    let l ← PredExpr.test rec_ alias_ a
    if !l then .ok false else PredExpr.test rec_ alias_ b
  | .orPred a b => do
    let l ← PredExpr.test rec_ alias_ a
    if l then .ok true else PredExpr.test rec_ alias_ b
  | .notPred inner => do
    let v ← PredExpr.test rec_ alias_ inner
    .ok !v
  | .cmpPred left right op =>
    match left.eval lib rec_ alias_, right.eval lib rec_ alias_ with
    | some l, some r => .ok (compareOp lib l r op)
    | l, r =>
      if op = .ltgt ∨ op = .bangEq then .ok (l.isSome != r.isSome) else .ok false
  | .likePred left re neg =>
    match left.eval lib rec_ alias_ with
    | none => .ok false
    | some v =>
      let m := Regexp.matchString (fun p c => p == c) re.2 (lib.runes (asString lib v))
      .ok (if neg then !m else m)
  | .truthPred expr =>
    match expr.eval lib rec_ alias_ with
    | none => .ok false
    | some v => .ok (truthy lib v)

/-! ### Rows -/

/-- `outFormat`. -/
def outFormat (out : Output) : String :=
  let f := toUpper out.format
  if f = "" then "CSV" else f

def orElse (setting default_ : Bytes) : Bytes := if setting = [] then default_ else setting

/-- The expression of an item; there is none for `COUNT(*)`. -/
def itemExpr (item : ProjItem F) : Except ExecErr (ValExpr F) :=
  match item.expr with
  | some e => .ok e
  | none => .error .nilExpr

/-- The field of an item in a CSV row. -/
def csvItem (q : Query F) (rec_ : Record F) (item : ProjItem F) : Except ExecErr Bytes := do
  let e ← itemExpr item
  match e.eval lib rec_ q.alias_ with
  | none => .ok []
  | some v => .ok (asString lib v)

/-- `writeCSVRow`. -/
def writeCSVRow (out : Output) (q : Query F) (rec_ : Record F) : Except ExecErr Bytes := do
  let vals ←
    if q.proj.star then
      match rec_ with
      | .csv fields _ => .ok fields
      | .json v => .ok [(lib.marshal v).getD []]
    else q.proj.items.mapM (csvItem lib q rec_)
  .ok (List.intercalate (orElse out.csvFieldDelimiter [44]) vals ++
    orElse out.csvRecordDelimiter [10])

/-- `writeJSONKV`. -/
def writeJSONKV (key : Bytes) (v : Value F) : Except ExecErr Bytes :=
  match lib.marshal (.str key), lib.marshal v with
  | some kb, some vb => .ok (kb ++ 58 :: vb)
  | _, _ => .error (.message "s3select: marshal error")

/-- The member of an item in a JSON row, unless it has no value. -/
def jsonItem (q : Query F) (rec_ : Record F) (item : ProjItem F) : Except ExecErr (Option Bytes) := do
  let e ← itemExpr item
  match e.eval lib rec_ q.alias_ with
  | none => .ok none
  | some v => (writeJSONKV lib (Utf8.encode item.name) v).map some

/-- Members between braces. -/
def object (members : List Bytes) : Bytes := 123 :: List.intercalate [44] members ++ [125]

/-- The members of a line: its fields under their positions. -/
def positions (fields : List Bytes) : List Bytes :=
  fields.zipIdx.map fun x =>
    match writeJSONKV lib (Utf8.encode ("_" ++ toString (x.2 + 1))) (.str x.1) with
    | .ok text => text
    | .error _ => []

/-- `writeJSONRow`. -/
def writeJSONRow (out : Output) (q : Query F) (rec_ : Record F) : Except ExecErr Bytes := do
  let rd := orElse out.jsonRecordDelimiter [10]
  if q.proj.star then
    match rec_ with
    | .json v =>
      match lib.marshal v with
      | some text => .ok (text ++ rd)
      | none => .error (.message "s3select: marshal error")
    | .csv fields _ => .ok (object (positions lib fields) ++ rd)
  else
    let members ← q.proj.items.mapM (jsonItem lib q rec_)
    .ok (object members.reduceOption ++ rd)

/-- `writeRow`. -/
def writeRow (out : Output) (q : Query F) (rec_ : Record F) : Except ExecErr Bytes :=
  if outFormat out = "JSON" then writeJSONRow lib out q rec_ else writeCSVRow lib out q rec_

/-- `writeCount`. -/
def writeCount (out : Output) (count : Nat) : Bytes :=
  if outFormat out = "JSON" then
    Utf8.encode "\x7b\"_1\":" ++ Utf8.encode (toString count) ++ Utf8.encode "\x7d" ++
      orElse out.jsonRecordDelimiter [10]
  else Utf8.encode (toString count) ++ orElse out.csvRecordDelimiter [10]

/-! ### Readers -/

/-- The positions of the names of a header; a name that occurs twice has its last one. -/
def headerOf (names : List Bytes) : List (Bytes × Nat) := names.zipIdx.reverse

/-- `readCSV`: the records it delivers, and the error that ends them. -/
def readCSV (inp : CSVInput) (src : Bytes) : List (Record F) × Option ExecErr :=
  let dialect : Csv.Dialect :=
    { comma := (firstRune inp.fieldDelimiter).getD 44, comment := firstRune inp.commentChar }
  if dialect.valid then
    let lines := Csv.read dialect src
    if equalFold inp.fileHeaderInfo "USE" then
      ((lines.tail).map fun fields => .csv fields (lines.head?.map headerOf), none)
    else if equalFold inp.fileHeaderInfo "IGNORE" then
      ((lines.tail).map fun fields => .csv fields none, none)
    else (lines.map fun fields => .csv fields none, none)
  else ([], some (.message "s3select: CSV parse error: csv: invalid field or comment delimiter"))

/-- `readJSON`. -/
def readJSON (jsonType : String) (src : Bytes) : List (Record F) × Option ExecErr :=
  let read := lib.readJSON (equalFold jsonType "LINES") src
  (read.1.map .json, read.2.map .message)

/-! ### Execution -/

/-- What `handle` keeps from record to record. -/
structure Progress where
  body : Bytes := []
  matched : Nat := 0
  count : Nat := 0
  deriving DecidableEq

/-- Whether the record satisfies the `WHERE` clause. -/
def passes (q : Query F) (rec_ : Record F) : Except ExecErr Bool :=
  match q.where_ with
  | none => .ok true
  | some w => w.test lib rec_ q.alias_

/-- `handle`. -/
def handle (out : Output) (q : Query F) (st : Progress) (rec_ : Record F) :
    Except ExecErr Progress := do
  let ok ← passes lib q rec_
  if !ok then .ok st
  else if 0 ≤ q.limit ∧ q.limit ≤ st.matched then .error .limitReached
  else if q.proj.countStar then
    .ok { st with matched := st.matched + 1, count := st.count + 1 }
  else
    let row ← writeRow lib out q rec_
    .ok { st with matched := st.matched + 1, body := st.body ++ row }

/-- The loop of a reader: records until one is not handled, and the error that ended it. -/
def deliver (out : Output) (q : Query F) (last : Option ExecErr) :
    List (Record F) → Progress → Progress × Option ExecErr
  | [], st => (st, last)
  | rec_ :: rest, st =>
    match handle lib out q st rec_ with
    | .ok st' => deliver out q last rest st'
    | .error err => (st, some err)

/-- `Execute` after its query is parsed, on what a reader delivers. -/
def runQuery (out : Output) (q : Query F) (delivered : List (Record F) × Option ExecErr) :
    Except ExecErr Bytes :=
  let result := deliver lib out q delivered.2 delivered.1 {}
  if result.2 = none ∨ result.2 = some .limitReached then
    .ok (result.1.body ++ if q.proj.countStar then writeCount out result.1.count else [])
  else .error (result.2.getD .limitReached)

/-- `Execute`, up to the event stream. -/
def execute (sql : List Char) (inp : Input) (out : Output) (src : Bytes) : Except ExecErr Bytes :=
  match parse lib sql with
  | .error stop => .error (.parse stop)
  | .ok q =>
    match (if equalFold inp.compressionType "GZIP" then lib.gunzip src else some src) with
    | none => .error (.message "s3select: gzip error")
    | some text =>
      if toUpper inp.format = "" ∨ toUpper inp.format = "CSV" then
        runQuery lib out q (readCSV inp.csv text)
      else if toUpper inp.format = "JSON" then
        runQuery lib out q (readJSON lib inp.jsonType text)
      else .error (.message ("s3select: unsupported input format " ++ lib.quote inp.format))

/-! ### What can fail -/

variable {lib} {err : ExecErr} {item : ProjItem F} {q : Query F} {rec_ : Record F}

/-- Testing a record against a predicate always has an answer. -/
theorem test_ok (rec_ : Record F) (alias_ : String) (w : PredExpr F) :
    ∃ b, w.test lib rec_ alias_ = .ok b := by
  induction w with
  | andPred a b iha ihb =>
    obtain ⟨l, left⟩ := iha
    rw [PredExpr.test, left]
    cases l with
    | false => exact ⟨false, rfl⟩
    | true => exact ihb
  | orPred a b iha ihb =>
    obtain ⟨l, left⟩ := iha
    rw [PredExpr.test, left]
    cases l with
    | false => exact ihb
    | true => exact ⟨true, rfl⟩
  | notPred inner ih =>
    obtain ⟨v, inside⟩ := ih
    rw [PredExpr.test, inside]
    exact ⟨!v, rfl⟩
  | cmpPred left right op =>
    rw [PredExpr.test]
    split
    · exact ⟨_, rfl⟩
    · split
      · exact ⟨_, rfl⟩
      · exact ⟨_, rfl⟩
  | likePred left re neg =>
    rw [PredExpr.test]
    split
    · exact ⟨_, rfl⟩
    · exact ⟨_, rfl⟩
  | truthPred expr =>
    rw [PredExpr.test]
    split
    · exact ⟨_, rfl⟩
    · exact ⟨_, rfl⟩

theorem passes_ok (lib : Lib F) (q : Query F) (rec_ : Record F) : ∃ b, passes lib q rec_ = .ok b := by
  unfold passes
  split
  · exact ⟨true, rfl⟩
  · exact test_ok rec_ q.alias_ _

theorem mapM_error {α β ε : Type} {f : α → Except ε β} {l : List α} {err : ε}
    (h : l.mapM f = .error err) : ∃ x ∈ l, f x = .error err := by
  induction l with
  | nil => cases h
  | cons a rest ih =>
    rw [List.mapM_cons] at h
    cases first : f a with
    | error e =>
      rw [first] at h
      cases h
      exact ⟨a, List.mem_cons_self .., first⟩
    | ok b =>
      rw [first] at h
      cases more : rest.mapM f with
      | error e =>
        rw [more] at h
        cases h
        obtain ⟨x, mem, failed⟩ := ih more
        exact ⟨x, List.mem_cons_of_mem _ mem, failed⟩
      | ok bs =>
        rw [more] at h
        cases h

theorem writeJSONKV_error {key : Bytes} {v : Value F} (h : writeJSONKV lib key v = .error err) :
    err = .message "s3select: marshal error" := by
  unfold writeJSONKV at h
  split at h
  · cases h
  · cases h
    rfl

theorem itemExpr_error (h : itemExpr item = .error err) : err = .nilExpr ∧ item.expr = none := by
  unfold itemExpr at h
  split at h
  · cases h
  · rename_i missing
    cases h
    exact ⟨rfl, missing⟩

theorem csvItem_error (h : csvItem lib q rec_ item = .error err) :
    err = .nilExpr ∧ item.expr = none := by
  unfold csvItem at h
  cases found : itemExpr item with
  | error e =>
    rw [found] at h
    cases h
    exact itemExpr_error found
  | ok e =>
    rw [found, except_ok_bind] at h
    split at h <;> cases h

theorem jsonItem_error (h : jsonItem lib q rec_ item = .error err) :
    (err = .nilExpr ∧ item.expr = none) ∨ err = .message "s3select: marshal error" := by
  unfold jsonItem at h
  cases found : itemExpr item with
  | error e =>
    rw [found] at h
    cases h
    exact .inl (itemExpr_error found)
  | ok e =>
    rw [found, except_ok_bind] at h
    split at h
    · cases h
    · rename_i v value
      cases text : writeJSONKV lib (Utf8.encode item.name) v with
      | ok b =>
        rw [text] at h
        cases h
      | error err =>
        rw [text] at h
        cases h
        exact .inr (writeJSONKV_error text)

/-- A row fails for an item without an expression, or for a value without a text. -/
theorem writeRow_error {out : Output} (h : writeRow lib out q rec_ = .error err) :
    (err = .nilExpr ∧ ∃ item ∈ q.proj.items, item.expr = none) ∨
      err = .message "s3select: marshal error" := by
  unfold writeRow writeJSONRow writeCSVRow at h
  split at h
  · by_cases star : q.proj.star = true
    · rw [if_pos star] at h
      cases rec_ with
      | csv fields header => cases h
      | json v =>
        dsimp only at h
        split at h
        · cases h
        · cases h
          exact .inr rfl
    · rw [if_neg star] at h
      cases members : q.proj.items.mapM (jsonItem lib q rec_) with
      | ok texts =>
        rw [members] at h
        cases h
      | error e =>
        rw [members] at h
        cases h
        obtain ⟨item, mem, failed⟩ := mapM_error members
        rcases jsonItem_error failed with ⟨rfl, missing⟩ | rfl
        · exact .inl ⟨rfl, item, mem, missing⟩
        · exact .inr rfl
  · by_cases star : q.proj.star = true
    · rw [if_pos star] at h
      cases rec_ with
      | csv fields header => cases h
      | json v => cases h
    · rw [if_neg star] at h
      cases fields : q.proj.items.mapM (csvItem lib q rec_) with
      | ok texts =>
        rw [fields] at h
        cases h
      | error e =>
        rw [fields] at h
        cases h
        obtain ⟨item, mem, failed⟩ := mapM_error fields
        obtain ⟨rfl, missing⟩ := csvItem_error failed
        exact .inl ⟨rfl, item, mem, missing⟩

end D9Store.S3Select
