import D9Store.Results.SelectPrinting
import D9Store.Results.SelectRows

/-!
Reading the result of `SELECT *` again.

The rows are written without quotes, so a field comes back as it was only if it needs none. The records
for which all fields do are those of `Csv.Clean`.
-/

namespace D9Store.S3Select

open Text Descent Posix

variable {F : Type} {lib : Lib F} {inp : CSVInput} {src : Bytes}

/-- The fields of a line. -/
def fieldsOf : Record F → List Bytes
  | .csv fields _ => fields
  | .json _ => []

theorem parse_selectStar (lib : Lib F) :
    parse lib "SELECT * FROM S3Object".toList = .ok { proj := { star := true } } := by
  have select_ : Reads lib "SELECT".toList [.ident "SELECT"] := reads_word (by decide) (by decide)
  have from_ : Reads lib "FROM".toList [.ident "FROM"] := reads_word (by decide) (by decide)
  have reads := select_.space (reads_star.space (from_.space reads_table))
  let toks : List Token :=
    [.ident "SELECT", .star, .ident "FROM", .ident "S3Object", .eof]
  have lexed : lex lib "SELECT * FROM S3Object".toList = .ok toks := reads [] nofun
  have at_ : At toks 0 toks := rfl
  have end_ := at_.tail.tail.tail.tail
  have condition : Gives (parseWhere lib (toks.length + 1)) toks 4 (.ok none) 4 := by
    rw [Gives, parseWhere, end_.peek_bind, if_neg (by decide)]
    rfl
  rw [parse, lexed, except_ok_bind, parseTokens,
    statement_star at_ (.inl rfl) (Nat.succ_pos _) condition end_]
  rfl

/-- A reader of lines delivers lines. -/
theorem readCSV_lines {rec_ : Record F} (mem : rec_ ∈ (readCSV inp src).1) :
    ∃ fields header, rec_ = .csv fields header := by
  unfold readCSV at mem
  dsimp only at mem
  split at mem
  · split at mem
    · obtain ⟨fields, -, rfl⟩ := List.mem_map.mp mem
      exact ⟨_, _, rfl⟩
    · split at mem
      · obtain ⟨fields, -, rfl⟩ := List.mem_map.mp mem
        exact ⟨_, _, rfl⟩
      · obtain ⟨fields, -, rfl⟩ := List.mem_map.mp mem
        exact ⟨_, _, rfl⟩
  · exact absurd mem List.not_mem_nil

/-- Everything that was read is written, a line for each record. -/
theorem runQuery_star {records : List (Record F)}
    (lines : ∀ rec_ ∈ records, ∃ fields header, rec_ = .csv fields header) :
    runQuery lib {} { proj := { star := true } } (records, none) =
      .ok (Csv.write (records.map fieldsOf)) := by
  have rows : records.mapM (writeRow lib {} { proj := { star := true } }) =
      .ok (records.map fun rec_ => Csv.line (fieldsOf rec_)) := by
    induction records with
    | nil => rfl
    | cons rec_ rest ih =>
      obtain ⟨fields, header, rfl⟩ := lines rec_ (List.mem_cons_self ..)
      have row : writeRow lib {} { proj := { star := true } } (.csv fields header) =
          .ok (Csv.line fields) := by
        rw [writeRow, if_neg (by decide)]
        rfl
      rw [List.mapM_cons, row, except_ok_bind,
        ih fun rec_ mem => lines rec_ (List.mem_cons_of_mem _ mem)]
      rfl
  rw [runQuery_rows rfl]
  have all : records.filter (satisfies lib { proj := { star := true } }) = records :=
    List.filter_eq_self.mpr fun _ _ => rfl
  rw [all, limited, if_pos (show (-1 : Int) < 0 by decide), rows]
  simp [Except.map, Csv.write, List.flatMap_def, Function.comp_def]

/-- The records of the default settings. -/
theorem readCSV_default (src : Bytes) :
    (readCSV {} src : List (Record F) × Option ExecErr) =
      ((Csv.read {} src).map fun fields => .csv fields none, none) := by
  have plain : equalFold "" "USE" = false ∧ equalFold "" "IGNORE" = false := by decide
  unfold readCSV
  dsimp only
  rw [if_pos (by decide), if_neg (by rw [plain.1]; exact Bool.false_ne_true), if_neg (by rw [plain.2]; exact Bool.false_ne_true)]
  rfl

theorem execute_star (fine : (readCSV inp src : List (Record F) × Option ExecErr).2 = none) :
    execute lib "SELECT * FROM S3Object".toList { csv := inp } {} src =
      .ok (Csv.write ((readCSV inp src : List (Record F) × Option ExecErr).1.map fieldsOf)) := by
  have format : toUpper ({ csv := inp } : Input).format = "" := by
    show toUpper "" = ""
    decide
  have plain : equalFold ({ csv := inp } : Input).compressionType "GZIP" = false := by
    show equalFold "" "GZIP" = false
    decide
  rw [execute, parse_selectStar]
  dsimp only
  rw [if_neg (by rw [plain]; exact Bool.false_ne_true)]
  dsimp only
  rw [if_pos (.inl format), ← runQuery_star fun _ mem => readCSV_lines mem, ← fine]

/-- The payload is read back as the records that were selected exactly when each of them needs no
quotes. -/
theorem csv_read_back_iff (lib : Lib F) {inp : CSVInput} {src : Bytes}
    (fine : (readCSV inp src : List (Record F) × Option ExecErr).2 = none) :
    (∃ payload, execute lib "SELECT * FROM S3Object".toList { csv := inp } {} src = .ok payload ∧
      (readCSV {} payload : List (Record F) × Option ExecErr).2 = none ∧
      (readCSV {} payload : List (Record F) × Option ExecErr).1.map fieldsOf =
        (readCSV inp src : List (Record F) × Option ExecErr).1.map fieldsOf) ↔
    ∀ r ∈ (readCSV inp src : List (Record F) × Option ExecErr).1, Csv.Clean (fieldsOf r) := by
  have back (payload : Bytes) :
      (readCSV {} payload : List (Record F) × Option ExecErr).1.map fieldsOf = Csv.read {} payload := by
    rw [readCSV_default, List.map_map]
    exact List.map_id _
  rw [execute_star fine, ← List.forall_mem_map, ← Csv.read_write_iff]
  constructor
  · rintro ⟨payload, ran, -, same⟩
    cases ran
    rw [back] at same
    exact same
  · intro same
    refine ⟨_, rfl, by rw [readCSV_default], ?_⟩
    rw [back]
    exact same

/-- Two lines of two plain fields. -/
theorem plain_fields_read_back :
    ∃ payload, execute smallLib "SELECT * FROM S3Object".toList {} {} (Utf8.encode "a,b\nc,\"d\"\n") =
        .ok payload ∧
      (readCSV {} payload : List (Record Int) × Option ExecErr).1.map fieldsOf =
        [[[97], [98]], [[99], [100]]] := by
  have read : (readCSV {} (Utf8.encode "a,b\nc,\"d\"\n") : List (Record Int) × Option ExecErr) =
      ([.csv [[97], [98]] none, .csv [[99], [100]] none], none) := by
    rw [readCSV_default]
    have lines : Csv.read {} (Utf8.encode "a,b\nc,\"d\"\n") = [[[97], [98]], [[99], [100]]] := by
      decide
    rw [lines]
    rfl
  have clean : ∀ r ∈ (readCSV {} (Utf8.encode "a,b\nc,\"d\"\n") :
      List (Record Int) × Option ExecErr).1, Csv.Clean (fieldsOf r) := by
    rw [read]
    intro r mem
    fin_cases mem
    · exact ⟨⟨by decide, by decide, by decide⟩, by rintro f ⟨⟩; decide⟩
    · exact ⟨⟨by decide, by decide, by decide⟩, by rintro f ⟨⟩; decide⟩
  obtain ⟨payload, ran, -, same⟩ := (csv_read_back_iff smallLib (by rw [read])).mpr clean
  refine ⟨payload, ran, same.trans ?_⟩
  rw [read]
  rfl

/-- A field with a comma inside its quotes comes back as two. -/
theorem comma_field_split :
    (readCSV {} (Utf8.encode "\"a,b\"\n") : List (Record Int) × Option ExecErr).1.map fieldsOf =
      [[[97, 44, 98]]] ∧
    execute smallLib "SELECT * FROM S3Object".toList {} {} (Utf8.encode "\"a,b\"\n") =
      .ok (Utf8.encode "a,b\n") ∧
    (readCSV {} (Utf8.encode "a,b\n") : List (Record Int) × Option ExecErr).1.map fieldsOf =
      [[[97], [98]]] := by
  have quoted : (readCSV {} (Utf8.encode "\"a,b\"\n") : List (Record Int) × Option ExecErr) =
      ([.csv [[97, 44, 98]] none], none) := by
    have lines : Csv.read {} (Utf8.encode "\"a,b\"\n") = [[[97, 44, 98]]] := by decide
    rw [readCSV_default, lines]
    rfl
  have split : Csv.read {} (Utf8.encode "a,b\n") = [[[97], [98]]] := by decide
  refine ⟨by rw [quoted]; rfl, ?_, ?_⟩
  · refine (execute_star (by rw [quoted])).trans ?_
    rw [quoted]
    rfl
  · rw [readCSV_default, split]
    rfl

end D9Store.S3Select
