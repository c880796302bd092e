import D9Store.Auth.Chunked

/-!
Reading a signed streaming body to its end.

The reader ends cleanly in three ways: after a zero-length chunk that verifies, where the input
ends in blanks although a chunk header is due, and at an empty line in the place of a header.
Only the first one proves that the body is complete.
-/

namespace D9Store.Auth

variable {k : Signer} {prev input sig data rest header rest' : Bytes}

/-! ### Streams -/

/-- The line of a chunk header and what follows it. -/
def HeaderLine (input header rest : Bytes) : Prop :=
  ∃ line, 10 ∉ line ∧ input = line ++ 10 :: rest ∧ header = trimRight line

/-- The input begins with a data chunk whose signature continues the chain. -/
structure SignedChunk (k : Signer) (prev input sig data rest : Bytes) : Prop where
  header : ∃ header, HeaderLine input header (data ++ 13 :: 10 :: rest) ∧
    parseChunkHeader header = .ok (data.length, sig)
  signed : sig = k.chunkSignature prev data
  nonempty : data ≠ []

/-- The input begins with a zero-length chunk whose signature continues the chain. -/
def LastChunk (k : Signer) (prev input : Bytes) : Prop :=
  ∃ header rest sig, HeaderLine input header rest ∧ parseChunkHeader header = .ok (0, sig) ∧
    sig = k.chunkSignature prev []

/-- No chunk header is there: only blanks up to the end of the input, or an empty line. -/
inductive Blank (input : Bytes) : Prop where
  | cut (line : 10 ∉ input) (blank : trimSpace input = [])
  | line (rest : Bytes) (empty : HeaderLine input [] rest)

/-- The stream begins with signed chunks that end in a zero-length one and carry `data`. -/
inductive SignedStream (k : Signer) : Bytes → Bytes → Bytes → Prop where
  | last {prev input : Bytes} (h : LastChunk k prev input) : SignedStream k prev input []
  | chunk {prev input sig data rest more : Bytes} (h : SignedChunk k prev input sig data rest)
      (tail : SignedStream k sig rest more) : SignedStream k prev input (data ++ more)

/-- After some signed data chunks a header is missing. -/
inductive BlankAfterChunks (k : Signer) : Bytes → Bytes → Prop where
  | here {prev input : Bytes} (h : Blank input) : BlankAfterChunks k prev input
  | chunk {prev input sig data rest : Bytes} (h : SignedChunk k prev input sig data rest)
      (tail : BlankAfterChunks k sig rest) : BlankAfterChunks k prev input

/-! ### Header lines -/

theorem span_line {line : Bytes} (h : 10 ∉ line) :
    (line ++ 10 :: rest).span (· != 10) = (line, 10 :: rest) := by
  rw [List.span_eq_takeWhile_dropWhile]
  have all : ∀ b ∈ line, (b != 10) = true := fun b mem => bne_iff_ne.mpr fun eq => h (eq ▸ mem)
  rw [List.takeWhile_append_of_pos all, List.dropWhile_append_of_pos all]
  simp

theorem readString_line {line : Bytes} (h : 10 ∉ line) :
    readString (line ++ 10 :: rest) = (line ++ [10], rest, true) := by
  rw [readString, span_line h]

theorem readString_cut (h : 10 ∉ input) : readString input = (input, [], false) := by
  have all : ∀ b ∈ input, (b != 10) = true := fun b mem => bne_iff_ne.mpr fun eq => h (eq ▸ mem)
  rw [readString, List.span_eq_takeWhile_dropWhile, List.takeWhile_eq_self_iff.mpr all,
    List.dropWhile_eq_nil_iff.mpr all]

theorem trimRight_newline (line : Bytes) : trimRight (line ++ [10]) = trimRight line := by
  simp [trimRight]

/-- An input has a line or it has no line end. -/
theorem line_or_cut (input : Bytes) :
    (∃ line rest, 10 ∉ line ∧ input = line ++ 10 :: rest) ∨ 10 ∉ input := by
  by_cases mem : 10 ∈ input
  · obtain ⟨line, rest, eq, first⟩ := List.eq_append_cons_of_mem mem
    exact .inl ⟨line, rest, first, eq⟩
  · exact .inr mem

/-- The line of an input is determined. -/
theorem HeaderLine.unique {header' : Bytes} (h : HeaderLine input header rest)
    (h' : HeaderLine input header' rest') : header = header' ∧ rest = rest' := by
  obtain ⟨line, no, rfl, rfl⟩ := h
  obtain ⟨line', no', eq, rfl⟩ := h'
  have first : (line ++ 10 :: rest).span (· != 10) = (line, 10 :: rest) := span_line no
  rw [eq, span_line no'] at first
  cases first
  exact ⟨rfl, rfl⟩

theorem HeaderLine.not_cut (h : HeaderLine input header rest) (cut : 10 ∉ input) : False := by
  obtain ⟨line, -, rfl, -⟩ := h
  exact cut (by simp)

theorem parse_error_ne_eof {err : ReadErr} (h : parseChunkHeader header = .error err) :
    err ≠ .eof := by
  rintro rfl
  unfold parseChunkHeader at h
  dsimp only at h
  split at h
  · cases h
  · split at h
    · cases h
    · split at h <;> cases h

theorem parse_nil : ∃ err, parseChunkHeader [] = .error err := ⟨_, rfl⟩

/-! ### One chunk -/

namespace ChunkedReader

variable {c c' : ChunkedReader} {left : Bytes} {err : ReadErr}

/-- What a reader does at a header line. -/
theorem readChunk_line {header : Bytes} (h : HeaderLine c.input header rest) :
    c.readChunk k =
      if header = [] then (finish { c with input := rest }, some .eof)
      else
        match parseChunkHeader header with
        | .error err => ({ c with input := rest }, some err)
        | .ok (size, sig) =>
          if rest.length < size then ({ c with input := [] }, some .data)
          else if k.chunkSignature c.prevSig (rest.take size) ≠ sig then
            ({ c with input := rest.drop size }, some .mismatch)
          else if size > 0 then
            match consumeCRLF (rest.drop size) with
            | (left, some err) => ({ c with input := left, prevSig := sig }, some err)
            | (left, none) =>
              ({ c with input := left, prevSig := sig, pending := c.pending ++ rest.take size }, none)
          else (finish { c with input := rest.drop size, prevSig := sig }, some .eof) := by
  obtain ⟨line, no, split, rfl⟩ := h
  have run : c.readChunk k = c.readChunk k := rfl
  conv_rhs at run => simp only [readChunk, split, readString_line no, trimRight_newline,
    Bool.not_true, Bool.false_eq_true, if_false]
  exact run

theorem readChunk_cut (h : 10 ∉ c.input) :
    c.readChunk k =
      if trimSpace c.input = [] then ({ c with input := [], done := true }, some .eof)
      else ({ c with input := [] }, some .header) := by
  simp only [readChunk, readString_cut h, Bool.not_false, if_true]

theorem consumeCRLF_none (h : consumeCRLF input = (left, none)) : input = 13 :: 10 :: left := by
  unfold consumeCRLF at h
  split at h
  · cases h
    rfl
  · cases h
  · cases h

theorem consumeCRLF_ne_eof (h : consumeCRLF input = (left, some err)) : err ≠ .eof := by
  unfold consumeCRLF at h
  split at h <;> cases h <;> exact ReadErr.noConfusion

/-- A signed chunk is taken off the input. -/
theorem readChunk_of_signed (h : SignedChunk k c.prevSig c.input sig data rest) :
    c.readChunk k =
      ({ c with input := rest, prevSig := sig, pending := c.pending ++ data }, none) := by
  obtain ⟨⟨header, line, parsed⟩, signed, nonempty⟩ := h
  have ne : header ≠ [] := by
    rintro rfl
    obtain ⟨err, failed⟩ := parse_nil
    rw [failed] at parsed
    cases parsed
  have pos : data.length > 0 := List.length_pos_iff.mpr nonempty
  rw [readChunk_line line, if_neg ne, parsed]
  simp only [List.take_left' rfl, List.drop_left' rfl, pos, if_true]
  rw [if_neg (by simp), if_neg (by simp [signed])]
  rfl

/-- Every chunk taken off the input is signed. -/
theorem readChunk_none (run : c.readChunk k = (c', none)) :
    ∃ sig data rest, SignedChunk k c.prevSig c.input sig data rest ∧
      c' = { c with input := rest, prevSig := sig, pending := c.pending ++ data } := by
  rcases line_or_cut c.input with ⟨line, rest, no, split⟩ | cut
  · have here : HeaderLine c.input (trimRight line) rest := ⟨line, no, split, rfl⟩
    rw [readChunk_line here] at run
    split at run
    · cases run
    cases parsed : parseChunkHeader (trimRight line) with
    | error err =>
      rw [parsed] at run
      cases run
    | ok result =>
      obtain ⟨size, sig⟩ := result
      rw [parsed] at run
      dsimp only at run
      split at run
      · cases run
      rename_i enough
      split at run
      · cases run
      rename_i signed
      split at run
      · rename_i pos
        rcases crlf : consumeCRLF (rest.drop size) with ⟨left, err⟩
        rw [crlf] at run
        cases err with
        | some err => cases run
        | none =>
          cases run
          have count : (rest.take size).length = size := by
            rw [List.length_take]
            omega
          refine ⟨sig, rest.take size, left, ⟨⟨trimRight line, ?_, ?_⟩, ?_, ?_⟩, rfl⟩
          · rw [← consumeCRLF_none crlf, List.take_append_drop]
            exact here
          · rw [count]
            exact parsed
          · exact (not_not.mp signed).symm
          · intro empty
            rw [empty] at count
            rw [← count] at pos
            cases pos
      · cases run
  · rw [readChunk_cut cut] at run
    split at run <;> cases run

/-- The three clean ends. -/
theorem readChunk_eof : (c.readChunk k).2 = some .eof ↔ LastChunk k c.prevSig c.input ∨ Blank c.input := by
  rcases line_or_cut c.input with ⟨line, rest, no, split⟩ | cut
  · have here : HeaderLine c.input (trimRight line) rest := ⟨line, no, split, rfl⟩
    rw [readChunk_line here]
    by_cases empty : trimRight line = []
    · rw [if_pos empty]
      exact iff_of_true rfl (.inr (.line rest (empty ▸ here)))
    rw [if_neg empty]
    have noBlank : ¬ Blank c.input := by
      rintro (⟨cut, -⟩ | ⟨rest', blank⟩)
      · exact here.not_cut cut
      · exact empty (here.unique blank).1
    rw [or_iff_left noBlank]
    have last : LastChunk k c.prevSig c.input ↔ ∃ sig, parseChunkHeader (trimRight line) = .ok (0, sig) ∧
        sig = k.chunkSignature c.prevSig [] := by
      constructor
      · rintro ⟨header, rest', sig, line', parsed, signed⟩
        rw [(here.unique line').1]
        exact ⟨sig, parsed, signed⟩
      · rintro ⟨sig, parsed, signed⟩
        exact ⟨_, rest, sig, here, parsed, signed⟩
    rw [last]
    cases parsed : parseChunkHeader (trimRight line) with
    | error err =>
      refine iff_of_false (fun h => parse_error_ne_eof parsed (Option.some.inj h)) ?_
      rintro ⟨sig, eq, -⟩
      cases eq
    | ok result =>
      obtain ⟨size, sig⟩ := result
      dsimp only
      by_cases short : rest.length < size
      · rw [if_pos short]
        refine iff_of_false (fun h => by cases h) ?_
        rintro ⟨sig', eq, -⟩
        cases eq
        exact Nat.not_lt_zero _ short
      rw [if_neg short]
      by_cases zero : size = 0
      · subst zero
        rw [List.take_zero]
        by_cases signed : k.chunkSignature c.prevSig [] = sig
        · rw [if_neg (not_not.mpr signed), if_neg (Nat.lt_irrefl 0)]
          exact iff_of_true rfl ⟨sig, rfl, signed.symm⟩
        · rw [if_pos signed]
          refine iff_of_false (fun h => by cases h) ?_
          rintro ⟨sig', eq, signed'⟩
          cases eq
          exact signed signed'.symm
      · have other : ¬ ∃ sig', (Except.ok (size, sig) : Except ReadErr (Nat × Bytes)) = .ok (0, sig') ∧
            sig' = k.chunkSignature c.prevSig [] := by
          rintro ⟨sig', eq, -⟩
          cases eq
          exact zero rfl
        refine iff_of_false (fun h => ?_) other
        split at h
        · cases h
        · rw [if_pos (Nat.pos_of_ne_zero zero)] at h
          rcases crlf : consumeCRLF (rest.drop size) with ⟨left, err⟩
          rw [crlf] at h
          cases err with
          | some err => exact consumeCRLF_ne_eof crlf (Option.some.inj h)
          | none => cases h
  · rw [readChunk_cut cut]
    have noLast : ¬ LastChunk k c.prevSig c.input := by
      rintro ⟨header, rest, sig, line, -⟩
      exact line.not_cut cut
    rw [or_iff_right noLast]
    split
    · rename_i blank
      exact iff_of_true rfl (.cut cut blank)
    · rename_i text
      refine iff_of_false (fun h => by cases h) ?_
      rintro (⟨-, blank⟩ | ⟨rest, line⟩)
      · exact text blank
      · exact line.not_cut cut

/-- A failing chunk adds no data. -/
theorem readChunk_pending (run : c.readChunk k = (c', some err)) : c'.pending = c.pending := by
  rcases line_or_cut c.input with ⟨line, rest, no, split⟩ | cut
  · rw [readChunk_line ⟨line, no, split, rfl⟩] at run
    split at run
    · cases run
      rfl
    split at run
    · cases run
      rfl
    split at run
    · cases run
      rfl
    split at run
    · cases run
      rfl
    split at run
    · split at run
      · cases run
        rfl
      · cases run
    · cases run
      rfl
  · rw [readChunk_cut cut] at run
    split at run <;> cases run <;> rfl

end ChunkedReader

/-! ### Whole streams -/

open ChunkedReader

/-- A reader in front of `input`, with data it has not handed out. -/
abbrev ready (prev input pending : Bytes) : ChunkedReader := { input, prevSig := prev, pending }

/-- What a stream yields, and the error it ends with. -/
inductive Outcome (k : Signer) : Bytes → Bytes → Bytes → ReadErr → Prop where
  | stop {prev input : Bytes} {err : ReadErr} (h : ((ready prev input []).readChunk k).2 = some err) :
      Outcome k prev input [] err
  | chunk {prev input sig data rest more : Bytes} {err : ReadErr}
      (h : SignedChunk k prev input sig data rest) (tail : Outcome k sig rest more err) :
      Outcome k prev input (data ++ more) err

variable {more D pending : Bytes} {err : ReadErr} {n : Nat}

theorem read_pending (ne : pending ≠ []) :
    (ready prev input pending).read k n = (ready prev input (pending.drop n), pending.take n, none) := by
  rw [ChunkedReader.read, fill, if_pos ne]

/-- A read without pending data takes a chunk off the input. -/
theorem read_chunk (h : SignedChunk k prev input sig data rest) :
    (ready prev input []).read k n = (ready sig rest (data.drop n), data.take n, none) := by
  have run := readChunk_of_signed (c := ready prev input []) h
  rw [ChunkedReader.read, fill, if_neg (not_not.mpr rfl)]
  simp only [Bool.false_eq_true, if_false, run, List.nil_append]
  cases input.length with
  | zero => rfl
  | succ fuel =>
    rw [fill, if_pos h.nonempty]

theorem read_error {c' : ChunkedReader} (run : (ready prev input []).readChunk k = (c', some err)) :
    ∃ c'', (ready prev input []).read k n = (c'', [], some err) := by
  refine ⟨{ c' with err := some err }, ?_⟩
  rw [ChunkedReader.read, fill, if_neg (not_not.mpr rfl)]
  simp only [Bool.false_eq_true, if_false, run, readChunk_pending run, if_true]

/-- Whatever the sizes of the buffers, the data handed out is that of the chunks. -/
theorem readAll_outcome {sizes : List Nat}
    (run : (ready prev input pending).readAll k sizes = (D, some err)) :
    ∃ more, Outcome k prev input more err ∧ D = pending ++ more := by
  induction sizes generalizing prev input pending D with
  | nil => cases run
  | cons n sizes ih =>
    rw [readAll] at run
    by_cases ne : pending ≠ []
    · rw [read_pending ne] at run
      rcases tail : (ready prev input (pending.drop n)).readAll k sizes with ⟨rest, err'⟩
      simp only [tail] at run
      cases run
      obtain ⟨more, outcome, eq⟩ := ih tail
      exact ⟨more, outcome, by rw [eq, ← List.append_assoc, List.take_append_drop]⟩
    · obtain rfl : pending = [] := not_not.mp ne
      rcases step : (ready prev input []).readChunk k with ⟨c', failed⟩
      cases failed with
      | some err' =>
        obtain ⟨c'', answer⟩ := read_error (n := n) step
        rw [answer] at run
        cases run
        exact ⟨[], .stop (by rw [step]), rfl⟩
      | none =>
        obtain ⟨sig, data, rest, signed, -⟩ := readChunk_none step
        rw [read_chunk signed] at run
        rcases tail : (ready sig rest (data.drop n)).readAll k sizes with ⟨rest', err'⟩
        simp only [tail] at run
        cases run
        obtain ⟨more, outcome, eq⟩ := ih tail
        refine ⟨data ++ more, .chunk signed outcome, ?_⟩
        rw [eq, ← List.append_assoc, List.take_append_drop, List.nil_append]

/-- With buffers of the right sizes the stream is read to its end. -/
theorem Outcome.readAll (h : Outcome k prev input D err) :
    ∃ sizes, (ready prev input []).readAll k sizes = (D, some err) := by
  induction h with
  | @stop prev input err h =>
    rcases step : (ready prev input []).readChunk k with ⟨c', failed⟩
    rw [step] at h
    obtain rfl : failed = some err := h
    obtain ⟨c'', answer⟩ := read_error (n := 0) step
    exact ⟨[0], by rw [ChunkedReader.readAll, answer]⟩
  | @chunk prev input sig data rest more err signed _ ih =>
    obtain ⟨sizes, run⟩ := ih
    refine ⟨data.length :: sizes, ?_⟩
    rw [ChunkedReader.readAll, read_chunk signed, List.drop_length, List.take_length]
    simp only [run]

/-- A clean end is that of a signed stream, or a missing header. -/
theorem Outcome.clean (h : Outcome k prev input D .eof) :
    SignedStream k prev input D ∨ BlankAfterChunks k prev input := by
  generalize eq : ReadErr.eof = err at h
  induction h with
  | stop h =>
    subst eq
    rcases readChunk_eof.mp h with last | blank
    · exact .inl (.last last)
    · exact .inr (.here blank)
  | chunk signed _ ih =>
    rcases ih eq with stream | blank
    · exact .inl (.chunk signed stream)
    · exact .inr (.chunk signed blank)

theorem BlankAfterChunks.outcome (h : BlankAfterChunks k prev input) :
    ∃ D, Outcome k prev input D .eof := by
  induction h with
  | here blank => exact ⟨[], .stop ((readChunk_eof (c := ready _ _ [])).mpr (.inr blank))⟩
  | chunk signed _ ih =>
    obtain ⟨D, outcome⟩ := ih
    exact ⟨_, .chunk signed outcome⟩

theorem Blank.not_line (h : Blank input) (line : HeaderLine input header rest)
    {result : Nat × Bytes} (parsed : parseChunkHeader header = .ok result) : False := by
  rcases h with ⟨cut, -⟩ | ⟨rest', empty⟩
  · exact line.not_cut cut
  · obtain ⟨err, failed⟩ := parse_nil
    rw [(line.unique empty).1, failed] at parsed
    cases parsed

theorem SignedChunk.unique {sig' data' : Bytes} (h : SignedChunk k prev input sig data rest)
    (h' : SignedChunk k prev input sig' data' rest') : sig = sig' ∧ rest = rest' := by
  have run := readChunk_of_signed (c := ready prev input []) h
  rw [readChunk_of_signed (c := ready prev input []) h'] at run
  simp only [Prod.mk.injEq, ChunkedReader.mk.injEq] at run
  exact ⟨run.1.2.1.symm, run.1.1.symm⟩

/-- A stream where a header is missing is not a signed one. -/
theorem BlankAfterChunks.not_signed (h : BlankAfterChunks k prev input) :
    ¬ SignedStream k prev input D := by
  intro stream
  induction h generalizing D with
  | here blank =>
    cases stream with
    | last last =>
      obtain ⟨header, rest, sig, line, parsed, -⟩ := last
      exact blank.not_line line parsed
    | chunk signed _ =>
      obtain ⟨header, line, parsed⟩ := signed.header
      exact blank.not_line line parsed
  | @chunk prev input _ _ _ signed _ ih =>
    cases stream with
    | last last =>
      have ended := (readChunk_eof (c := ready prev input [])).mpr (.inl last)
      rw [readChunk_of_signed (c := ready prev input []) signed] at ended
      cases ended
    | chunk signed' tail =>
      obtain ⟨rfl, rfl⟩ := signed.unique signed'
      exact ih tail

/-- Reading to a clean end proves the body complete and signed exactly when the stream has no
place after signed chunks where a header is missing. -/
theorem clean_end_iff (k : Signer) (seed body : Bytes) :
    (∀ sizes D, (newChunkedReader body seed).readAll k sizes = (D, some .eof) →
      SignedStream k seed body D) ↔ ¬ BlankAfterChunks k seed body := by
  constructor
  · intro complete blank
    obtain ⟨D, outcome⟩ := blank.outcome
    obtain ⟨sizes, run⟩ := outcome.readAll
    exact blank.not_signed (complete sizes D run)
  · intro noBlank sizes D run
    obtain ⟨more, outcome, rfl⟩ := readAll_outcome run
    exact outcome.clean.resolve_right noBlank

/-! ### A body cut after its first chunk -/

/-- A signer whose hash functions lose nothing. -/
def plainSigner : Signer where
  signingKey := [1]
  scope := [2]
  amzDate := [3]
  hmacSHA256 key text := key ++ text
  sha256 data := data

/-- The header of a chunk with the one byte `x`. -/
def oneByteHeader (seed : Bytes) : Bytes :=
  ascii "1;chunk-signature=" ++ plainSigner.chunkSignature seed [120] ++ [13]

def cutBody (seed : Bytes) : Bytes := oneByteHeader seed ++ 10 :: ([120] ++ 13 :: 10 :: [])

theorem cut_body_ends_cleanly :
    (newChunkedReader (cutBody [7]) [7]).readAll plainSigner [4, 4] = ([120], some .eof) ∧
      ¬ SignedStream plainSigner [7] (cutBody [7]) [120] := by
  have chunk : SignedChunk plainSigner [7] (cutBody [7]) (plainSigner.chunkSignature [7] [120]) [120]
      [] :=
    ⟨⟨trimRight (oneByteHeader [7]), ⟨oneByteHeader [7], by decide +kernel, rfl, rfl⟩,
      by decide +kernel⟩, rfl, by decide⟩
  have blank : Blank [] := .cut (by decide) (by decide)
  exact ⟨by decide +kernel, BlankAfterChunks.not_signed (.chunk chunk (.here blank))⟩

end D9Store.Auth
