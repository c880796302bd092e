import D9Store.Results.Streaming

/-!
Reading back what was written in signed chunks.

A list of chunks is written with its lengths in hex and its signatures chained from the seed, and
ended by a chunk without data. Whatever the buffers are, the reader hands out the data and then only
the end of the file, no matter what follows the last chunk.
-/

namespace D9Store.Auth

open ChunkedReader

variable {k : Signer} {prev input sig data rest pending text more D : Bytes} {n : Nat}
    {sizes : List Nat} {b : UInt8}

/-! ### Writing chunks -/

def hexDigits : Bytes := ascii "0123456789abcdef"

def hexByte (d : Nat) : UInt8 := hexDigits.getD d 48

/-- A length in hex, without leading zeros. -/
def hexLength (n : Nat) : Bytes :=
  if n = 0 then [48] else (Nat.digits 16 n).reverse.map hexByte

/-- `<hex-length>;chunk-signature=<hex-signature>\r\n`, up to the line break. -/
def headerLine (n : Nat) (sig : Bytes) : Bytes :=
  hexLength n ++ 59 :: (ascii "chunk-signature=" ++ sig) ++ [13]

/-- The chunks, the final one and what follows it. -/
def encodeChunks (k : Signer) (trailer : Bytes) : Bytes → List Bytes → Bytes
  | prev, [] => headerLine 0 (k.chunkSignature prev []) ++ 10 :: trailer
  | prev, data :: chunks =>
    let sig := k.chunkSignature prev data
    headerLine data.length sig ++ 10 :: (data ++ 13 :: 10 :: encodeChunks k trailer sig chunks)

/-! ### Hex -/

/-- The text of numbers and of signatures. -/
def Hex (text : Bytes) : Prop := ∀ b ∈ text, b ∈ hexDigits

theorem hexDigit_hexByte : ∀ d < 16, hexDigit (hexByte d) = some d := by decide

theorem hexByte_mem : ∀ d < 16, hexByte d ∈ hexDigits := by decide

theorem nibble_mem (x : UInt8) (small : x.toNat < 16) :
    (if x < 10 then 48 + x else 87 + x) ∈ hexDigits := by
  have table : ∀ m < 16, (if UInt8.ofNat m < 10 then 48 + UInt8.ofNat m else 87 + UInt8.ofNat m) ∈
      hexDigits := by decide
  have here := table x.toNat small
  rwa [UInt8.ofNat_toNat] at here

theorem hex_hexEncode (bytes : Bytes) : Hex (hexEncode bytes) := by
  intro b mem
  obtain ⟨x, -, mem⟩ := List.mem_flatMap.mp mem
  have size := x.toNat_lt
  rcases List.mem_cons.mp mem with rfl | mem
  · apply nibble_mem
    rw [UInt8.toNat_div]
    exact Nat.div_lt_of_lt_mul size
  · rw [List.mem_singleton.mp mem]
    apply nibble_mem
    rw [UInt8.toNat_mod]
    exact Nat.mod_lt _ (by decide)

theorem hex_hexLength (n : Nat) : Hex (hexLength n) := by
  intro b mem
  rw [hexLength] at mem
  split at mem
  · rw [List.mem_singleton.mp mem]
    decide
  · obtain ⟨d, digit, rfl⟩ := List.mem_map.mp mem
    exact hexByte_mem d (Nat.digits_lt_base (by decide) (List.mem_reverse.mp digit))

theorem Hex.not_mem {c : UInt8} (hex : Hex text) (other : c ∉ hexDigits) : c ∉ text :=
  fun mem => other (hex c mem)

theorem hexLength_ne_nil (n : Nat) : hexLength n ≠ [] := by
  rw [hexLength]
  split
  · exact List.cons_ne_nil _ _
  · rename_i pos
    simpa [Nat.digits_eq_nil_iff_eq_zero] using pos

theorem foldlM_digits (ds : List Nat) (small : ∀ d ∈ ds, d < 16) :
    (ds.reverse.map hexByte).foldlM (fun n b => (hexDigit b).map (16 * n + ·)) 0 =
      some (Nat.ofDigits 16 ds) := by
  induction ds with
  | nil => rfl
  | cons d ds ih =>
    rw [List.reverse_cons, List.map_append, List.foldlM_append,
      ih fun d mem => small d (List.mem_cons_of_mem _ mem)]
    simp [hexDigit_hexByte d (small d List.mem_cons_self), Nat.ofDigits_cons, Nat.add_comm]

theorem parseUint_hexLength (n : Nat) : parseUint (hexLength n) = some n := by
  rw [parseUint, if_neg (hexLength_ne_nil n), hexLength]
  split
  · rename_i zero
    subst zero
    decide
  · rw [foldlM_digits _ fun d mem => Nat.digits_lt_base (by decide) mem, Nat.ofDigits_digits]

/-- A text that begins with a hex digit has no sign. -/
theorem parseInt_hexLength (small : n < 2 ^ 63) : parseInt (hexLength n) = some (n : Int) := by
  obtain ⟨b, digits, shape⟩ := List.exists_cons_of_ne_nil (hexLength_ne_nil n)
  have hex : b ∈ hexDigits := hex_hexLength n b (by rw [shape]; exact List.mem_cons_self)
  have noPlus : b ≠ 43 := by
    rintro rfl
    exact absurd hex (by decide)
  have noMinus : b ≠ 45 := by
    rintro rfl
    exact absurd hex (by decide)
  have unsigned : parseInt (b :: digits) = parseInt.bounded (b :: digits) := by
    unfold parseInt
    split
    · rename_i eq
      exact absurd (List.cons.inj eq).1 noPlus
    · rename_i eq
      exact absurd (List.cons.inj eq).1 noMinus
    · rfl
  rw [shape, unsigned, ← shape, parseInt.bounded, parseUint_hexLength, Option.bind_some, if_pos small]

/-! ### Blanks -/

theorem dropFront_of_head {marks : List Bytes}
    (other : ∀ mark ∈ marks, mark.isPrefixOf (b :: text) = false) (fuel : Nat) :
    dropFront marks fuel (b :: text) = b :: text := by
  cases fuel with
  | zero => rfl
  | succ fuel =>
    have none : marks.find? (·.isPrefixOf (b :: text)) = none :=
      List.find?_eq_none.mpr fun mark mem => by simp [other mark mem]
    rw [dropFront, none]

/-- No blank begins or ends with the byte. -/
def solid (b : UInt8) : Bool :=
  spaces.all fun mark => mark.head? != some b && mark.reverse.head? != some b

theorem not_isPrefixOf {mark : Bytes} (ne : mark ≠ []) (head : mark.head? ≠ some b) :
    mark.isPrefixOf (b :: text) = false := by
  cases mark with
  | nil => exact absurd rfl ne
  | cons c mark =>
    have differs : c ≠ b := fun eq => head (congrArg some eq)
    simp [List.isPrefixOf, differs]

theorem trimSpace_of_ends {middle : Bytes} {first last : UInt8} (front : text = first :: middle)
    (back : text.getLast? = some last) (solid₁ : solid first = true) (solid₂ : solid last = true) :
    trimSpace text = text := by
  have nonempty : ∀ mark ∈ spaces, mark ≠ [] := by decide
  have left : dropFront spaces text.length text = text := by
    subst front
    refine dropFront_of_head (fun mark mem => ?_) _
    have apart := (Bool.and_eq_true _ _ ▸ List.all_eq_true.mp solid₁ mark mem).1
    exact not_isPrefixOf (nonempty mark mem) (bne_iff_ne.mp apart)
  obtain ⟨init, shape⟩ : ∃ init, text.reverse = last :: init := by
    rw [List.getLast?_eq_head?_reverse] at back
    exact List.head?_eq_some_iff.mp back
  have right : dropFront (spaces.map List.reverse) text.length text.reverse = text.reverse := by
    rw [shape]
    refine dropFront_of_head (fun mark mem => ?_) _
    obtain ⟨space, known, rfl⟩ := List.mem_map.mp mem
    have apart := (Bool.and_eq_true _ _ ▸ List.all_eq_true.mp solid₂ space known).2
    exact not_isPrefixOf (by simpa using nonempty space known) (bne_iff_ne.mp apart)
  rw [trimSpace]
  simp only [left, right, List.reverse_reverse]

theorem solid_hexDigits : ∀ b ∈ hexDigits, solid b = true := by decide +kernel

/-! ### Headers -/

theorem trimSpace_hex (ne : text ≠ []) (hex : Hex text) : trimSpace text = text := by
  obtain ⟨first, middle, front⟩ := List.exists_cons_of_ne_nil ne
  have back := List.getLast?_eq_some_getLast ne
  exact trimSpace_of_ends front back
    (solid_hexDigits _ (hex _ (by rw [front]; exact List.mem_cons_self)))
    (solid_hexDigits _ (hex _ (List.getLast_mem ne)))

/-- The header of a chunk is read back. -/
theorem parseChunkHeader_line (small : n < 2 ^ 63) (ne : sig ≠ [])
    (hex : Hex sig) :
    parseChunkHeader (hexLength n ++ 59 :: (ascii "chunk-signature=" ++ sig)) = .ok (n, sig) := by
  have noSemi : ∀ b ∈ hexLength n, (b != 59) = true := fun b mem =>
    bne_iff_ne.mpr fun eq => (hex_hexLength n).not_mem (by decide) (eq ▸ mem)
  have cut : (hexLength n ++ 59 :: (ascii "chunk-signature=" ++ sig)).span (· != 59) =
      (hexLength n, 59 :: (ascii "chunk-signature=" ++ sig)) := by
    rw [List.span_eq_takeWhile_dropWhile, List.takeWhile_append_of_pos noSemi,
      List.dropWhile_append_of_pos noSemi]
    simp
  have noSemi' : 59 ∉ ascii "chunk-signature=" ++ sig := by
    rw [List.mem_append]
    rintro (mem | mem)
    · exact absurd mem (by decide)
    · exact hex.not_mem (by decide) mem
  have one : (ascii "chunk-signature=" ++ sig).splitOn 59 = [ascii "chunk-signature=" ++ sig] := by
    apply List.splitOnP_eq_singleton
    intro b mem
    exact beq_false_of_ne fun eq => noSemi' (eq ▸ mem)
  have trimmed : trimSpace (ascii "chunk-signature=" ++ sig) = ascii "chunk-signature=" ++ sig :=
    trimSpace_of_ends (show _ = 99 :: (ascii "hunk-signature=" ++ sig) from rfl)
      (by rw [List.getLast?_append_of_ne_nil _ ne]; exact List.getLast?_eq_some_getLast ne) (by decide)
      (solid_hexDigits _ (hex _ (List.getLast_mem ne)))
  have found : (ascii "chunk-signature=").isPrefixOf (ascii "chunk-signature=" ++ sig) = true :=
    List.isPrefixOf_iff_prefix.mpr (List.prefix_append _ _)
  rw [parseChunkHeader]
  simp only [cut, List.drop_one, List.tail_cons, one, List.foldl_cons, List.foldl_nil, trimmed, found,
    if_true, List.drop_left, trimSpace_hex (hexLength_ne_nil n) (hex_hexLength n),
    parseInt_hexLength small, if_neg ne]
  rw [if_neg (by omega)]
  rfl

/-! ### Whole bodies -/

theorem trimRight_headerLine (ne : sig ≠ []) (hex : Hex sig) :
    trimRight (headerLine n sig) = hexLength n ++ 59 :: (ascii "chunk-signature=" ++ sig) := by
  obtain ⟨init, last, rfl⟩ : ∃ init last, sig = init ++ [last] :=
    ⟨_, _, (List.dropLast_append_getLast ne).symm⟩
  have digit : last ∈ hexDigits := hex last (by simp)
  have solid : (last == 13 || last == 10) = false := by
    have table : ∀ b ∈ hexDigits, (b == 13 || b == 10) = false := by decide +kernel
    exact table last digit
  simp [trimRight, headerLine, solid]

theorem headerLine_spec (rest : Bytes) (ne : sig ≠ []) (hex : Hex sig) :
    HeaderLine (headerLine n sig ++ 10 :: rest)
      (hexLength n ++ 59 :: (ascii "chunk-signature=" ++ sig)) rest := by
  refine ⟨headerLine n sig, ?_, rfl, (trimRight_headerLine ne hex).symm⟩
  simp only [headerLine, List.mem_append, List.mem_cons, List.not_mem_nil, or_false]
  rintro ((mem | mem | mem | mem) | mem)
  · exact (hex_hexLength n).not_mem (by decide) mem
  · exact absurd mem (by decide)
  · exact absurd mem (by decide)
  · exact hex.not_mem (by decide) mem
  · exact absurd mem (by decide)

/-- The digest has the 32 bytes of SHA-256. -/
def Signer.Sized (k : Signer) : Prop := ∀ key text, (k.hmacSHA256 key text).length = 32

theorem Signer.Sized.chunkSignature_ne_nil (sized : k.Sized) (prev data : Bytes) :
    k.chunkSignature prev data ≠ [] := by
  intro empty
  have long := sized k.signingKey (k.stringToSign prev data)
  have count : (k.chunkSignature prev data).length =
      2 * (k.hmacSHA256 k.signingKey (k.stringToSign prev data)).length := by
    simp [chunkSignature, hexEncode, Nat.mul_comm]
  rw [empty, long] at count
  cases count

/-- What was written is a signed stream. -/
theorem signedStream_encodeChunks (sized : k.Sized) (trailer : Bytes) {chunks : List Bytes}
    (nonempty : ∀ data ∈ chunks, data ≠ []) (short : ∀ data ∈ chunks, data.length < 2 ^ 63)
    (prev : Bytes) : SignedStream k prev (encodeChunks k trailer prev chunks) chunks.flatten := by
  induction chunks generalizing prev with
  | nil =>
    have ne := sized.chunkSignature_ne_nil prev []
    have hex : Hex (k.chunkSignature prev []) := hex_hexEncode _
    exact .last ⟨_, trailer, _, headerLine_spec trailer ne hex,
      parseChunkHeader_line (by decide) ne hex, rfl⟩
  | cons data chunks ih =>
    have ne := sized.chunkSignature_ne_nil prev data
    have hex : Hex (k.chunkSignature prev data) := hex_hexEncode _
    have tail := ih (fun d mem => nonempty d (List.mem_cons_of_mem _ mem))
      (fun d mem => short d (List.mem_cons_of_mem _ mem)) (k.chunkSignature prev data)
    refine .chunk ⟨⟨_, headerLine_spec _ ne hex, ?_⟩, rfl, nonempty data List.mem_cons_self⟩ tail
    exact parseChunkHeader_line (short data List.mem_cons_self) ne hex

/-! ### Reading with any buffers -/

/-- The answers to reads with buffers of the given sizes. -/
def reads (k : Signer) : List Nat → ChunkedReader → List (Bytes × Option ReadErr)
  | [], _ => []
  | n :: sizes, c =>
    let (c, data, err) := c.read k n
    (data, err) :: reads k sizes c

theorem reads_cons {c c' : ChunkedReader} {err : Option ReadErr} (h : c.read k n = (c', data, err))
    (sizes : List Nat) : reads k (n :: sizes) c = (data, err) :: reads k sizes c' := by
  simp only [reads, h]

/-- Answers that hand out some bytes piece by piece and then only the end of the file; the reads may
stop anywhere. -/
inductive HandsOut : Bytes → List (Bytes × Option ReadErr) → Prop where
  | stopped (D : Bytes) : HandsOut D []
  | piece {D : Bytes} {answers : List (Bytes × Option ReadErr)} {piece : Bytes} (ne : piece ≠ [])
      (h : HandsOut D answers) : HandsOut (piece ++ D) ((piece, none) :: answers)
  | ended (times : Nat) : HandsOut [] (List.replicate times ([], some .eof))

/-- Once the end was reported, it is reported again and again. -/
theorem reads_ended {c : ChunkedReader} (empty : c.pending = []) (ended : c.err = some .eof) :
    reads k sizes c = List.replicate sizes.length ([], some .eof) := by
  have again : ∀ n, c.read k n = (c, [], some .eof) := by
    intro n
    rw [ChunkedReader.read, fill, if_neg (not_not.mpr empty), ended]
  induction sizes with
  | nil => rfl
  | cons n sizes ih => rw [reads_cons (again n), ih, List.length_cons, List.replicate_succ]

/-- A signed stream is handed out in order, whatever the buffers. -/
theorem reads_stream (positive : ∀ n ∈ sizes, 0 < n) (stream : SignedStream k prev input more) :
    HandsOut (pending ++ more) (reads k sizes (ready prev input pending)) := by
  induction sizes generalizing prev input more pending with
  | nil => exact .stopped _
  | cons n sizes ih =>
    have pos : 0 < n := positive n List.mem_cons_self
    have later : ∀ m ∈ sizes, 0 < m := fun m mem => positive m (List.mem_cons_of_mem _ mem)
    have some_of : ∀ data : Bytes, data ≠ [] → data.take n ≠ [] := by
      intro data ne
      simpa [Nat.pos_iff_ne_zero.mp pos] using ne
    by_cases ne : pending ≠ []
    · rw [reads_cons (read_pending ne)]
      have tail : HandsOut (pending.take n ++ (pending.drop n ++ more)) _ :=
        .piece (some_of pending ne) (ih later stream)
      rwa [← List.append_assoc, List.take_append_drop] at tail
    obtain rfl : pending = [] := not_not.mp ne
    cases stream with
    | last last =>
      have ended := (readChunk_eof (c := ready prev input [])).mpr (.inl last)
      rcases step : (ready prev input []).readChunk k with ⟨c', failed⟩
      rw [step] at ended
      obtain rfl : failed = some .eof := ended
      have kept := readChunk_pending step
      have answer : (ready prev input []).read k n = ({ c' with err := some .eof }, [], some .eof) := by
        rw [ChunkedReader.read, fill, if_neg (not_not.mpr rfl)]
        simp only [Bool.false_eq_true, if_false, step, kept, if_true]
      rw [reads_cons answer, reads_ended (by exact kept) rfl]
      exact .ended (sizes.length + 1)
    | @chunk _ _ sig data rest more signed tail =>
      rw [reads_cons (read_chunk signed)]
      have tail : HandsOut (data.take n ++ (data.drop n ++ more)) _ :=
        .piece (some_of data signed.nonempty) (ih later tail)
      rwa [← List.append_assoc, List.take_append_drop] at tail

theorem length_reads (sizes : List Nat) (c : ChunkedReader) : (reads k sizes c).length = sizes.length := by
  induction sizes generalizing c with
  | nil => rfl
  | cons n sizes ih => rw [reads, List.length_cons, ih, List.length_cons]

/-- More reads than there are bytes reach the end. -/
theorem HandsOut.ends {answers : List (Bytes × Option ReadErr)} (h : HandsOut D answers)
    (many : D.length < answers.length) :
    ∃ (pieces : List Bytes) (times : Nat), answers = pieces.map (fun piece => (piece, none)) ++
      List.replicate (times + 1) ([], some .eof) ∧ pieces.flatten = D := by
  induction h with
  | stopped D => exact absurd many (Nat.not_lt_zero _)
  | @piece D answers piece ne _ ih =>
    have pos := List.length_pos_iff.mpr ne
    rw [List.length_append, List.length_cons] at many
    obtain ⟨pieces, times, rfl, rfl⟩ := ih (by omega)
    exact ⟨piece :: pieces, times, rfl, rfl⟩
  | ended times =>
    cases times with
    | zero => exact absurd many (Nat.not_lt_zero _)
    | succ times => exact ⟨[], times, rfl, rfl⟩

/-- What was written in chunks is read back, whatever the buffers and whatever follows the last
chunk: its data in order, and then the end of the file at every further read. -/
theorem chunks_read_back (k : Signer) (sized : k.Sized) (seed trailer : Bytes) (chunks : List Bytes)
    (nonempty : ∀ data ∈ chunks, data ≠ []) (short : ∀ data ∈ chunks, data.length < 2 ^ 63)
    (sizes : List Nat) (positive : ∀ n ∈ sizes, 0 < n) :
    let answers := reads k sizes (newChunkedReader (encodeChunks k trailer seed chunks) seed)
    HandsOut chunks.flatten answers ∧
      (chunks.flatten.length < sizes.length → ∃ (pieces : List Bytes) (times : Nat),
        answers = pieces.map (fun piece => (piece, none)) ++
          List.replicate (times + 1) ([], some .eof) ∧ pieces.flatten = chunks.flatten) := by
  intro answers
  have stream := signedStream_encodeChunks sized trailer nonempty short seed
  have handsOut : HandsOut ([] ++ chunks.flatten) answers := reads_stream positive stream
  constructor
  · exact handsOut
  · intro many
    apply handsOut.ends
    rwa [length_reads]

/-- A signer whose digest has 32 bytes. -/
def paddedSigner : Signer where
  signingKey := [1]
  scope := [2]
  amzDate := [3]
  hmacSHA256 key text := (key ++ text ++ List.replicate 32 0).take 32
  sha256 data := data

theorem two_chunks_read_back :
    HandsOut [104, 13, 10, 105] (reads paddedSigner [2, 1, 3, 1, 1]
      (newChunkedReader (encodeChunks paddedSigner [120, 10] [7] [[104, 13, 10], [105]]) [7])) := by
  have sized : paddedSigner.Sized := by
    intro key text
    simp only [paddedSigner, List.length_take, List.length_append, List.length_replicate]
    omega
  exact (chunks_read_back paddedSigner sized [7] [120, 10] [[104, 13, 10], [105]] (by decide) (by decide)
    [2, 1, 3, 1, 1] (by decide)).1

end D9Store.Auth
