import D9Store.Types

/-!
The decoder of signed streaming bodies (`internal/auth/chunked.go`).

A body is a sequence of chunks `<hex-length>;chunk-signature=<hex-signature>\r\n<data>\r\n`. The
reader parses them from its input one by one and checks each signature against the running chain.
Text is kept as bytes, as Go does.
-/

namespace D9Store.Auth

/-- The bytes of an ASCII text. -/
def ascii (text : String) : Bytes := text.toList.map fun c => UInt8.ofNat c.toNat

/-- `hex.EncodeToString`. -/
def hexEncode (bytes : Bytes) : Bytes :=
  let digit (n : UInt8) : UInt8 := if n < 10 then 48 + n else 87 + n
  bytes.flatMap fun b => [digit (b / 16), digit (b % 16)]

/-! ### Text -/

/-- The UTF-8 encodings of the characters `unicode.IsSpace` accepts. -/
def spaces : List Bytes :=
  [[9], [10], [11], [12], [13], [32], [0xC2, 0x85], [0xC2, 0xA0], [0xE1, 0x9A, 0x80],
   [0xE2, 0x80, 0x80], [0xE2, 0x80, 0x81], [0xE2, 0x80, 0x82], [0xE2, 0x80, 0x83],
   [0xE2, 0x80, 0x84], [0xE2, 0x80, 0x85], [0xE2, 0x80, 0x86], [0xE2, 0x80, 0x87],
   [0xE2, 0x80, 0x88], [0xE2, 0x80, 0x89], [0xE2, 0x80, 0x8A], [0xE2, 0x80, 0xA8],
   [0xE2, 0x80, 0xA9], [0xE2, 0x80, 0xAF], [0xE2, 0x81, 0x9F], [0xE3, 0x80, 0x80]]

/-- Drops encodings from the front, as long as there are any. -/
def dropFront (marks : List Bytes) : Nat → Bytes → Bytes
  | 0, text => text
  | fuel + 1, text =>
    match marks.find? (·.isPrefixOf text) with
    | some mark => dropFront marks fuel (text.drop mark.length)
    | none => text

/-- `strings.TrimSpace`. -/
def trimSpace (text : Bytes) : Bytes :=
  let left := dropFront spaces text.length text
  (dropFront (spaces.map List.reverse) left.length left.reverse).reverse

/-- `strings.TrimRight(text, "\r\n")`. -/
def trimRight (text : Bytes) : Bytes := (text.reverse.dropWhile fun b => b == 13 || b == 10).reverse

def hexDigit (b : UInt8) : Option Nat :=
  if 48 ≤ b ∧ b ≤ 57 then some (b - 48).toNat
  else if 97 ≤ b ∧ b ≤ 102 then some (b - 87).toNat
  else if 65 ≤ b ∧ b ≤ 70 then some (b - 55).toNat
  else none

/-- `strconv.ParseUint(text, 16, 64)`, without its bound. -/
def parseUint (text : Bytes) : Option Nat :=
  if text = [] then none
  else text.foldlM (fun n b => (hexDigit b).map (16 * n + ·)) 0

/-- `strconv.ParseInt(text, 16, 64)`. -/
def parseInt (text : Bytes) : Option Int :=
  match text with
  | 43 :: digits => bounded digits
  | 45 :: digits => (parseUint digits).bind fun n => if n ≤ 2 ^ 63 then some (-n) else none
  | digits => bounded digits
where
  bounded (digits : Bytes) : Option Int :=
    (parseUint digits).bind fun n => if n < 2 ^ 63 then some n else none

/-! ### Signatures -/

/-- What the chain of signatures is computed from. The two hash functions are parameters. -/
structure Signer where
  signingKey : Bytes
  scope : Bytes
  amzDate : Bytes
  hmacSHA256 : Bytes → Bytes → Bytes
  sha256 : Bytes → Bytes

namespace Signer

variable (k : Signer)

def stringToSign (prevSig data : Bytes) : Bytes :=
  [10].intercalate
    [ascii "AWS4-HMAC-SHA256-PAYLOAD", k.amzDate, k.scope, prevSig,
     ascii "e3b0c44298fc1c149afbf4c8996fb92427ae41e4649b934ca495991b7852b855",
     hexEncode (k.sha256 data)]

/-- The signature a chunk must have after a chunk signed `prevSig`. -/
def chunkSignature (prevSig data : Bytes) : Bytes :=
  hexEncode (k.hmacSHA256 k.signingKey (k.stringToSign prevSig data))

end Signer

/-! ### The reader -/

/-- The errors of a read. -/
inductive ReadErr where
  | eof
  /-- aws-chunked: reading chunk header -/
  | header
  /-- aws-chunked: invalid chunk size -/
  | size (text : Bytes)
  /-- aws-chunked: missing chunk-signature -/
  | signature
  /-- aws-chunked: reading chunk data -/
  | data
  /-- aws-chunked: chunk signature does not match -/
  | mismatch
  /-- aws-chunked: reading chunk terminator -/
  | cut
  /-- aws-chunked: malformed chunk terminator -/
  | terminator
  deriving DecidableEq

/-- `parseChunkHeader`: the size and the signature, the last one when there are several. -/
def parseChunkHeader (header : Bytes) : Except ReadErr (Nat × Bytes) :=
  let (sizeStr, ext) := header.span (· != 59)
  let sig := ((ext.drop 1).splitOn 59).foldl (fun sig kv =>
    let kv := trimSpace kv
    let mark := ascii "chunk-signature="
    if mark.isPrefixOf kv then kv.drop mark.length else sig) []
  match parseInt (trimSpace sizeStr) with
  | none => .error (.size sizeStr)
  | some size =>
    if size < 0 then .error (.size sizeStr)
    else if sig = [] then .error .signature
    else .ok (size.toNat, sig)

/-- `chunkedReader`. The body that is left is its input. -/
structure ChunkedReader where
  input : Bytes
  prevSig : Bytes
  pending : Bytes := []
  done : Bool := false
  err : Option ReadErr := none
  deriving DecidableEq

/-- `bufio.Reader.ReadString('\n')`: the line with its end, what follows it, and whether the end
was there. -/
def readString (input : Bytes) : Bytes × Bytes × Bool :=
  match input.span (· != 10) with
  | (line, []) => (line, [], false)
  | (line, nl :: rest) => (line ++ [nl], rest, true)

/-- `drainTrailers`: lines are discarded up to a blank one. -/
def drainTrailers : Nat → Bytes → Bytes
  | 0, input => input
  | fuel + 1, input =>
    let (line, rest, found) := readString input
    if trimRight line = [] then rest
    else if found then drainTrailers fuel rest
    else rest

/-- `consumeCRLF`. -/
def consumeCRLF (input : Bytes) : Bytes × Option ReadErr :=
  match input with
  | 13 :: 10 :: rest => (rest, none)
  | _ :: _ :: rest => (rest, some .terminator)
  | _ => ([], some .cut)

namespace ChunkedReader

variable (k : Signer)

/-- The end of the body was reached. -/
def finish (c : ChunkedReader) : ChunkedReader :=
  { c with done := true, input := drainTrailers (c.input.length + 1) c.input }

/-- `readChunk`. -/
def readChunk (c : ChunkedReader) : ChunkedReader × Option ReadErr :=
  let (header, rest, found) := readString c.input
  let c := { c with input := rest }
  if !found then
    if trimSpace header = [] then ({ c with done := true }, some .eof)
    else (c, some .header)
  else if trimRight header = [] then (c.finish, some .eof)
  else
    match parseChunkHeader (trimRight header) with
    | .error err => (c, some err)
    | .ok (size, sig) =>
      if c.input.length < size then ({ c with input := [] }, some .data)
      else
        let data := c.input.take size
        let c := { c with input := c.input.drop size }
        if k.chunkSignature c.prevSig data ≠ sig then (c, some .mismatch)
        else
          let c := { c with prevSig := sig }
          if size > 0 then
            match consumeCRLF c.input with
            | (rest, some err) => ({ c with input := rest }, some err)
            | (rest, none) => ({ c with input := rest, pending := c.pending ++ data }, none)
          else (c.finish, some .eof)

/-- The loop of `Read`: chunks are read until there is data or an error. -/
def fill : Nat → ChunkedReader → ChunkedReader × Option ReadErr
  | 0, c => (c, none)
  | fuel + 1, c =>
    if c.pending ≠ [] then (c, none)
    else
      match c.err with
      | some err => (c, some err)
      | none =>
        if c.done then (c, some .eof)
        else
          match c.readChunk k with
          | (c, none) => fill fuel c
          | (c, some err) =>
            let c := { c with err := some err }
            if c.pending = [] then (c, some err) else fill fuel c

/-- `Read` into a buffer of `n` bytes. -/
def read (n : Nat) (c : ChunkedReader) : ChunkedReader × Bytes × Option ReadErr :=
  match c.fill k (c.input.length + 1) with
  | (c, some err) => (c, [], some err)
  | (c, none) => ({ c with pending := c.pending.drop n }, c.pending.take n, none)

/-- Reads with buffers of the given sizes up to the first error: the data and that error. -/
def readAll : List Nat → ChunkedReader → Bytes × Option ReadErr
  | [], _ => ([], none)
  | n :: sizes, c =>
    match c.read k n with
    | (_, data, some err) => (data, some err)
    | (c, data, none) =>
      let (more, err) := readAll sizes c
      (data ++ more, err)

end ChunkedReader

/-- `newChunkedReader`. -/
def newChunkedReader (body seedSignature : Bytes) : ChunkedReader :=
  { input := body, prevSig := seedSignature }

end D9Store.Auth
