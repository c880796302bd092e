import D9Store.Backend.Apply

/-!
The replicated state machine: application of committed log entries and recovery of
payloads a node missed (`internal/storage/fsm.go`, `pullBlob` and `pullFromPeers` in
`node.go`, the peer endpoints of `node_http.go`).

A peer enters a pull only through what it answers, which its own disk at that moment
decides.
-/

namespace D9Store

open Posix

/-- A peer as one pull finds it. -/
structure Peer where
  disk : Disk
  reachable : Bool := true
  /-- The connection is lost after so many bytes. -/
  breaksAfter : Option Nat := none

/-- A response with status 200: the bytes that arrive and whether the transfer ends well. -/
structure Answer where
  bytes : Bytes
  whole : Bool

/-- What arrives of `body` when the peer announced `length` bytes. A body shorter than
announced ends the transfer with an error, a longer one is cut. -/
def Peer.send (peer : Peer) (body : Bytes) (length : Int) : Answer :=
  let full := body.take length.toNat
  match peer.breaksAfter with
  | some n => if n < full.length then ⟨full.take n, false⟩ else ⟨full, decide (length ≤ body.length)⟩
  | none => ⟨full, decide (length ≤ body.length)⟩

/-- `recoveryAttempts`. -/
def recoveryAttempts : Nat := 120

namespace Env

variable (e : Env)

/-! ### Peers -/

/-- `handleObject` on a peer, without a range. -/
def handleObject (peer : Peer) (bucket key version : String) : Option Answer :=
  if peer.reachable then
    match e.getObject peer.disk bucket key { versionID := version } with
    | .ok res => some (peer.send res.body res.partialLength)
    | .error _ => none
  else none

/-- `handlePartGet` on a peer. -/
def handlePartGet (peer : Peer) (uploadID : String) (part : Int) : Option Answer :=
  if peer.reachable then
    match peer.disk.file (e.mpPartPath uploadID part) with
    | some f => some (peer.send (e.bytes f.content) (e.size f.content))
    | none => none
  else none

/-! ### Recovery of a missing payload -/

/-- `pullFromPeers`: the payload is written in place while it arrives; the first whole
transfer ends the pull. The result tells whether there was one. -/
def pullFromPeers (dst : FilePath) : List (Option Answer) → M Bool
  | [] => pure false
  | none :: rest => pullFromPeers dst rest
  | some answer :: rest => do
    sys (mkdirAll dst.tail)
    let content := Content.raw answer.bytes
    sys (writeFile dst ⟨content, {}, .wall⟩ (written content))
    if answer.whole then pure true else pullFromPeers dst rest

/-- The parts a completion misses, pulled one after the other. -/
def pullParts (uploadID : String) (peers : List Peer) : List CompletedPart → M Bool
  | [] => pure true
  | p :: rest => do
    let dst := e.mpPartPath uploadID p.partNumber
    let present ← reading fun s => .ok (s.get dst).isSome
    if present then pullParts uploadID peers rest
    else do
      let pulled ← pullFromPeers dst (peers.map fun peer => e.handlePartGet peer uploadID p.partNumber)
      if pulled then pullParts uploadID peers rest else pure false

/-- The version `pullBlob` asks a peer for. -/
def pullVersion (s : Disk) (c : Command) : String :=
  match e.readBucketMeta s c.bucket with
  | .ok bm => if bm.versioningEnabled then c.versionID else ""
  | .error _ => ""

/-- `pullBlob`. -/
def pullBlob (c : Command) (peers : List Peer) : M Bool :=
  match c.op with
  | .completeMultipart => e.pullParts c.uploadID peers c.parts
  | _ => do
    let version ← reading fun s => .ok (e.pullVersion s c)
    pullFromPeers (e.stagingPath c.blobToken)
      (peers.map fun peer => e.handleObject peer c.bucket c.key version)

/-- The retry loop: one list of peers per attempt. -/
def recover (c : Command) : List (List Peer) → M Unit
  | [] => throw .blobMissing
  | peers :: rest => do
    match ← attempt (e.pullBlob c peers) with
    | .ok true => do
      match ← attempt (e.applyDisk c) with
      | .ok _ => pure ()
      | .error .blobMissing => recover c rest
      | .error (err : Err) => throw err
    | .ok false => recover c rest
    | .error (_ : Err) => recover c rest

/-- `applyWithRecovery`. -/
def applyWithRecovery (c : Command) (attempts : List (List Peer)) : M Unit := do
  match ← attempt (e.applyDisk c) with
  | .ok _ => pure ()
  | .error (err : Err) =>
    if err = .blobMissing ∧ c.blobToken ≠ "" then e.recover c (attempts.take recoveryAttempts)
    else throw err

end Env

/-! ### The state machine -/

/-- What a log entry carries; entries of other types and undecodable ones change
nothing. -/
inductive Payload where
  | command (c : Command)
  | garbage
  | internal

structure LogEntry where
  index : Nat
  payload : Payload

/-- `fsm`. -/
structure Fsm where
  backend : Backend
  applied : Nat := 0

/-- `fsm.Apply`: the index is recorded, never consulted. -/
def Fsm.apply (e : Env) (entry : LogEntry) (attempts : List (List Peer)) (f : Fsm) :
    Except Err Unit × Fsm :=
  let run : EStateM Err Backend Unit :=
    match entry.payload with
    | .command c =>
      match c.op with
      | .putAccount | .deleteAccount => Backend.apply e c
      | _ => Backend.onDisk (e.applyWithRecovery c attempts)
    | .garbage => throw .json
    | .internal => pure ()
  (outcome run f.backend, { backend := final run f.backend, applied := entry.index })

end D9Store
