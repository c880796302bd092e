import D9Store.Backend.Failures
import D9Store.Cluster.Client

/-!
What a node does with a posted command (`submitTo` in `internal/storage/node.go`, `handleCommand`
in `node_http.go`), and what arrives of its reply at the client.

The outcome of `raft.Apply` is given by the library: an entry that was not appended because the
node does not lead, an entry that may or may not stand in the log, or one that was committed and
applied by the node.
-/

namespace D9Store

/-- How a call of `raft.Apply` ends. -/
inductive RaftFuture where
  | notLeader
  /-- A timeout, a shutdown or lost leadership. The entry may have been appended. -/
  | failed (appended : Option Nat)
  /-- The entry was committed at the index, and applied to the node's state machine. -/
  | applied (index : Nat) (fsm : Fsm) (attempts : List (List Peer))

/-- Where the entry was appended. -/
def RaftFuture.appended : RaftFuture → Option Nat
  | .notLeader => none
  | .failed at_ => at_
  | .applied index _ _ => some index

/-- A position in a shard's log. -/
structure Position where
  shard : Nat
  index : Nat
  deriving DecidableEq

inductive SubmitErr where
  | outOfRange
  | notLeader
  | raft
  | response (err : Err)

/-- The status of an error in `handleCommand`. -/
def SubmitErr.status : SubmitErr → Nat
  | .notLeader => 421
  | .response err => err.status
  | .outOfRange | .raft => 500

/-- A reply to a posted command. -/
structure CommandReply where
  status : Nat
  index : Nat := 0

namespace Node

variable (e : Env) (shards : Nat) (raft : Nat → RaftFuture)

/-- `submitTo`, with the position the command was appended at. -/
def submitTo (shardIdx : Nat) (c : Command) : Except SubmitErr Nat × Option Position :=
  if shards ≤ shardIdx then (.error .outOfRange, none)
  else
    let placed := (raft shardIdx).appended.map (Position.mk shardIdx)
    match raft shardIdx with
    | .notLeader => (.error .notLeader, placed)
    | .failed _ => (.error .raft, placed)
    | .applied index fsm attempts =>
      match (fsm.apply e ⟨index, .command c⟩ attempts).1 with
      | .ok _ => (.ok index, placed)
      | .error err => (.error (.response err), placed)

/-- `handleCommand`. -/
def handleCommand (c : Command) : CommandReply × Option Position :=
  match submitTo e shards raft (shardOf shards c.bucket) c with
  | (.ok index, placed) => ({ status := 200, index }, placed)
  | (.error err, placed) => ({ status := err.status }, placed)

end Node

/-- What becomes of a posted request. -/
inductive Delivery where
  | requestLost
  | replyLost
  /-- The status arrives, the body does not. -/
  | cut
  | whole

/-- The storage tier as the calls of one client find it. -/
structure Network where
  /-- The shard count a node is configured with. -/
  shards : String → Nat
  status : Nat → String → Option Status
  delivery : Nat → String → Delivery
  raft : Nat → String → Nat → RaftFuture

namespace Network

variable (net : Network) (e : Env)

/-- The node's part of a call. -/
def handled (k : Nat) (node : String) (c : Command) : CommandReply × Option Position :=
  Node.handleCommand e (net.shards node) (net.raft k node) c

/-- What the client makes of the reply. -/
def post (k : Nat) (node : String) (c : Command) : PostReply :=
  let reply := (net.handled e k node c).1
  match net.delivery k node with
  | .requestLost | .replyLost => .unreachable
  | .cut => if reply.status = 421 then .misdirected else .refused
  | .whole =>
    if reply.status = 421 then .misdirected
    else if reply.status = 200 then .committed reply.index
    else .refused

/-- Where a call appends the command, if it does. -/
def placed (k : Nat) (node : String) (c : Command) : Option Position :=
  match net.delivery k node with
  | .requestLost => none
  | _ => (net.handled e k node c).2

def answers : Answers where
  status := net.status
  post := net.post e

end Network

/-! ### What a status tells -/

namespace Node

variable {e : Env} {shards : Nat} {raft : Nat → RaftFuture} {c : Command}

/-- A command is appended to the shard of its bucket, as the node counts shards. -/
theorem shard_of_handled {p : Position} (placed : (handleCommand e shards raft c).2 = some p) :
    p.shard = shardOf shards c.bucket := by
  have here : (handleCommand e shards raft c).2 =
      (submitTo e shards raft (shardOf shards c.bucket) c).2 := by
    unfold handleCommand
    rcases submitTo e shards raft (shardOf shards c.bucket) c with ⟨result, at_⟩
    cases result <;> rfl
  rw [here] at placed
  unfold submitTo at placed
  split at placed
  · cases placed
  · have at_ : (raft (shardOf shards c.bucket)).appended.map
        (Position.mk (shardOf shards c.bucket)) = some p := by
      cases outcome : raft (shardOf shards c.bucket) with
      | notLeader => simpa [outcome] using placed
      | failed appended => simpa [outcome] using placed
      | applied index fsm attempts =>
        simp only [outcome] at placed
        split at placed <;> exact placed
    obtain ⟨index, -, rfl⟩ := Option.map_eq_some_iff.mp at_
    rfl

/-- A node that is taken for the wrong one has appended nothing. -/
theorem placed_of_misdirected (status : (handleCommand e shards raft c).1.status = 421) :
    (handleCommand e shards raft c).2 = none := by
  unfold handleCommand submitTo at status ⊢
  by_cases range : shards ≤ shardOf shards c.bucket
  · simp [range, SubmitErr.status] at status
  · simp only [if_neg range] at status ⊢
    cases outcome : raft (shardOf shards c.bucket) with
    | notLeader => rfl
    | failed appended => simp [outcome, SubmitErr.status] at status
    | applied index fsm attempts =>
      simp only [outcome] at status
      cases response : (fsm.apply e ⟨index, .command c⟩ attempts).1 with
      | ok u => simp [response] at status
      | error err =>
        simp only [response, SubmitErr.status] at status
        exact absurd status (Fsm.apply_plain response).2

/-- Success is reported for a command that the node applied without an error. -/
theorem applied_of_ok (status : (handleCommand e shards raft c).1.status = 200) :
    ∃ fsm attempts, raft (shardOf shards c.bucket) =
        .applied (handleCommand e shards raft c).1.index fsm attempts ∧
      (Fsm.apply e ⟨(handleCommand e shards raft c).1.index, .command c⟩ attempts fsm).1 = .ok () ∧
      (handleCommand e shards raft c).2 =
        some ⟨shardOf shards c.bucket, (handleCommand e shards raft c).1.index⟩ := by
  unfold handleCommand submitTo at status ⊢
  by_cases range : shards ≤ shardOf shards c.bucket
  · simp [range, SubmitErr.status] at status
  · simp only [if_neg range] at status ⊢
    cases outcome : raft (shardOf shards c.bucket) with
    | notLeader => simp [outcome, SubmitErr.status] at status
    | failed appended => simp [outcome, SubmitErr.status] at status
    | applied index fsm attempts =>
      simp only [outcome] at status ⊢
      cases response : (fsm.apply e ⟨index, .command c⟩ attempts).1 with
      | ok u => exact ⟨fsm, attempts, rfl, response, rfl⟩
      | error err =>
        simp only [response, SubmitErr.status] at status
        have plain := (Fsm.apply_plain response).1
        omega

end Node

end D9Store
