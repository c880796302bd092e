import D9Store.Node.Shards

/-!
The gateway's client of the storage tier (`internal/cluster/client.go`) and the cluster it
talks to.

A replica keeps what it took in, in order: fanned-out payloads, and of every shard a
beginning of the shard's committed log. Its opinion on who leads a shard is its own and
changes at any moment. The client learns of all this only through its calls, which are
numbered and answered one after the other.
-/

namespace D9Store

open Posix

/-! ### The cluster -/

/-- One thing a replica takes in. -/
inductive Intake where
  | blob (token : String) (payload : Bytes)
  | part (uploadID : String) (number : Int) (payload : Bytes)
  | entry (shard : Nat) (logged : LogEntry) (attempts : List (List Peer))

namespace Intake

def run (e : Env) : Intake → Backend → Backend
  | .blob token payload, b => final (Backend.onDisk (e.handleBlobPut token payload)) b
  | .part uploadID number payload, b =>
    final (Backend.onDisk (e.handlePartPut uploadID number payload)) b
  | .entry _ logged attempts, b => (Fsm.apply e logged attempts { backend := b }).2.backend

def runs (e : Env) (acts : List Intake) (b : Backend) : Backend :=
  acts.foldl (fun b act => act.run e b) b

def ofShard (shard : Nat) : Intake → Option LogEntry
  | .entry i logged _ => if i = shard then some logged else none
  | _ => none

end Intake

structure Replica where
  reachable : Bool := true
  /-- Whom the node believes to lead each shard (`raft.LeaderWithID`). -/
  leader : Nat → Option String := fun _ => none
  acts : List Intake := []

/-- The entries of a shard the node has applied. -/
def Replica.applied (r : Replica) (shard : Nat) : List LogEntry :=
  r.acts.filterMap (Intake.ofShard shard)

structure Cluster where
  shards : Nat
  shards_pos : 0 < shards
  /-- The committed log of each shard. -/
  logs : Nat → List Payload
  replicas : String → Replica

/-- A cluster in which nothing happened yet. Without a shard count the nodes start with one
shard. -/
def Cluster.initial (shards : Nat) : Cluster where
  shards := max shards 1
  shards_pos := by omega
  logs _ := []
  replicas _ := {}

inductive Cluster.Event where
  | commit (shard : Nat) (payload : Payload)
  | apply (node : String) (shard : Nat) (attempts : List (List Peer))
  | blob (node token : String) (payload : Bytes)
  | part (node uploadID : String) (number : Int) (payload : Bytes)
  | elect (node : String) (shard : Nat) (leader : Option String)
  | link (node : String) (up : Bool)

namespace Cluster

def modify (w : Cluster) (node : String) (f : Replica → Replica) : Cluster :=
  { w with replicas := Function.update w.replicas node (f (w.replicas node)) }

def takeIn (w : Cluster) (node : String) (act : Intake) : Cluster :=
  w.modify node fun r => { r with acts := r.acts ++ [act] }

def step (w : Cluster) : Event → Cluster
  | .commit shard payload =>
    { w with logs := Function.update w.logs shard (w.logs shard ++ [payload]) }
  | .apply node shard attempts =>
    let index := ((w.replicas node).applied shard).length
    match (w.logs shard)[index]? with
    | some payload => w.takeIn node (.entry shard ⟨index, payload⟩ attempts)
    | none => w
  | .blob node token payload => w.takeIn node (.blob token payload)
  | .part node uploadID number payload => w.takeIn node (.part uploadID number payload)
  | .elect node shard leader =>
    w.modify node fun r => { r with leader := Function.update r.leader shard leader }
  | .link node up => w.modify node fun r => { r with reachable := up }

def after (w : Cluster) (evs : List Event) : Cluster :=
  evs.foldl step w

/-- What a node serves reads from. -/
def backend (w : Cluster) (e : Env) (b : Backend) (node : String) : Backend :=
  Intake.runs e (w.replicas node).acts b

/-- The node is connected and believes that it leads the shard. -/
def claims (w : Cluster) (node : String) (shard : Nat) : Bool :=
  (w.replicas node).reachable && decide ((w.replicas node).leader shard = some node)

/-- The node has applied the entry at this index of the shard's log. -/
def hasApplied (w : Cluster) (node : String) (shard index : Nat) : Prop :=
  index < ((w.replicas node).applied shard).length

instance (w : Cluster) (node : String) (shard index : Nat) :
    Decidable (w.hasApplied node shard index) :=
  inferInstanceAs (Decidable (_ < _))

end Cluster

/-! ### Status -/

structure Status where
  isLeader : Bool
  numShards : Nat
  shards : List (Nat × Bool)

/-- `Status.LeadsShard`. -/
def Status.leadsShard (s : Status) (shard : Nat) : Bool :=
  match s.shards.find? fun sh => sh.1 = shard with
  | some sh => sh.2
  | none => false

/-- `Node.status`. -/
def Cluster.status (w : Cluster) (node : String) : Status :=
  let leads := fun shard => decide ((w.replicas node).leader shard = some node)
  { isLeader := leads 0
    numShards := w.shards
    shards := (List.range w.shards).map fun shard => (shard, leads shard) }

/-- `handleStatus`, when the node can be reached. -/
def Cluster.statusOf (w : Cluster) (node : String) : Option Status :=
  if (w.replicas node).reachable then some (w.status node) else none

/-! ### The client -/

/-- What a posted command comes back with. -/
inductive PostReply where
  | unreachable
  /-- Status 421: the node does not lead the shard. -/
  | misdirected
  | refused
  | committed (index : Nat)

/-- The answers to the client's calls, by the number of the call. -/
structure Answers where
  status : Nat → String → Option Status
  post : Nat → String → Command → PostReply

/-- `Client`, with the number of its next call and the commands it has posted. -/
structure Client where
  nodes : List String
  /-- The cached shard count, 0 while it is unknown. -/
  shards : Nat := 0
  calls : Nat := 0
  /-- The posts so far: the number of the call and the node. -/
  posted : List (Nat × String) := []
  deriving DecidableEq, Repr

/-- The nodes' statuses are asked for in turn, from call `k` on, until one serves. The
second component is the number of the next call. -/
def Answers.poll (a : Answers) (serves : Status → Bool) :
    List String → Nat → Option (String × Status) × Nat
  | [], k => (none, k)
  | node :: rest, k =>
    match a.status k node with
    | some s => if serves s then (some (node, s), k + 1) else a.poll serves rest (k + 1)
    | none => a.poll serves rest (k + 1)

namespace Client

def ask (c : Client) (a : Answers) (serves : Status → Bool) : Option (String × Status) × Client :=
  let (found, k) := a.poll serves c.nodes c.calls
  (found, { c with calls := k })

/-- `leader`. -/
def leader (c : Client) (a : Answers) : Option String × Client :=
  let (found, c) := c.ask a (·.isLeader)
  (found.map (·.1), c)

/-- `reader`. -/
def reader (c : Client) (a : Answers) : Option String × Client :=
  match c.leader a with
  | (some node, c) => (some node, c)
  | (none, c) =>
    let (found, c) := c.ask a fun _ => true
    (found.map (·.1), c)

/-- `numShards`. -/
def numShards (c : Client) (a : Answers) : Nat × Client :=
  if c.shards > 0 then (c.shards, c)
  else
    match c.ask a fun s => decide (s.numShards > 0) with
    | (some (_, s), c) => (s.numShards, { c with shards := s.numShards })
    | (none, c) => (1, c)

/-- `shardFor`. -/
def shardFor (c : Client) (a : Answers) (bucket : String) : Nat × Client :=
  let (n, c) := c.numShards a
  (if bucket = "" ∨ n ≤ 1 then 0 else (fnv32a bucket % UInt32.ofNat n).toNat, c)

/-- `leaderForShard`. -/
def leaderForShard (c : Client) (a : Answers) (shard : Nat) : Option String × Client :=
  let (found, c) := c.ask a fun s => s.leadsShard shard
  (found.map (·.1), c)

/-- The attempts of `Submit`: the index of the committed entry, if one was committed. -/
def submitTo (a : Answers) (cmd : Command) (shard : Nat) : Nat → Client → Option Nat × Client
  | 0, c => (none, c)
  | attempts + 1, c =>
    match c.leaderForShard a shard with
    | (none, c) => submitTo a cmd shard attempts c
    | (some node, c) =>
      let next := { c with calls := c.calls + 1, posted := c.posted ++ [(c.calls, node)] }
      match a.post c.calls node cmd with
      | .unreachable | .refused => (none, next)
      | .misdirected => submitTo a cmd shard attempts next
      | .committed index => (some index, next)

/-- `Submit`. -/
def submit (c : Client) (a : Answers) (cmd : Command) : Option Nat × Client :=
  let (shard, c) := c.shardFor a cmd.bucket
  submitTo a cmd shard 6 c

/-- `readerForBucket`. -/
def readerForBucket (c : Client) (a : Answers) (bucket : String) : Option String × Client :=
  let (shard, c) := c.shardFor a bucket
  match c.leaderForShard a shard with
  | (some node, c) => (some node, c)
  | (none, c) => c.reader a

end Client

/-! ### What the client finds -/

theorem shardOf_lt {shards : Nat} (pos : 0 < shards) (bucket : String) :
    shardOf shards bucket < shards := by
  unfold shardOf
  split
  · exact pos
  · rw [UInt32.toNat_mod, UInt32.toNat_ofNat']
    by_cases wraps : shards % 2 ^ 32 = 0
    · have hash := (fnv32a bucket).toNat_lt
      rw [wraps, Nat.mod_zero]
      omega
    · exact lt_of_lt_of_le (Nat.mod_lt _ (Nat.pos_of_ne_zero wraps)) (Nat.mod_le _ _)

theorem Cluster.leadsShard_status (w : Cluster) (node : String) {shard : Nat}
    (lt : shard < w.shards) :
    (w.status node).leadsShard shard = decide ((w.replicas node).leader shard = some node) := by
  have found : ((List.range w.shards).map fun shard =>
      (shard, decide ((w.replicas node).leader shard = some node))).find?
        (fun sh => decide (sh.1 = shard)) =
      some (shard, decide ((w.replicas node).leader shard = some node)) := by
    rw [List.find?_map]
    have here : (List.range w.shards).find? (fun i => decide (i = shard)) = some shard := by
      rw [List.find?_range_eq_some]
      refine ⟨by simp, List.mem_range.mpr lt, fun i less => by simp; omega⟩
    simp only [Function.comp_def, here, Option.map_some]
  simp only [Status.leadsShard, Cluster.status, found]

/-- A node tells that it leads a shard if and only if it is reached and believes so. -/
theorem Cluster.claims_iff (w : Cluster) (node : String) {shard : Nat} (lt : shard < w.shards) :
    w.claims node shard = true ↔ ∃ s, w.statusOf node = some s ∧ s.leadsShard shard = true := by
  cases up : (w.replicas node).reachable with
  | false => simp [claims, statusOf, up]
  | true => simp [claims, statusOf, up, leadsShard_status w node lt]

namespace Answers

variable {a : Answers} {serves : Status → Bool} {nodes : List String} {k m j : Nat} {node : String}
    {s : Status}

theorem poll_some (found : a.poll serves nodes k = (some (node, s), m)) :
    ∃ j, nodes[j]? = some node ∧ k + j < m ∧ a.status (k + j) node = some s ∧ serves s = true := by
  induction nodes generalizing k with
  | nil => simp [poll] at found
  | cons first rest ih =>
    have later (found : a.poll serves rest (k + 1) = (some (node, s), m)) :
        ∃ j, (first :: rest)[j]? = some node ∧ k + j < m ∧ a.status (k + j) node = some s ∧
          serves s = true := by
      obtain ⟨j, place, lt, answer, ok⟩ := ih found
      refine ⟨j + 1, place, by omega, ?_, ok⟩
      rw [← answer, Nat.add_right_comm, Nat.add_assoc]
    simp only [poll] at found
    split at found
    · rename_i answer
      split at found
      · rename_i ok
        cases found
        exact ⟨0, rfl, by omega, answer, ok⟩
      · exact later found
    · exact later found

theorem poll_none (found : a.poll serves nodes k = (none, m)) (place : nodes[j]? = some node)
    (answer : a.status (k + j) node = some s) : serves s = false := by
  induction nodes generalizing k j with
  | nil => simp at place
  | cons first rest ih =>
    cases j with
    | zero =>
      cases place
      rw [Nat.add_zero] at answer
      simp only [poll, answer] at found
      split at found
      · cases found
      · rename_i no
        exact Bool.eq_false_iff.mpr no
    | succ j =>
      have answer' : a.status (k + 1 + j) node = some s := by
        rw [← answer, Nat.add_right_comm, Nat.add_assoc]
      simp only [poll] at found
      split at found
      · split at found
        · cases found
        · exact ih found place answer'
      · exact ih found place answer'

theorem le_poll : k ≤ (a.poll serves nodes k).2 := by
  induction nodes generalizing k with
  | nil => exact le_rfl
  | cons first rest ih =>
    have more : k ≤ (a.poll serves rest (k + 1)).2 := (Nat.le_succ k).trans ih
    simp only [poll]
    split
    · split
      · exact Nat.le_succ k
      · exact more
    · exact more

end Answers

namespace Client

variable {c d b : Client} {a : Answers} {node : String}

/-- The client went on from one state to another: its list of nodes is fixed, its calls are
numbered upwards. -/
structure Onward (c d : Client) : Prop where
  nodes : d.nodes = c.nodes
  calls : c.calls ≤ d.calls

theorem Onward.refl (c : Client) : Onward c c :=
  ⟨rfl, le_rfl⟩

theorem Onward.trans (first : Onward b c) (second : Onward c d) : Onward b d :=
  ⟨second.nodes.trans first.nodes, first.calls.trans second.calls⟩

theorem ask_onward (c : Client) (a : Answers) (serves : Status → Bool) :
    Onward c (c.ask a serves).2 :=
  ⟨rfl, Answers.le_poll⟩

theorem leaderForShard_onward (c : Client) (a : Answers) (shard : Nat) :
    Onward c (c.leaderForShard a shard).2 :=
  ask_onward c a _

theorem numShards_onward (c : Client) (a : Answers) : Onward c (c.numShards a).2 := by
  unfold numShards
  split
  · exact Onward.refl c
  · have asked := ask_onward c a fun s => decide (s.numShards > 0)
    split <;> (rename_i found; rw [found] at asked; exact ⟨asked.nodes, asked.calls⟩)

theorem shardFor_onward (c : Client) (a : Answers) (bucket : String) :
    Onward c (c.shardFor a bucket).2 :=
  numShards_onward c a

theorem posted_leaderForShard (c : Client) (a : Answers) (shard : Nat) :
    (c.leaderForShard a shard).2.posted = c.posted := rfl

theorem posted_shardFor (c : Client) (a : Answers) (bucket : String) :
    (c.shardFor a bucket).2.posted = c.posted := by
  have counted : (c.numShards a).2.posted = c.posted := by
    unfold numShards
    split
    · rfl
    · have asked : (c.ask a fun s => decide (s.numShards > 0)).2.posted = c.posted := rfl
      split <;> (rename_i found; rw [found] at asked; exact asked)
  exact counted

/-- A client that knows the shard count finds a bucket's shard without a call. -/
theorem shardFor_known {shards : Nat} (known : c.shards = shards) (pos : 0 < shards)
    (bucket : String) : c.shardFor a bucket = (shardOf shards bucket, c) := by
  have count : c.numShards a = (shards, c) := by
    unfold numShards
    rw [if_pos (by omega), known]
  have one : shards ≤ 1 ↔ shards = 1 := by omega
  simp only [shardFor, count, shardOf, one]

/-- The client met the node while it went from `c` to `d`. -/
def Met (a : Answers) (node : String) (c d : Client) : Prop :=
  node ∈ c.nodes ∧ ∃ j, c.calls ≤ j ∧ j < d.calls ∧ (a.status j node).isSome

theorem Met.after (first : Onward b c) (met : Met a node c d) : Met a node b d := by
  obtain ⟨mem, j, ge, lt, answer⟩ := met
  exact ⟨first.nodes ▸ mem, j, first.calls.trans ge, lt, answer⟩

theorem ask_met {serves : Status → Bool} (found : (c.ask a serves).1.map (·.1) = some node) :
    Met a node c (c.ask a serves).2 := by
  obtain ⟨⟨node', s⟩, answer, rfl⟩ := Option.map_eq_some_iff.mp found
  obtain ⟨j, place, lt, status, -⟩ :=
    Answers.poll_some (m := (a.poll serves c.nodes c.calls).2) (Prod.ext answer rfl)
  exact ⟨List.mem_of_getElem? place, c.calls + j, Nat.le_add_right _ _, lt, by simp [status]⟩

theorem reader_met (found : (c.reader a).1 = some node) : Met a node c (c.reader a).2 := by
  unfold reader at found ⊢
  split at found
  · rename_i node' c' leads
    cases found
    have met : Met a node c (c.leader a).2 := ask_met (congrArg Prod.fst leads)
    rwa [leads] at met
  · rename_i c' leads
    have onward : Onward c (c.leader a).2 := ask_onward c a _
    rw [leads] at onward
    exact (ask_met found).after onward

/-- A read is sent to a node that answered while the read was routed. -/
theorem readerForBucket_met {bucket : String} (found : (c.readerForBucket a bucket).1 = some node) :
    Met a node c (c.readerForBucket a bucket).2 := by
  have shard := shardFor_onward c a bucket
  unfold readerForBucket at found ⊢
  dsimp only at found ⊢
  generalize (c.shardFor a bucket).2 = c₁ at shard found ⊢
  generalize (c.shardFor a bucket).1 = i at found ⊢
  split at found
  · rename_i node' c' leads
    cases found
    have met : Met a node c₁ (c₁.leaderForShard a i).2 := ask_met (congrArg Prod.fst leads)
    rw [leads] at met
    exact met.after shard
  · rename_i c' leads
    have onward := leaderForShard_onward c₁ a i
    rw [leads] at onward
    exact (reader_met found).after (shard.trans onward)

/-- A submission succeeds with its last call. -/
theorem submitTo_some {cmd : Command} {shard attempts index : Nat}
    (sent : submitTo a cmd shard attempts c = (some index, d)) :
    ∃ k node, k < d.calls ∧ a.post k node cmd = .committed index := by
  induction attempts generalizing c with
  | zero => simp [submitTo] at sent
  | succ attempts ih =>
    simp only [submitTo] at sent
    split at sent
    · exact ih sent
    · rename_i node c' leads
      split at sent
      · cases sent
      · cases sent
      · exact ih sent
      · rename_i index' answer
        cases sent
        exact ⟨c'.calls, node, Nat.lt_succ_self _, answer⟩

end Client

/-! ### Runs of the cluster -/

namespace Cluster

variable {w : Cluster} {evs : List Event} {node : String} {shard index : Nat}

@[simp]
theorem shards_step (w : Cluster) (ev : Event) : (w.step ev).shards = w.shards := by
  cases ev with
  | apply node shard attempts => simp only [step]; split <;> rfl
  | _ => rfl

@[simp]
theorem shards_after (w : Cluster) (evs : List Event) : (w.after evs).shards = w.shards := by
  induction evs generalizing w with
  | nil => rfl
  | cons ev evs ih => rw [after, List.foldl_cons, ← after, ih, shards_step]

theorem after_take_le {i j : Nat} (w : Cluster) (evs : List Event) (h : i ≤ j) :
    ∃ more, w.after (evs.take j) = (w.after (evs.take i)).after more := by
  refine ⟨(evs.take j).drop i, ?_⟩
  have parts : evs.take j = (evs.take j).take i ++ (evs.take j).drop i :=
    (List.take_append_drop i _).symm
  rw [List.take_take, Nat.min_eq_left h] at parts
  unfold after
  rw [← List.foldl_append, ← parts]

/-- Nothing leaves a log. -/
theorem logs_step (w : Cluster) (ev : Event) (shard : Nat) :
    w.logs shard <+: (w.step ev).logs shard := by
  cases ev with
  | commit shard' payload =>
    by_cases h : shard = shard'
    · subst h
      simp [step]
    · simp [step, Function.update_of_ne h]
  | apply node shard' attempts => simp only [step]; split <;> exact List.prefix_rfl
  | _ => exact List.prefix_rfl

theorem logs_after (w : Cluster) (evs : List Event) (shard : Nat) :
    w.logs shard <+: (w.after evs).logs shard := by
  induction evs generalizing w with
  | nil => exact List.prefix_rfl
  | cons ev evs ih => exact (logs_step w ev shard).trans (ih (w.step ev))

theorem acts_takeIn (w : Cluster) (node' : String) (act : Intake) (node : String) :
    (w.replicas node).acts <+: ((w.takeIn node' act).replicas node).acts := by
  by_cases h : node = node'
  · subst h
    simp [takeIn, modify]
  · simp [takeIn, modify, Function.update_of_ne h]

theorem acts_modify {f : Replica → Replica} (w : Cluster) (node' : String)
    (same : ∀ r, (f r).acts = r.acts) (node : String) :
    ((w.modify node' f).replicas node).acts = (w.replicas node).acts := by
  by_cases h : node = node'
  · subst h
    simp [modify, same]
  · simp [modify, Function.update_of_ne h]

@[simp]
theorem acts_elect (w : Cluster) (node' : String) (shard : Nat) (leader : Option String)
    (node : String) :
    ((w.step (.elect node' shard leader)).replicas node).acts = (w.replicas node).acts :=
  acts_modify (f := fun r => { r with leader := Function.update r.leader shard leader })
    w node' (fun _ => rfl) node

@[simp]
theorem acts_link (w : Cluster) (node' : String) (up : Bool) (node : String) :
    ((w.step (.link node' up)).replicas node).acts = (w.replicas node).acts :=
  acts_modify (f := fun r => { r with reachable := up }) w node' (fun _ => rfl) node

/-- A replica forgets nothing it took in. -/
theorem acts_step (w : Cluster) (ev : Event) (node : String) :
    (w.replicas node).acts <+: ((w.step ev).replicas node).acts := by
  cases ev with
  | commit shard payload => exact List.prefix_rfl
  | apply node' shard attempts =>
    simp only [step]
    split
    · exact acts_takeIn w node' _ node
    · exact List.prefix_rfl
  | blob node' token payload => exact acts_takeIn w node' _ node
  | part node' uploadID number payload => exact acts_takeIn w node' _ node
  | elect node' shard leader => rw [acts_elect]
  | link node' up => rw [acts_link]

theorem acts_after (w : Cluster) (evs : List Event) (node : String) :
    (w.replicas node).acts <+: ((w.after evs).replicas node).acts := by
  induction evs generalizing w with
  | nil => exact List.prefix_rfl
  | cons ev evs ih => exact (acts_step w ev node).trans (ih (w.step ev))

/-- An applied entry stays applied. -/
theorem hasApplied.after (h : w.hasApplied node shard index) (evs : List Event) :
    (w.after evs).hasApplied node shard index :=
  lt_of_lt_of_le h ((acts_after w evs node).filterMap (Intake.ofShard shard)).length_le

/-- Every replica has applied a beginning of every log. -/
def InOrder (w : Cluster) : Prop :=
  ∀ node shard index, ∀ logged : LogEntry, ((w.replicas node).applied shard)[index]? = some logged →
    logged.index = index ∧ (w.logs shard)[index]? = some logged.payload

theorem InOrder.initial (shards : Nat) : InOrder (initial shards) := by
  intro node shard index logged found
  simp [Cluster.initial, Replica.applied] at found

theorem InOrder.of_same {v : Cluster} (inv : InOrder v)
    (logs : ∀ shard, v.logs shard <+: w.logs shard) (applied : ∀ node shard,
      (w.replicas node).applied shard = (v.replicas node).applied shard) : InOrder w := by
  intro node shard index logged found
  rw [applied] at found
  obtain ⟨place, held⟩ := inv node shard index logged found
  obtain ⟨more, log⟩ := logs shard
  refine ⟨place, ?_⟩
  rw [← log, List.getElem?_append_left (List.getElem?_eq_some_iff.mp held).1]
  exact held

theorem applied_takeIn (w : Cluster) (node' : String) (act : Intake) (node : String) (shard : Nat) :
    ((w.takeIn node' act).replicas node).applied shard =
      (w.replicas node).applied shard ++
        if node = node' then (Intake.ofShard shard act).toList else [] := by
  by_cases h : node = node'
  · subst h
    cases entry : Intake.ofShard shard act <;>
      simp [takeIn, modify, Replica.applied, List.filterMap_append, entry]
  · simp [takeIn, modify, Replica.applied, h]

/-- A node applies the entry that is next in the shard's log. -/
theorem InOrder.takeIn_next (inv : InOrder w) {payload : Payload} (attempts : List (List Peer))
    (next : (w.logs shard)[((w.replicas node).applied shard).length]? = some payload) :
    InOrder (w.takeIn node
      (.entry shard ⟨((w.replicas node).applied shard).length, payload⟩ attempts)) := by
  intro node' shard' index logged found
  rw [applied_takeIn] at found
  by_cases here : node' = node ∧ shard' = shard
  · obtain ⟨rfl, rfl⟩ := here
    simp only [if_true, Intake.ofShard, Option.toList] at found
    rcases Nat.lt_or_ge index ((w.replicas node').applied shard').length with lt | ge
    · rw [List.getElem?_append_left lt] at found
      exact inv node' shard' index logged found
    · rw [List.getElem?_append_right ge, List.getElem?_singleton] at found
      split at found
      · rename_i last
        have place : index = ((w.replicas node').applied shard').length := by omega
        cases found
        exact ⟨place.symm, place ▸ next⟩
      · cases found
  · have none : (if node' = node then (Intake.ofShard shard' (.entry shard
        ⟨((w.replicas node).applied shard).length, payload⟩ attempts)).toList else []) = [] := by
      split
      · rename_i same
        have other : ¬shard = shard' := fun h => here ⟨same, h.symm⟩
        simp [Intake.ofShard, other]
      · rfl
    rw [none, List.append_nil] at found
    exact inv node' shard' index logged found

theorem InOrder.step (inv : InOrder w) (ev : Event) : InOrder (w.step ev) := by
  cases ev with
  | commit shard payload => exact inv.of_same (logs_step w _) fun _ _ => rfl
  | apply node shard attempts =>
    simp only [Cluster.step]
    split
    · rename_i payload next
      exact inv.takeIn_next attempts next
    · exact inv
  | blob node' token payload =>
    exact inv.of_same (fun _ => List.prefix_rfl) fun node shard => by
      simp [Cluster.step, applied_takeIn, Intake.ofShard]
  | part node' uploadID number payload =>
    exact inv.of_same (fun _ => List.prefix_rfl) fun node shard => by
      simp [Cluster.step, applied_takeIn, Intake.ofShard]
  | elect node' shard leader =>
    exact inv.of_same (fun _ => List.prefix_rfl) fun node shard => by
      simp only [Replica.applied, acts_elect]
  | link node' up =>
    exact inv.of_same (fun _ => List.prefix_rfl) fun node shard => by
      simp only [Replica.applied, acts_link]

theorem InOrder.after (inv : InOrder w) (evs : List Event) : InOrder (w.after evs) := by
  induction evs generalizing w with
  | nil => exact inv
  | cons ev evs ih => exact ih (inv.step ev)

end Cluster

end D9Store
