import D9Store.Cluster.Client
import D9Store.Runs

/-!
Reads after acknowledged writes.

A gateway's read goes to the first node that tells it leads the bucket's shard, or to one that
answers at all when none does. Neither has to have applied what the gateway was told is
committed: the index it was given is never compared with anything.
-/

namespace D9Store

def Payload.carries (cmd : Command) : Payload → Bool
  | .command c => decide (c = cmd)
  | _ => false

theorem Payload.eq_of_carries {cmd : Command} {p : Payload} (h : p.carries cmd = true) :
    p = .command cmd := by
  cases p with
  | command c => rw [of_decide_eq_true h]
  | garbage => cases h
  | internal => cases h

/-- A run of the cluster, with the number of events before each call of a client. -/
structure Timeline where
  shards : Nat
  events : List Cluster.Event
  time : Nat → Nat
  ordered : Monotone time

namespace Timeline

variable (T : Timeline)

/-- The cluster as call `k` finds it. -/
def world (k : Nat) : Cluster :=
  (Cluster.initial T.shards).after (T.events.take (T.time k))

/-- The log that commands on a bucket go to. -/
def shard (bucket : String) : Nat :=
  shardOf (Cluster.initial T.shards).shards bucket

/-- The answers come from the cluster: a status from the node asked, and a success only for a
command that stands in the log. -/
structure Answered (a : Answers) : Prop where
  status : ∀ k node, a.status k node = (T.world k).statusOf node
  post : ∀ k node cmd index, a.post k node cmd = .committed index →
    ((T.world k).logs (T.shard cmd.bucket))[index]? = some (.command cmd)

/-- The backend that call `k` reads from at a node is the one the command left, with only
later things on top, and so is what `GetObject` and `HeadObject` answer there. -/
def ReadsAfter (k : Nat) (node : String) (index : Nat) (cmd : Command) : Prop :=
  ∃ earlier attempts later,
    ((T.world k).replicas node).acts =
      earlier ++ .entry (T.shard cmd.bucket) ⟨index, .command cmd⟩ attempts :: later ∧
    ∀ (e : Env) (b : Backend),
      (T.world k).backend e b node =
        Intake.runs e later
          (Fsm.apply e ⟨index, .command cmd⟩ attempts { backend := Intake.runs e earlier b }).2.backend

/-- Every node that answers a call from `k` on, before `m`, has applied the entry. -/
def AllCurrent (nodes : List String) (k m shard index : Nat) : Prop :=
  ∀ j, k ≤ j → j < m → ∀ node ∈ nodes, ((T.world j).replicas node).reachable = true →
    (T.world j).hasApplied node shard index

/-- Asked one after the other from call `k` on, some node tells that it leads the shard, and
every node that does has applied the entry. -/
def LeadersCurrent (nodes : List String) (k shard index : Nat) : Prop :=
  (∃ j node, nodes[j]? = some node ∧ (T.world (k + j)).claims node shard = true) ∧
    ∀ j node, nodes[j]? = some node → (T.world (k + j)).claims node shard = true →
      (T.world (k + j)).hasApplied node shard index

variable {T} {a : Answers} {c d : Client} {k m index shard : Nat} {node bucket : String}
    {cmd : Command}

@[simp]
theorem shards_world : (T.world k).shards = (Cluster.initial T.shards).shards :=
  Cluster.shards_after _ _

theorem shard_lt (bucket : String) : T.shard bucket < (T.world k).shards := by
  rw [shards_world]
  exact shardOf_lt (Cluster.initial T.shards).shards_pos bucket

theorem world_after (le : k ≤ m) : ∃ more, T.world m = (T.world k).after more :=
  Cluster.after_take_le _ _ (T.ordered le)

/-- What an acknowledged submission put into the log stays there. -/
theorem logged_of_submit (from_ : T.Answered a) (put : c.submit a cmd = (some index, d))
    (le : d.calls ≤ k) :
    ((T.world k).logs (T.shard cmd.bucket))[index]? = some (.command cmd) := by
  obtain ⟨k₀, node, lt, answer⟩ := Client.submitTo_some put
  obtain ⟨more, later⟩ := world_after (T := T) (lt.le.trans le)
  obtain ⟨rest, log⟩ := Cluster.logs_after (T.world k₀) more (T.shard cmd.bucket)
  have held := from_.post k₀ node cmd index answer
  rw [later, ← log, List.getElem?_append_left (List.getElem?_eq_some_iff.mp held).1]
  exact held

/-- A node that has applied the entry serves reads from the state it left, or a later one. -/
theorem readsAfter_of_applied
    (logged : ((T.world k).logs (T.shard cmd.bucket))[index]? = some (.command cmd))
    (applied : (T.world k).hasApplied node (T.shard cmd.bucket) index) :
    T.ReadsAfter k node index cmd := by
  have inv : (T.world k).InOrder := (Cluster.InOrder.initial T.shards).after _
  obtain ⟨entry, found⟩ : ∃ entry : LogEntry,
      (((T.world k).replicas node).applied (T.shard cmd.bucket))[index]? = some entry :=
    ⟨_, List.getElem?_eq_getElem applied⟩
  obtain ⟨place, payload⟩ := inv node _ index entry found
  rw [logged, Option.some.injEq] at payload
  obtain ⟨act, mem, shard⟩ := List.mem_filterMap.mp (List.mem_of_getElem? found)
  obtain ⟨earlier, later, acts⟩ := List.append_of_mem mem
  cases act with
  | blob token payload => cases shard
  | part uploadID number payload => cases shard
  | entry i taken attempts =>
    simp only [Intake.ofShard] at shard
    split at shard
    · rename_i same
      cases shard
      obtain ⟨i', p⟩ := entry
      subst same place payload
      refine ⟨earlier, attempts, later, acts, fun e b => ?_⟩
      simp only [Cluster.backend, acts, Intake.runs, List.foldl_append, List.foldl_cons, Intake.run]
    · cases shard

theorem applied_later (le : k ≤ m) (applied : (T.world k).hasApplied node shard index) :
    (T.world m).hasApplied node shard index := by
  obtain ⟨more, later⟩ := world_after (T := T) le
  rw [later]
  exact applied.after more

/-- If every node that answers is current, so is the one the read is sent to. -/
theorem applied_of_allCurrent (from_ : T.Answered a)
    (routed : c.readerForBucket a bucket = (some node, d))
    (current : T.AllCurrent c.nodes c.calls d.calls shard index) :
    (T.world d.calls).hasApplied node shard index := by
  have met := Client.readerForBucket_met (c := c) (a := a) (congrArg Prod.fst routed)
  rw [routed] at met
  obtain ⟨mem, j, ge, lt, answer⟩ := met
  rw [from_.status] at answer
  have reached : ((T.world j).replicas node).reachable = true := by
    unfold Cluster.statusOf at answer
    split at answer
    · assumption
    · cases answer
  exact applied_later lt.le (current j ge lt node mem reached)

/-- If those that tell they lead the shard are current and there is one, the read is sent to
such a node. -/
theorem applied_of_leadersCurrent (from_ : T.Answered a)
    (known : c.shards = (Cluster.initial T.shards).shards)
    (routed : c.readerForBucket a bucket = (some node, d))
    (current : T.LeadersCurrent c.nodes c.calls (T.shard bucket) index) :
    (T.world d.calls).hasApplied node (T.shard bucket) index := by
  obtain ⟨⟨j₀, node₀, place₀, claim₀⟩, current⟩ := current
  have count : c.shardFor a bucket = (T.shard bucket, c) :=
    Client.shardFor_known known (Cluster.initial T.shards).shards_pos bucket
  simp only [Client.readerForBucket, count, Client.leaderForShard, Client.ask] at routed
  generalize polled : a.poll (fun s => s.leadsShard (T.shard bucket)) c.nodes c.calls = found
    at routed
  obtain ⟨found, k⟩ := found
  cases found with
  | none =>
    obtain ⟨s, answer, leads⟩ := (Cluster.claims_iff _ _ (shard_lt bucket)).mp claim₀
    rw [← from_.status] at answer
    have no := Answers.poll_none polled place₀ answer
    rw [leads] at no
    cases no
  | some found =>
    obtain ⟨j, place, lt, answer, leads⟩ := Answers.poll_some polled
    cases routed
    rw [from_.status] at answer
    have claim := (Cluster.claims_iff _ _ (shard_lt bucket)).mpr ⟨_, answer, leads⟩
    exact applied_later lt.le (current j _ place claim)

/-- In every run, a read that a gateway starts after its own acknowledged write is served from
the state that write left or a later one, if among the nodes asked those that tell they lead
the bucket's shard have applied the write and there is one, or if all that answer have. -/
theorem read_follows_write {c₀ c₁ : Client} (from_ : T.Answered a)
    (put : c₀.submit a cmd = (some index, c₁)) (starts : c₁.Onward c)
    (routed : c.readerForBucket a cmd.bucket = (some node, d))
    (current : T.AllCurrent c.nodes c.calls d.calls (T.shard cmd.bucket) index ∨
      c.shards = (Cluster.initial T.shards).shards ∧
        T.LeadersCurrent c.nodes c.calls (T.shard cmd.bucket) index) :
    T.ReadsAfter d.calls node index cmd := by
  have onward : c.calls ≤ d.calls := by
    obtain ⟨-, j, ge, lt, -⟩ := Client.readerForBucket_met (c := c) (a := a)
      (congrArg Prod.fst routed)
    rw [routed] at lt
    exact ge.trans lt.le
  refine readsAfter_of_applied (logged_of_submit from_ put (starts.calls.trans onward)) ?_
  rcases current with all | ⟨known, leaders⟩
  · exact applied_of_allCurrent from_ routed all
  · exact applied_of_leadersCurrent from_ known routed leaders

/-! ### Two runs -/

/-- Answers that a run gives: a command is acknowledged by a node that leads its shard, once it
stands in the log. -/
def honest (T : Timeline) : Answers where
  status k node := (T.world k).statusOf node
  post k node cmd :=
    if (T.world k).claims node (T.shard cmd.bucket) then
      match ((T.world k).logs (T.shard cmd.bucket)).findIdx? (Payload.carries cmd) with
      | some index => .committed index
      | none => .refused
    else .misdirected

theorem honest_answered (T : Timeline) : T.Answered T.honest where
  status _ _ := rfl
  post k node cmd index answer := by
    simp only [honest] at answer
    split at answer
    · split at answer
      · rename_i found
        cases answer
        obtain ⟨lt, carries, -⟩ := List.findIdx?_eq_some_iff_getElem.mp found
        rw [List.getElem?_eq_getElem lt, Payload.eq_of_carries carries]
      · cases answer
    · cases answer

/-- A bucket is created, the payload of a put arrives, and the put is committed through `n2`.
Then `n1` becomes leader, before or after it applies the put. -/
def handover (last : List Cluster.Event) : Timeline where
  shards := 1
  events :=
    [.commit 0 (.command Small.create), .apply "n1" 0 [], .apply "n2" 0 [],
      .blob "n1" (uuid 1) [1], .blob "n2" (uuid 1) [1], .elect "n2" 0 (some "n2"),
      .commit 0 (.command (Small.put "k" 1)), .apply "n2" 0 []] ++ last
  time k := k + 5
  ordered _ _ le := Nat.add_le_add_right le 5

def lagging : Timeline := handover [.elect "n1" 0 (some "n1")]

def caughtUp : Timeline := handover [.apply "n1" 0 [], .elect "n1" 0 (some "n1")]

def pair : Client := { nodes := ["n1", "n2"] }

/-- The client after its put, with the number of its next call. -/
def putter (calls : Nat) : Client := { pair with shards := 1, calls, posted := [(3, "n2")] }

theorem caughtUp_leaders : caughtUp.LeadersCurrent pair.nodes 5 (caughtUp.shard "b") 1 := by
  refine ⟨⟨0, "n1", rfl, by decide +kernel⟩, fun j node place _ => ?_⟩
  match j with
  | 0 =>
    obtain rfl : "n1" = node := Option.some.inj place
    decide +kernel
  | 1 =>
    obtain rfl : "n2" = node := Option.some.inj place
    decide +kernel
  | _ + 2 => cases place

theorem read_follows_handover : caughtUp.ReadsAfter 6 "n1" 1 (Small.put "k" 1) := by
  have put : pair.submit caughtUp.honest (Small.put "k" 1) =
      (some 1, putter 4) := by decide +kernel
  have routed : (putter 5).readerForBucket caughtUp.honest (Small.put "k" 1).bucket =
      (some "n1", putter 6) := by
    decide +kernel
  have starts : (putter 4).Onward (putter 5) := ⟨rfl, by decide⟩
  have known : 1 = (Cluster.initial caughtUp.shards).shards := by decide +kernel
  have served := read_follows_write (honest_answered caughtUp) put starts routed
    (.inr ⟨known, caughtUp_leaders⟩)
  exact served

/-- The new leader has not applied the acknowledged put when the read reaches it. -/
theorem read_misses_write :
    lagging.Answered lagging.honest ∧
      pair.submit lagging.honest (Small.put "k" 1) = (some 1, putter 4) ∧
      (putter 4).readerForBucket lagging.honest "b" = (some "n1", putter 5) ∧
      ¬lagging.ReadsAfter 5 "n1" 1 (Small.put "k" 1) ∧
      (smallEnv false).headObject
          ((lagging.world 5).backend (smallEnv false) { disk := smallDisk false } "n1").disk
          "b" "k" "" = .error (.api errNoSuchKey) := by
  refine ⟨honest_answered lagging, by decide +kernel, by decide +kernel, ?_, by decide +kernel⟩
  rintro ⟨earlier, attempts, later, acts, -⟩
  have indices : ((lagging.world 5).replicas "n1").acts.filterMap
      (fun act => (act.ofShard 0).map (·.index)) = [0] := by decide +kernel
  have shard : lagging.shard (Small.put "k" 1).bucket = 0 := by decide +kernel
  rw [acts, shard] at indices
  have mem : 1 ∈ [0] := by
    rw [← indices]
    simp [Intake.ofShard]
  simp at mem

end Timeline

end D9Store
