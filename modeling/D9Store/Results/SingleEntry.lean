import D9Store.Cluster.Submit

/-!
One submission, one log entry.

`Submit` tries again only after a reply that the node does not lead the shard. Such a reply is given
for nothing but an entry that was not appended: no failure of an applied command has its status.
-/

namespace D9Store

namespace Network

variable {net : Network} {e : Env} {k index : Nat} {node : String} {cmd : Command}

theorem placed_of_misdirected (reply : net.post e k node cmd = .misdirected) :
    net.placed e k node cmd = none := by
  have nothing : (net.handled e k node cmd).1.status = 421 → net.placed e k node cmd = none := by
    intro status
    unfold placed
    split
    · rfl
    · exact Node.placed_of_misdirected status
  simp only [post] at reply
  split at reply
  · cases reply
  · cases reply
  · split at reply
    · rename_i status
      exact nothing status
    · cases reply
  · split at reply
    · rename_i status
      exact nothing status
    · split at reply <;> cases reply

/-- An acknowledged command stands in the log of its shard and was applied by the node. -/
theorem applied_of_committed (reply : net.post e k node cmd = .committed index) :
    ∃ fsm attempts, net.raft k node (shardOf (net.shards node) cmd.bucket) =
        .applied index fsm attempts ∧
      (Fsm.apply e ⟨index, .command cmd⟩ attempts fsm).1 = .ok () ∧
      net.placed e k node cmd = some ⟨shardOf (net.shards node) cmd.bucket, index⟩ := by
  simp only [post] at reply
  split at reply
  · cases reply
  · cases reply
  · split at reply <;> cases reply
  · rename_i delivered
    split at reply
    · cases reply
    · split at reply
      · rename_i status
        cases reply
        have done := Node.applied_of_ok status
        simp only [placed, delivered]
        exact done
      · cases reply

/-- Where the posts of a call append the command. -/
def positions (net : Network) (e : Env) (cmd : Command) (sent : List (Nat × String)) :
    List (String × Position) :=
  sent.filterMap fun p => (net.placed e p.1 p.2 cmd).map (Prod.mk p.2)

theorem mem_positions {sent : List (Nat × String)} {p : Position}
    (mem : (node, p) ∈ net.positions e cmd sent) :
    p.shard = shardOf (net.shards node) cmd.bucket := by
  obtain ⟨⟨k, node'⟩, -, found⟩ := List.mem_filterMap.mp mem
  obtain ⟨p', placed, same⟩ := Option.map_eq_some_iff.mp found
  cases same
  have here : (net.handled e k node' cmd).2 = some p := by
    unfold Network.placed at placed
    split at placed
    · cases placed
    · exact placed
  exact Node.shard_of_handled here

/-- The attempts of a submission add posts of which all but the last append nothing, and the last
one appends a command that is reported as committed. -/
theorem posted_submitTo (net : Network) (e : Env) (cmd : Command) (shard attempts : Nat)
    (c : Client) :
    ∃ sent, (Client.submitTo (net.answers e) cmd shard attempts c).2.posted = c.posted ++ sent ∧
      (net.positions e cmd sent).length ≤ 1 ∧
      ∀ index, (Client.submitTo (net.answers e) cmd shard attempts c).1 = some index →
        ∃ k node fsm tries,
          net.raft k node (shardOf (net.shards node) cmd.bucket) = .applied index fsm tries ∧
          (Fsm.apply e ⟨index, .command cmd⟩ tries fsm).1 = .ok () ∧
          net.positions e cmd sent = [(node, ⟨shardOf (net.shards node) cmd.bucket, index⟩)] := by
  induction attempts generalizing c with
  | zero => exact ⟨[], by simp [Client.submitTo], by simp [positions], fun _ no => by cases no⟩
  | succ attempts ih =>
    unfold Client.submitTo
    have kept := Client.posted_leaderForShard c (net.answers e) shard
    cases asked : c.leaderForShard (net.answers e) shard with
    | mk found c' =>
      rw [asked] at kept
      cases found with
      | none =>
        obtain ⟨sent, posted, rest⟩ := ih c'
        exact ⟨sent, by rw [← kept]; exact posted, rest⟩
      | some node =>
        dsimp only
        rw [← kept]
        cases reply : (net.answers e).post c'.calls node cmd with
        | unreachable | refused =>
          refine ⟨[(c'.calls, node)], rfl, ?_, fun _ no => by cases no⟩
          exact (List.length_filterMap_le _ _).trans le_rfl
        | misdirected =>
          obtain ⟨sent, posted, once, committed⟩ := ih
            { c' with calls := c'.calls + 1, posted := c'.posted ++ [(c'.calls, node)] }
          have nothing : net.positions e cmd ((c'.calls, node) :: sent) =
              net.positions e cmd sent := by
            simp [positions, placed_of_misdirected reply]
          refine ⟨(c'.calls, node) :: sent, ?_, nothing ▸ once, fun index returned => ?_⟩
          · rw [posted, List.append_assoc]
            rfl
          · rw [nothing]
            exact committed index returned
        | committed index =>
          obtain ⟨fsm, tries, applied, ok, placed⟩ := applied_of_committed reply
          have here : net.positions e cmd [(c'.calls, node)] =
              [(node, ⟨shardOf (net.shards node) cmd.bucket, index⟩)] := by
            simp [positions, placed]
          refine ⟨[(c'.calls, node)], rfl, by simp [here], fun index' returned => ?_⟩
          cases returned
          exact ⟨c'.calls, node, fsm, tries, applied, ok, here⟩

/-- Whatever the nodes tell of their leaders and however each attempt ends, the posts of one call of
`Submit` append the command at one position at most, of the log its bucket has on the node that took
it. An index is returned for a command that was committed there and applied without an error. -/
theorem submit_appends_once (net : Network) (e : Env) (c : Client) (cmd : Command) :
    ∃ sent, (c.submit (net.answers e) cmd).2.posted = c.posted ++ sent ∧
      (net.positions e cmd sent).length ≤ 1 ∧
      (∀ node p, (node, p) ∈ net.positions e cmd sent →
        p.shard = shardOf (net.shards node) cmd.bucket) ∧
      ∀ index, (c.submit (net.answers e) cmd).1 = some index →
        ∃ k node fsm attempts,
          net.raft k node (shardOf (net.shards node) cmd.bucket) = .applied index fsm attempts ∧
          (Fsm.apply e ⟨index, .command cmd⟩ attempts fsm).1 = .ok () ∧
          net.positions e cmd sent =
            [(node, ⟨shardOf (net.shards node) cmd.bucket, index⟩)] := by
  have routed := Client.posted_shardFor c (net.answers e) cmd.bucket
  obtain ⟨sent, posted, once, committed⟩ := net.posted_submitTo e cmd
    (c.shardFor (net.answers e) cmd.bucket).1 6 (c.shardFor (net.answers e) cmd.bucket).2
  exact ⟨sent, by rw [← routed]; exact posted, once, fun _ _ => mem_positions, committed⟩

end Network

end D9Store
