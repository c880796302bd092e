import D9Store.Node.Fsm

/-!
Routing of commands to shards (`shardOf` and `handleCommand` in `internal/storage`).

Every shard has a log of its own and all of them share one backend.
-/

namespace D9Store

/-- `fnv.New32a` over a string's bytes. -/
def fnv32a (bucket : String) : UInt32 :=
  bucket.toUTF8.toList.foldl (fun h b => (h ^^^ b.toUInt32) * 16777619) 2166136261

/-- `shardOf`. -/
def shardOf (shards : Nat) (bucket : String) : Nat :=
  if bucket = "" ∨ shards = 1 then 0
  else (fnv32a bucket % UInt32.ofNat shards).toNat

end D9Store
