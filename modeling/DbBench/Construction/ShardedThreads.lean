import DbBench.Construction.ShardedDB

/-
This file contains `get`, `put` and `del` of a sharding adapter as several threads run them on
one object. Each call first performs its library call, which stores the status in the shard, and
then reads the status of the shard.
-/

namespace DbBench

open KeyValue Transition

/-- A call waits, has performed its library call, or has returned. The status of its own library
call is kept beside the reply for comparison. -/
inductive Stage where
  | ready
  | performed (own : Status) (value : Option Bytes)
  | returned (reply : Reply) (own : Option Status)
  deriving DecidableEq

/-- The calls share the object and the disk. The latest caller of each shard is kept for
comparison. -/
structure ShardedThreads (ι : Type) where
  object : ShardedDB
  disk : Disk
  stage : ι → Stage
  latest : Nat → Option ι

/-- The library call of a call that has one stores its status in the shard. -/
def ShardedDB.perform (engine : Engine) (object : ShardedDB) (call : ThreadCall)
    (outcome : Outcome) (disk : Disk) : Except Misuse (Option Bytes × ShardedDB × Disk) :=
  match call with
  | .get key => object.performGet engine key outcome disk
  | .put key value => do
      let (object, disk) ← object.performPut engine key value outcome disk
      pure (none, object, disk)
  | .del key => do
      let (object, disk) ← object.performDel engine key outcome disk
      pure (none, object, disk)

/-- `put` and `del` refuse the empty key before they reach the library. -/
def ThreadCall.refused : ThreadCall → Bool
  | .get _ => false
  | .put key _ => key.isEmpty
  | .del key => key.isEmpty

/-- The reply that a status gives. -/
def ThreadCall.answered (ok : Bool) (value : Option Bytes) : ThreadCall → Reply
  | .get _ => .lookup ok value
  | .put _ _ => .flag ok
  | .del _ => .flag ok

/-- A schedule picks the call that takes the next of its two steps. -/
def ShardedDB.schedule {ι : Type} [DecidableEq ι] (engine : Engine) (calls : ι → ThreadCall)
    (outcomes : ι → Outcome) : Machine (ShardedThreads ι) ι Unit Misuse := fun threads i => do
  let idx := engine.index (calls i).key
  match threads.stage i with
  | .ready =>
      if (calls i).refused then
        let stage : ι → Stage := Function.update threads.stage i (.returned (.flag false) none)
        pure ((), {threads with stage := stage})
      else
        let (value, object, disk) ←
          threads.object.perform engine (calls i) (outcomes i) threads.disk
        let entry ← object.entry idx
        pure ((), ⟨object, disk, Function.update threads.stage i (.performed entry.status value),
          Function.update threads.latest idx (some i)⟩)
  | .performed own value =>
      let ok ← threads.object.statusOk idx
      let stage : ι → Stage :=
        Function.update threads.stage i (.returned ((calls i).answered ok value) (some own))
      pure ((), {threads with stage := stage})
  | .returned _ _ => pure ((), threads)

/-- No call has taken a step. -/
def ShardedThreads.start (ι : Type) (state : ShardedDB × Disk) : ShardedThreads ι :=
  ⟨state.1, state.2, fun _ => .ready, fun _ => none⟩

end DbBench
