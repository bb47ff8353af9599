import DbBench.Construction.ShardHash
import DbBench.Construction.ShardedDB

/-
This file contains the LevelDB adapter under the names of its source.
-/

namespace DbBench

open Transition

def LevelDB.hash (data : Bytes) (seed : UInt32) : UInt32 := ShardHash.hash data seed

def LevelDB.hashSlice (s : Bytes) : UInt32 := LevelDB.hash s 0

def LevelDB.shard (hash : UInt32) (shardBits : Nat) : UInt32 := ShardHash.shard hash shardBits

/-- `close` deletes the block cache that `open` made for each shard. -/
def LevelDB.engine : Engine where
  ownsCache := true
  index key := (LevelDB.shard (LevelDB.hashSlice key) shardBits).toNat
  inside key := ShardHash.shard_lt (LevelDB.hashSlice key)

def LevelDB.open : ShardedDB → Bytes → Outcomes → Disk → Reply × ShardedDB × Disk :=
  ShardedDB.open LevelDB.engine

def LevelDB.close : ShardedDB → Disk → Except Misuse (Reply × ShardedDB × Disk) := ShardedDB.close

def LevelDB.opened : ShardedDB → Bool := ShardedDB.opened

def LevelDB.get : ShardedDB → Bytes → Outcome → Disk → Except Misuse (Reply × ShardedDB × Disk) :=
  ShardedDB.get LevelDB.engine

def LevelDB.put : ShardedDB → Bytes → Bytes → Outcome → Disk →
    Except Misuse (Reply × ShardedDB × Disk) := ShardedDB.put LevelDB.engine

def LevelDB.putBatch : ShardedDB → Bytes → Bytes → Disk →
    Except Misuse (Reply × ShardedDB × Disk) := ShardedDB.putBatch LevelDB.engine

def LevelDB.del : ShardedDB → Bytes → Outcome → Disk → Except Misuse (Reply × ShardedDB × Disk) :=
  ShardedDB.del LevelDB.engine

def LevelDB.delBatch : ShardedDB → Bytes → Disk → Except Misuse (Reply × ShardedDB × Disk) :=
  ShardedDB.delBatch LevelDB.engine

def LevelDB.applyBatch : ShardedDB → Outcomes → Disk → Except Misuse (Reply × ShardedDB × Disk) :=
  ShardedDB.applyBatch

/-- One data operation selects the method of its name. -/
def LevelDB.call : Machine (ShardedDB × Disk) (Call × Outcomes) Reply Misuse
  | (object, disk), (.get key, outcomes) => LevelDB.get object key (outcomes 0) disk
  | (object, disk), (.put key value, outcomes) => LevelDB.put object key value (outcomes 0) disk
  | (object, disk), (.putBatch key value, _) => LevelDB.putBatch object key value disk
  | (object, disk), (.del key, outcomes) => LevelDB.del object key (outcomes 0) disk
  | (object, disk), (.delBatch key, _) => LevelDB.delBatch object key disk
  | (object, disk), (.applyBatch, outcomes) => LevelDB.applyBatch object outcomes disk

/-- One operation of the object's life. The destructor is one more `close`. -/
def LevelDB.act : Machine (ShardedDB × Disk) (Action × Outcomes) Reply Misuse
  | (object, disk), (.opening dbname, outcomes) => .ok (LevelDB.open object dbname outcomes disk)
  | (object, disk), (.closing, _) => LevelDB.close object disk
  | state, (.call request, outcomes) => LevelDB.call state (request, outcomes)

theorem LevelDB.call_eq : LevelDB.call = ShardedDB.call LevelDB.engine := by
  funext state input
  rcases state with ⟨object, disk⟩
  rcases input with ⟨request, outcomes⟩
  cases request <;> rfl

theorem LevelDB.act_eq : LevelDB.act = ShardedDB.act LevelDB.engine := by
  funext state input
  rcases state with ⟨object, disk⟩
  rcases input with ⟨action, outcomes⟩
  cases action with
  | opening dbname => rfl
  | closing => rfl
  | call request => exact congrFun (congrFun LevelDB.call_eq (object, disk)) (request, outcomes)

end DbBench
