import DbBench.Construction.ShardHash
import DbBench.Construction.ShardedDB

/-
This file contains the RocksDB adapter under the names of its source.
-/

namespace DbBench

open Transition

def RocksDB.hash (data : Bytes) (seed : UInt32) : UInt32 := ShardHash.hash data seed

def RocksDB.hashSlice (s : Bytes) : UInt32 := RocksDB.hash s 0

def RocksDB.shard (hash : UInt32) (shardBits : Nat) : UInt32 := ShardHash.shard hash shardBits

/-- The row cache is a shared pointer, so `close` deletes the databases only. -/
def RocksDB.engine : Engine where
  ownsCache := false
  index key := (RocksDB.shard (RocksDB.hashSlice key) shardBits).toNat
  inside key := ShardHash.shard_lt (RocksDB.hashSlice key)

def RocksDB.open : ShardedDB → Bytes → Outcomes → Disk → Reply × ShardedDB × Disk :=
  ShardedDB.open RocksDB.engine

def RocksDB.close : ShardedDB → Disk → Except Misuse (Reply × ShardedDB × Disk) := ShardedDB.close

def RocksDB.opened : ShardedDB → Bool := ShardedDB.opened

def RocksDB.get : ShardedDB → Bytes → Outcome → Disk → Except Misuse (Reply × ShardedDB × Disk) :=
  ShardedDB.get RocksDB.engine

def RocksDB.put : ShardedDB → Bytes → Bytes → Outcome → Disk →
    Except Misuse (Reply × ShardedDB × Disk) := ShardedDB.put RocksDB.engine

def RocksDB.putBatch : ShardedDB → Bytes → Bytes → Disk →
    Except Misuse (Reply × ShardedDB × Disk) := ShardedDB.putBatch RocksDB.engine

def RocksDB.del : ShardedDB → Bytes → Outcome → Disk → Except Misuse (Reply × ShardedDB × Disk) :=
  ShardedDB.del RocksDB.engine

def RocksDB.delBatch : ShardedDB → Bytes → Disk → Except Misuse (Reply × ShardedDB × Disk) :=
  ShardedDB.delBatch RocksDB.engine

def RocksDB.applyBatch : ShardedDB → Outcomes → Disk → Except Misuse (Reply × ShardedDB × Disk) :=
  ShardedDB.applyBatch

/-- One data operation selects the method of its name. -/
def RocksDB.call : Machine (ShardedDB × Disk) (Call × Outcomes) Reply Misuse
  | (object, disk), (.get key, outcomes) => RocksDB.get object key (outcomes 0) disk
  | (object, disk), (.put key value, outcomes) => RocksDB.put object key value (outcomes 0) disk
  | (object, disk), (.putBatch key value, _) => RocksDB.putBatch object key value disk
  | (object, disk), (.del key, outcomes) => RocksDB.del object key (outcomes 0) disk
  | (object, disk), (.delBatch key, _) => RocksDB.delBatch object key disk
  | (object, disk), (.applyBatch, outcomes) => RocksDB.applyBatch object outcomes disk

/-- One operation of the object's life. The destructor is one more `close`. -/
def RocksDB.act : Machine (ShardedDB × Disk) (Action × Outcomes) Reply Misuse
  | (object, disk), (.opening dbname, outcomes) => .ok (RocksDB.open object dbname outcomes disk)
  | (object, disk), (.closing, _) => RocksDB.close object disk
  | state, (.call request, outcomes) => RocksDB.call state (request, outcomes)

theorem RocksDB.call_eq : RocksDB.call = ShardedDB.call RocksDB.engine := by
  funext state input
  rcases state with ⟨object, disk⟩
  rcases input with ⟨request, outcomes⟩
  cases request <;> rfl

theorem RocksDB.act_eq : RocksDB.act = ShardedDB.act RocksDB.engine := by
  funext state input
  rcases state with ⟨object, disk⟩
  rcases input with ⟨action, outcomes⟩
  cases action with
  | opening dbname => rfl
  | closing => rfl
  | call request => exact congrFun (congrFun RocksDB.call_eq (object, disk)) (request, outcomes)

end DbBench
