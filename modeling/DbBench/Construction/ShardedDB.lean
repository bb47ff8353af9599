import DbBench.Construction.Disk

/-
This file contains the adapter code that LevelDB and RocksDB share.
-/

namespace DbBench

open KeyValue Transition

/-- Four bits select one of sixteen databases. -/
def shardBits : Nat := 4

def shardCount : Nat := 1 <<< shardBits

/-- The two adapters differ in their hash routine and in who deletes the block cache. -/
structure Engine where
  ownsCache : Bool
  index : Bytes → Nat
  inside : ∀ key, index key < shardCount

/-- This is the private `DB` record of one shard. -/
structure DB where
  db : Option Nat
  blockCache : Option Nat
  status : Status
  batch : List ByteWrite
  deriving DecidableEq

/-- The adapter object has a name and a vector of shards. -/
structure ShardedDB where
  dbname : Bytes
  dbs : List DB
  deriving DecidableEq

/-- The constructor leaves the vector empty. -/
def ShardedDB.fresh : ShardedDB := ⟨[], []⟩

/-- The path of a shard is `dbname + "/" + std::to_string(idx)`. -/
def shardPath (dbname : Bytes) (idx : Nat) : Bytes := dbname ++ [47] ++ toString idx

/-- LevelDB keeps a raw pointer to the block cache that it makes for a shard. -/
def Engine.blockCache (engine : Engine) (disk : Disk) : Option Nat × Disk :=
  if engine.ownsCache then (some disk.newLRUCache.1, disk.newLRUCache.2) else (none, disk)

/-- The loop of `open` opens the shards from `idx` on and returns at the first failure. -/
def openShards (engine : Engine) (dbname : Bytes) (outcomes : Nat → Outcome) :
    Nat → Nat → List DB → Disk → Bool × List DB × Disk
  | 0, _, dbs, disk => (true, dbs, disk)
  | remaining + 1, idx, dbs, disk =>
      let (cache, disk) := engine.blockCache disk
      let (status, db, disk) := disk.openDB (shardPath dbname idx) (outcomes idx)
      if status.isOk then
        openShards engine dbname outcomes remaining (idx + 1) (dbs ++ [⟨db, cache, status, []⟩]) disk
      else (false, dbs, disk)

def ShardedDB.open (engine : Engine) (object : ShardedDB) (dbname : Bytes)
    (outcomes : Nat → Outcome) (disk : Disk) : Reply × ShardedDB × Disk :=
  let (ok, dbs, disk) := openShards engine dbname outcomes shardCount 0 object.dbs disk
  (.flag ok, ⟨dbname, dbs⟩, disk)

/-- The loop of `close` deletes what the entries point to and leaves the entries in place. -/
def closeShards : List DB → Disk → Except Misuse Disk
  | [], disk => pure disk
  | entry :: rest, disk => do
      let disk ← match entry.db with
        | some db => disk.deleteDB db
        | none => pure disk
      let disk ← match entry.blockCache with
        | some cache => disk.deleteCache cache
        | none => pure disk
      closeShards rest disk

def ShardedDB.close (object : ShardedDB) (disk : Disk) : Except Misuse (Reply × ShardedDB × Disk) := do
  let disk ← closeShards object.dbs disk
  pure (.unit, object, disk)

def ShardedDB.opened (object : ShardedDB) : Bool := object.dbs.all fun entry => entry.status.isOk

/-- This is `_dbs[idx]`. -/
def ShardedDB.entry (object : ShardedDB) (idx : Nat) : Except Misuse DB :=
  match object.dbs[idx]? with
  | some entry => .ok entry
  | none => .error .index

/-- This is the assignment to `_dbs[idx].status`. -/
def ShardedDB.setStatus (object : ShardedDB) (idx : Nat) (status : Status) : ShardedDB :=
  {object with dbs := object.dbs.modify idx fun entry => {entry with status := status}}

/-- This adds one write to `_dbs[idx].batch`. -/
def ShardedDB.addBatch (object : ShardedDB) (idx : Nat) (op : ByteWrite) : ShardedDB :=
  {object with dbs := object.dbs.modify idx fun entry => {entry with batch := entry.batch ++ [op]}}

/-- The member status decides what the operation returns. -/
def ShardedDB.statusOk (object : ShardedDB) (idx : Nat) : Except Misuse Bool := do
  let entry ← object.entry idx
  pure entry.status.isOk

/-- The library call of `get` stores its status in the shard. -/
def ShardedDB.performGet (engine : Engine) (object : ShardedDB) (key : Bytes) (outcome : Outcome)
    (disk : Disk) : Except Misuse (Option Bytes × ShardedDB × Disk) := do
  let entry ← object.entry (engine.index key)
  let (status, value) ← disk.get entry.db key outcome
  pure (value, object.setStatus (engine.index key) status, disk)

/-- The library call of `put` stores its status in the shard. -/
def ShardedDB.performPut (engine : Engine) (object : ShardedDB) (key value : Bytes)
    (outcome : Outcome) (disk : Disk) : Except Misuse (ShardedDB × Disk) := do
  let entry ← object.entry (engine.index key)
  let (status, disk) ← disk.put entry.db key value outcome
  pure (object.setStatus (engine.index key) status, disk)

/-- The library call of `del` stores its status in the shard. -/
def ShardedDB.performDel (engine : Engine) (object : ShardedDB) (key : Bytes) (outcome : Outcome)
    (disk : Disk) : Except Misuse (ShardedDB × Disk) := do
  let entry ← object.entry (engine.index key)
  let (status, disk) ← disk.delete entry.db key outcome
  pure (object.setStatus (engine.index key) status, disk)

def ShardedDB.get (engine : Engine) (object : ShardedDB) (key : Bytes) (outcome : Outcome)
    (disk : Disk) : Except Misuse (Reply × ShardedDB × Disk) := do
  let (value, object, disk) ← object.performGet engine key outcome disk
  let ok ← object.statusOk (engine.index key)
  pure (.lookup ok value, object, disk)

def ShardedDB.put (engine : Engine) (object : ShardedDB) (key value : Bytes) (outcome : Outcome)
    (disk : Disk) : Except Misuse (Reply × ShardedDB × Disk) :=
  if key.isEmpty then pure (.flag false, object, disk) else do
    let (object, disk) ← object.performPut engine key value outcome disk
    let ok ← object.statusOk (engine.index key)
    pure (.flag ok, object, disk)

def ShardedDB.putBatch (engine : Engine) (object : ShardedDB) (key value : Bytes) (disk : Disk) :
    Except Misuse (Reply × ShardedDB × Disk) :=
  if key.isEmpty then pure (.flag false, object, disk) else do
    let _ ← object.entry (engine.index key)
    pure (.flag true, object.addBatch (engine.index key) (.put key value), disk)

def ShardedDB.del (engine : Engine) (object : ShardedDB) (key : Bytes) (outcome : Outcome)
    (disk : Disk) : Except Misuse (Reply × ShardedDB × Disk) :=
  if key.isEmpty then pure (.flag false, object, disk) else do
    let (object, disk) ← object.performDel engine key outcome disk
    let ok ← object.statusOk (engine.index key)
    pure (.flag ok, object, disk)

def ShardedDB.delBatch (engine : Engine) (object : ShardedDB) (key : Bytes) (disk : Disk) :
    Except Misuse (Reply × ShardedDB × Disk) :=
  if key.isEmpty then pure (.flag false, object, disk) else do
    let _ ← object.entry (engine.index key)
    pure (.flag true, object.addBatch (engine.index key) (.delete key), disk)

/-- The first loop of `applyBatch` writes shard after shard and returns at the first failure.
It keeps the library status to itself. -/
def writeShards (outcomes : Nat → Outcome) : Nat → List DB → Disk → Except Misuse (Bool × Disk)
  | _, [], disk => pure (true, disk)
  | idx, entry :: rest, disk => do
      let (status, disk) ← disk.write entry.db entry.batch (outcomes idx)
      if status.isOk then writeShards outcomes (idx + 1) rest disk else pure (false, disk)

/-- The second loop of `applyBatch` clears every batch. -/
def ShardedDB.clearBatches (object : ShardedDB) : ShardedDB :=
  {object with dbs := object.dbs.map fun entry => {entry with batch := []}}

def ShardedDB.applyBatch (object : ShardedDB) (outcomes : Nat → Outcome) (disk : Disk) :
    Except Misuse (Reply × ShardedDB × Disk) := do
  let (ok, disk) ← writeShards outcomes 0 object.dbs disk
  if ok then pure (.flag true, object.clearBatches, disk) else pure (.flag false, object, disk)

/-- The outcomes of the library calls that one operation makes, in their order. -/
abbrev Outcomes := Nat → Outcome

/-- One data operation on the object. -/
def ShardedDB.call (engine : Engine) : Machine (ShardedDB × Disk) (Call × Outcomes) Reply Misuse
  | (object, disk), (.get key, outcomes) => object.get engine key (outcomes 0) disk
  | (object, disk), (.put key value, outcomes) => object.put engine key value (outcomes 0) disk
  | (object, disk), (.putBatch key value, _) => object.putBatch engine key value disk
  | (object, disk), (.del key, outcomes) => object.del engine key (outcomes 0) disk
  | (object, disk), (.delBatch key, _) => object.delBatch engine key disk
  | (object, disk), (.applyBatch, outcomes) => object.applyBatch outcomes disk

/-- One operation of the object's life. The destructor is one more `close`. -/
def ShardedDB.act (engine : Engine) : Machine (ShardedDB × Disk) (Action × Outcomes) Reply Misuse
  | (object, disk), (.opening dbname, outcomes) => .ok (object.open engine dbname outcomes disk)
  | (object, disk), (.closing, _) => object.close disk
  | state, (.call request, outcomes) => ShardedDB.call engine state (request, outcomes)

end DbBench
