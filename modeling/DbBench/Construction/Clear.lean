import DbBench.Construction.LMDB
import DbBench.Construction.LevelDB
import DbBench.Construction.RedisDB
import DbBench.Construction.RocksDB

/-
This file adds `clear` to the data operations. Three adapters inherit it from the interface, which
removes the directory through the shell, and the Redis adapter overrides it.
-/

namespace DbBench

open Transition

/-- These calls work on the contents of an opened object. -/
inductive Operation where
  | call (request : Call)
  | clear
  deriving DecidableEq

/-- The operating system answers `stat` and runs commands. -/
structure Shell (World : Type) where
  stat : Bytes → World → Bool
  system : Bytes → World → World

/-- The command is `"rm -rf "` with the name behind it. -/
def removal (dbname : Bytes) : Bytes := [114, 109, 32, 45, 114, 102, 32] ++ dbname

/-- This is `StateDB::clear`. It mentions no member but the name. -/
def Shell.clear {World : Type} (shell : Shell World) (dbname : Bytes) (world : World) : World :=
  if !dbname.isEmpty && shell.stat dbname world then shell.system (removal dbname) world else world

/-- A sharding adapter inherits `clear`. -/
def ShardedDB.operate (engine : Engine) (shell : Shell Disk) :
    Machine (ShardedDB × Disk) (Operation × Outcomes) Reply Misuse
  | (object, disk), (.call request, outcomes) => ShardedDB.call engine (object, disk) (request, outcomes)
  | (object, disk), (.clear, _) => .ok (.unit, object, shell.clear object.dbname disk)

def LevelDB.operate : Shell Disk → Machine (ShardedDB × Disk) (Operation × Outcomes) Reply Misuse :=
  ShardedDB.operate LevelDB.engine

def RocksDB.operate : Shell Disk → Machine (ShardedDB × Disk) (Operation × Outcomes) Reply Misuse :=
  ShardedDB.operate RocksDB.engine

/-- The LMDB adapter inherits `clear`. -/
def LMDB.operate (shell : Shell Mdb) : Machine (LMDB × Mdb) (Operation × MdbFaults) Reply Misuse
  | (object, mdb), (.call request, faults) => LMDB.call (object, mdb) (request, faults)
  | (object, mdb), (.clear, _) => .ok (.unit, object, shell.clear object.dbname mdb)

def RedisDB.operate : Machine (RedisDB × RedisServer) (Operation × Bool) Reply Misuse
  | (object, server), (.call request, throws) => RedisDB.call (object, server) (request, throws)
  | (object, server), (.clear, throws) => object.clear throws server

end DbBench
