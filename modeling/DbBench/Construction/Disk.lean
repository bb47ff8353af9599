import DbBench.Library.Arena
import DbBench.Construction.StateDB

/-
This file states what the LevelDB and RocksDB libraries do with one database directory.
-/

namespace DbBench

open KeyValue

/-- The adapters look at a library status through `ok()` only. -/
inductive Status where
  | ok
  | notFound
  | ioError
  deriving DecidableEq

def Status.isOk : Status → Bool
  | .ok => true
  | .notFound => false
  | .ioError => false

/-- A library call does its work, fails without an effect, or takes effect and then reports
a failure. -/
inductive Outcome where
  | done
  | lost
  | late
  deriving DecidableEq

/-- The libraries create databases and block caches. -/
inductive Resource where
  | db (path : Bytes)
  | cache
  deriving DecidableEq

/-- The disk holds the contents of every path and the objects that are alive. -/
structure Disk where
  files : Bytes → ByteStore
  arena : Arena Resource

/-- An empty disk holds no key and no live object. -/
def Disk.blank : Disk := ⟨fun _ => Store.empty, Arena.empty⟩

/-- A process may hold one path open only once. -/
def Disk.held (disk : Disk) (path : Bytes) : Bool :=
  disk.arena.anyLive fun resource => resource = .db path

/-- This is `NewLRUCache`. -/
def Disk.newLRUCache (disk : Disk) : Nat × Disk :=
  (disk.arena.next, {disk with arena := disk.arena.create .cache})

/-- This is `DB::Open`, which leaves a null pointer when it fails. -/
def Disk.openDB (disk : Disk) (path : Bytes) (outcome : Outcome) : Status × Option Nat × Disk :=
  if outcome = .done ∧ disk.held path = false then
    (.ok, some disk.arena.next, {disk with arena := disk.arena.create (.db path)})
  else (.ioError, none, disk)

/-- A database pointer must lead to a live database. -/
def Disk.pathOf (disk : Disk) : Option Nat → Except Misuse Bytes
  | none => .error .handle
  | some db =>
      match disk.arena.cells db with
      | some (.db path) => .ok path
      | _ => .error .handle

/-- This is `DB::Get`. It stores through the value pointer only when it finds the key. -/
def Disk.get (disk : Disk) (db : Option Nat) (key : Bytes) (outcome : Outcome) :
    Except Misuse (Status × Option Bytes) := do
  let path ← disk.pathOf db
  match outcome with
  | .done =>
      match disk.files path key with
      | some value => pure (.ok, some value)
      | none => pure (.notFound, none)
  | _ => pure (.ioError, none)

/-- This is `DB::Write`: the batch takes effect as a whole or not at all. -/
def Disk.write (disk : Disk) (db : Option Nat) (batch : List ByteWrite) (outcome : Outcome) :
    Except Misuse (Status × Disk) := do
  let path ← disk.pathOf db
  let applied : Disk :=
    {disk with files := Function.update disk.files path ((disk.files path).writeAll batch)}
  match outcome with
  | .done => pure (.ok, applied)
  | .lost => pure (.ioError, disk)
  | .late => pure (.ioError, applied)

/-- This is `DB::Put`, a batch of one write. -/
def Disk.put (disk : Disk) (db : Option Nat) (key value : Bytes) (outcome : Outcome) :
    Except Misuse (Status × Disk) := disk.write db [.put key value] outcome

/-- This is `DB::Delete`. It succeeds on an absent key as well. -/
def Disk.delete (disk : Disk) (db : Option Nat) (key : Bytes) (outcome : Outcome) :
    Except Misuse (Status × Disk) := disk.write db [.delete key] outcome

/-- This is `delete` on a database. -/
def Disk.deleteDB (disk : Disk) (db : Nat) : Except Misuse Disk :=
  match disk.arena.cells db with
  | some (.db _) => .ok {disk with arena := disk.arena.release db}
  | _ => .error .handle

/-- This is `delete` on a block cache. -/
def Disk.deleteCache (disk : Disk) (cache : Nat) : Except Misuse Disk :=
  match disk.arena.cells cache with
  | some .cache => .ok {disk with arena := disk.arena.release cache}
  | _ => .error .handle

end DbBench
