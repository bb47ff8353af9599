import DbBench.Construction.Mdb

/-
This file contains the LMDB adapter as one thread runs it. The members `_key` and `_data` are
set before each use here, and the mutex is free whenever an operation takes it.
-/

namespace DbBench

open KeyValue Transition

/-- The constructor leaves the pointers without a value. -/
structure LMDB where
  dbname : Bytes
  env : Option Nat
  dbi : Option Nat
  txn : Option Nat
  isOpen : Bool
  deriving DecidableEq

def LMDB.fresh : LMDB := ⟨[], none, none, none, false⟩

/-- `open` looks at the result of `mdb_env_open` only. -/
def LMDB.open (object : LMDB) (dbname : Bytes) (faults : MdbFaults) (mdb : Mdb) :
    Except Misuse (Reply × LMDB × Mdb) := do
  let (created, mdb) := mdb.envCreate faults.envCreate
  let object : LMDB := {object with dbname := dbname, env := created.or object.env}
  let (rc, mdb) ← mdb.envOpen object.env dbname faults.envOpen
  if rc = .success then
    let object : LMDB := {object with isOpen := true}
    let (_, begun, mdb) ← mdb.txnBegin object.env faults.txnBegin
    let object : LMDB := {object with txn := begun.or object.txn}
    let (_, dbi) ← mdb.dbiOpen object.txn faults.dbiOpen
    pure (.flag true, {object with dbi := dbi.or object.dbi}, mdb)
  else pure (.flag false, object, mdb)

def LMDB.close (object : LMDB) (faults : MdbFaults) (mdb : Mdb) :
    Except Misuse (Reply × LMDB × Mdb) :=
  if object.isOpen then do
    let object : LMDB := {object with isOpen := false}
    mdb.dbiClose object.env
    let (_, mdb) ← mdb.txnCommit object.txn faults.commit
    let mdb ← mdb.envClose object.env
    pure (.unit, object, mdb)
  else pure (.unit, object, mdb)

def LMDB.opened (object : LMDB) : Bool := object.isOpen

def LMDB.get (object : LMDB) (key : Bytes) (faults : MdbFaults) (mdb : Mdb) :
    Except Misuse (Reply × LMDB × Mdb) := do
  let (rc, value, mdb) ← mdb.get object.txn object.dbi key faults.access
  if rc = .success then pure (.lookup true value, object, mdb)
  else pure (.lookup false none, object, mdb)

def LMDB.put (object : LMDB) (key value : Bytes) (faults : MdbFaults) (mdb : Mdb) :
    Except Misuse (Reply × LMDB × Mdb) := do
  let (rc, mdb) ← mdb.put object.txn object.dbi key value faults.access
  pure (.flag (rc = .success), object, mdb)

/-- `putBatch` writes at once, as `put` does. -/
def LMDB.putBatch (object : LMDB) (key value : Bytes) (faults : MdbFaults) (mdb : Mdb) :
    Except Misuse (Reply × LMDB × Mdb) := do
  let (rc, mdb) ← mdb.put object.txn object.dbi key value faults.access
  pure (.flag (rc = .success), object, mdb)

/-- `del` takes every code except `MDB_NOTFOUND` for success. -/
def LMDB.del (object : LMDB) (key : Bytes) (faults : MdbFaults) (mdb : Mdb) :
    Except Misuse (Reply × LMDB × Mdb) := do
  let (rc, mdb) ← mdb.del object.txn object.dbi key faults.access
  pure (.flag (rc ≠ .notFound), object, mdb)

/-- `delBatch` deletes at once, as `del` does. -/
def LMDB.delBatch (object : LMDB) (key : Bytes) (faults : MdbFaults) (mdb : Mdb) :
    Except Misuse (Reply × LMDB × Mdb) := do
  let (rc, mdb) ← mdb.del object.txn object.dbi key faults.access
  pure (.flag (rc ≠ .notFound), object, mdb)

/-- `applyBatch` begins the next transaction only after a successful commit. -/
def LMDB.applyBatch (object : LMDB) (faults : MdbFaults) (mdb : Mdb) :
    Except Misuse (Reply × LMDB × Mdb) := do
  let (rc, mdb) ← mdb.txnCommit object.txn faults.commit
  if rc = .success then
    let (rc, begun, mdb) ← mdb.txnBegin object.env faults.txnBegin
    pure (.flag (rc = .success), {object with txn := begun.or object.txn}, mdb)
  else pure (.flag false, object, mdb)

/-- One data operation selects the method of its name. -/
def LMDB.call : Machine (LMDB × Mdb) (Call × MdbFaults) Reply Misuse
  | (object, mdb), (.get key, faults) => object.get key faults mdb
  | (object, mdb), (.put key value, faults) => object.put key value faults mdb
  | (object, mdb), (.putBatch key value, faults) => object.putBatch key value faults mdb
  | (object, mdb), (.del key, faults) => object.del key faults mdb
  | (object, mdb), (.delBatch key, faults) => object.delBatch key faults mdb
  | (object, mdb), (.applyBatch, faults) => object.applyBatch faults mdb

/-- One operation of the object's life. The destructor is one more `close`. -/
def LMDB.act : Machine (LMDB × Mdb) (Action × MdbFaults) Reply Misuse
  | (object, mdb), (.opening dbname, faults) => object.open dbname faults mdb
  | (object, mdb), (.closing, faults) => object.close faults mdb
  | state, (.call request, faults) => LMDB.call state (request, faults)

end DbBench
