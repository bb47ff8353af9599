import DbBench.Library.Arena
import DbBench.Construction.StateDB

/-
This file states what liblmdb does with environments and write transactions.
-/

namespace DbBench

open KeyValue

/-- These return codes stand for success, the codes that the adapter can tell apart from the
others, and one code for the remaining errors. -/
inductive Rc where
  | success
  | notFound
  | badValsize
  | badTxn
  | mapFull
  | einval
  | eio
  deriving DecidableEq

/-- An environment is created, then opened. A failed open leaves one that may only be closed. -/
inductive Env where
  | created
  | opened (path : Bytes)
  | spoiled
  deriving DecidableEq

/-- A write transaction reads its own writes over the contents at its start. -/
structure Txn where
  env : Nat
  view : ByteStore
  failed : Bool

/-- The library holds the committed contents of every path and the live objects. -/
structure Mdb where
  files : Bytes → ByteStore
  envs : Arena Env
  txns : Arena Txn

/-- An access may fail without an effect, or exhaust a resource and spoil its transaction. -/
inductive Access where
  | done
  | refused
  | exhausted
  deriving DecidableEq

/-- These are the failures that the library has during one operation of the adapter. -/
structure MdbFaults where
  envCreate : Bool
  envOpen : Bool
  txnBegin : Bool
  dbiOpen : Bool
  commit : Bool
  access : Access
  deriving DecidableEq

/-- No call fails. -/
def MdbFaults.none : MdbFaults := ⟨false, false, false, false, false, .done⟩

/-- The main database of an environment. -/
def mainDbi : Nat := 1

def maxKeySize : Nat := 511

/-- An empty file system has no live object. -/
def Mdb.blank : Mdb := ⟨fun _ => Store.empty, Arena.empty, Arena.empty⟩

/-- `mdb_env_create` writes the pointer when it succeeds. -/
def Mdb.envCreate (mdb : Mdb) (fault : Bool) : Option Nat × Mdb :=
  if fault then (none, mdb)
  else (some mdb.envs.next, {mdb with envs := mdb.envs.create .created})

/-- An environment pointer must lead to a live environment. -/
def Mdb.env (mdb : Mdb) : Option Nat → Except Misuse (Nat × Env)
  | none => .error .env
  | some handle =>
      match mdb.envs.cells handle with
      | some env => .ok (handle, env)
      | none => .error .env

/-- A transaction pointer must lead to a live transaction. -/
def Mdb.txn (mdb : Mdb) : Option Nat → Except Misuse (Nat × Txn)
  | none => .error .txn
  | some handle =>
      match mdb.txns.cells handle with
      | some txn => .ok (handle, txn)
      | none => .error .txn

/-- `mdb_env_open` refuses an open environment and may not follow a failed attempt. -/
def Mdb.envOpen (mdb : Mdb) (env : Option Nat) (path : Bytes) (fault : Bool) :
    Except Misuse (Rc × Mdb) := do
  let (handle, state) ← mdb.env env
  match state with
  | .opened _ => pure (.einval, mdb)
  | .spoiled => .error .env
  | .created =>
      if fault then pure (.eio, {mdb with envs := mdb.envs.modify handle fun _ => .spoiled})
      else pure (.success, {mdb with envs := mdb.envs.modify handle fun _ => .opened path})

/-- `mdb_txn_begin` writes the pointer when it succeeds. -/
def Mdb.txnBegin (mdb : Mdb) (env : Option Nat) (fault : Bool) :
    Except Misuse (Rc × Option Nat × Mdb) := do
  let (handle, state) ← mdb.env env
  match state with
  | .opened path =>
      if fault then pure (.eio, none, mdb)
      else pure (.success, some mdb.txns.next,
        {mdb with txns := mdb.txns.create ⟨handle, mdb.files path, false⟩})
  | _ => .error .env

/-- `mdb_dbi_open` without a name selects the main database. -/
def Mdb.dbiOpen (mdb : Mdb) (txn : Option Nat) (fault : Bool) : Except Misuse (Rc × Option Nat) := do
  let (_, state) ← mdb.txn txn
  if state.failed then pure (.badTxn, none)
  else if fault then pure (.eio, none)
  else pure (.success, some mainDbi)

/-- `mdb_dbi_close` does nothing to the main database. -/
def Mdb.dbiClose (mdb : Mdb) (env : Option Nat) : Except Misuse Unit := do
  let _ ← mdb.env env
  pure ()

/-- `mdb_get` answers from the view of the transaction. A resource failure marks the transaction,
and a marked transaction refuses every access. -/
def Txn.get (txn : Txn) (dbi : Option Nat) (key : Bytes) (access : Access) :
    Rc × Option Bytes × Txn :=
  if dbi ≠ some mainDbi then (.einval, none, txn)
  else if txn.failed then (.badTxn, none, txn)
  else if key.length = 0 then (.badValsize, none, txn)
  else match access with
    | .refused => (.eio, none, txn)
    | .exhausted => (.mapFull, none, {txn with failed := true})
    | .done =>
        match txn.view key with
        | some value => (.success, some value, txn)
        | none => (.notFound, none, txn)

/-- `mdb_put` writes into the view of the transaction. -/
def Txn.put (txn : Txn) (dbi : Option Nat) (key value : Bytes) (access : Access) : Rc × Txn :=
  if dbi ≠ some mainDbi then (.einval, txn)
  else if txn.failed then (.badTxn, txn)
  else if key.length = 0 ∨ maxKeySize < key.length then (.badValsize, txn)
  else match access with
    | .refused => (.eio, txn)
    | .exhausted => (.mapFull, {txn with failed := true})
    | .done => (.success, {txn with view := txn.view.write (.put key value)})

/-- `mdb_del` removes a key from the view of the transaction. -/
def Txn.del (txn : Txn) (dbi : Option Nat) (key : Bytes) (access : Access) : Rc × Txn :=
  if dbi ≠ some mainDbi then (.einval, txn)
  else if txn.failed then (.badTxn, txn)
  else if key.length = 0 then (.badValsize, txn)
  else match access with
    | .refused => (.eio, txn)
    | .exhausted => (.mapFull, {txn with failed := true})
    | .done =>
        if (txn.view key).isSome then (.success, {txn with view := txn.view.write (.delete key)})
        else (.notFound, txn)

/-- An access replaces the contents of a live transaction. -/
def Mdb.setTxn (mdb : Mdb) (handle : Nat) (txn : Txn) : Mdb :=
  {mdb with txns := mdb.txns.modify handle fun _ => txn}

def Mdb.get (mdb : Mdb) (txn dbi : Option Nat) (key : Bytes) (access : Access) :
    Except Misuse (Rc × Option Bytes × Mdb) := do
  let (handle, state) ← mdb.txn txn
  let (rc, value, state) := state.get dbi key access
  pure (rc, value, mdb.setTxn handle state)

def Mdb.put (mdb : Mdb) (txn dbi : Option Nat) (key value : Bytes) (access : Access) :
    Except Misuse (Rc × Mdb) := do
  let (handle, state) ← mdb.txn txn
  let (rc, state) := state.put dbi key value access
  pure (rc, mdb.setTxn handle state)

def Mdb.del (mdb : Mdb) (txn dbi : Option Nat) (key : Bytes) (access : Access) :
    Except Misuse (Rc × Mdb) := do
  let (handle, state) ← mdb.txn txn
  let (rc, state) := state.del dbi key access
  pure (rc, mdb.setTxn handle state)

/-- `mdb_txn_commit` frees the transaction in every case and publishes its view when it succeeds. -/
def Mdb.txnCommit (mdb : Mdb) (txn : Option Nat) (fault : Bool) : Except Misuse (Rc × Mdb) := do
  let (handle, state) ← mdb.txn txn
  let freed : Mdb := {mdb with txns := mdb.txns.release handle}
  let (_, env) ← mdb.env (some state.env)
  match env with
  | .opened path =>
      if state.failed then pure (.badTxn, freed)
      else if fault then pure (.eio, freed)
      else pure (.success, {freed with files := Function.update mdb.files path state.view})
  | _ => .error .env

/-- `mdb_env_close` frees the environment. -/
def Mdb.envClose (mdb : Mdb) (env : Option Nat) : Except Misuse Mdb := do
  let (handle, _) ← mdb.env env
  pure {mdb with envs := mdb.envs.release handle}

end DbBench
