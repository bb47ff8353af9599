import DbBench.Construction.LMDB

/-
This file contains `get`, `put` and `del` of the LMDB adapter as several threads run them on one
object. The members `_key` and `_data` are shared by all calls, and only the library calls of
`put` and `del` hold the mutex. Both members are pointers into memory that does not belong to them.
-/

namespace DbBench

open KeyValue Transition

/-- A call has set `_key`, has set `_data`, holds the mutex, has the result of its library call,
or has returned. -/
inductive Phase where
  | ready
  | keyed
  | filled
  | locked
  | fetched (found : Bool)
  | performed (ok : Bool)
  | returned (reply : Reply)
  deriving DecidableEq

/-- The strings of a caller live until its call returns. -/
def Phase.running : Phase → Bool
  | .returned _ => false
  | _ => true

/-- The member `_data` points to nothing yet, to the string of a `put`, or to a value in the pages
of the transaction, which stays there until the next update. -/
inductive Target (ι : Type) where
  | unset
  | argument (i : ι)
  | page (value : Bytes) (updates : Nat)

/-- The members that the calls share, with the transaction that `txn` points to and the number of
its updates. The member `_key` points to the string of a call. -/
structure Members (ι : Type) where
  key : Option ι
  data : Target ι
  mtx : Bool
  dbi : Option Nat
  txn : Txn
  updates : Nat

/-- Every call is in a phase of its own. -/
structure Threads (ι : Type) where
  members : Members ι
  phase : ι → Phase

def ThreadCall.value? : ThreadCall → Option Bytes
  | .put _ value => some value
  | _ => none

section

variable {ι : Type}

/-- The bytes behind `_key`, as long as its memory is what it was. -/
def Threads.keyBytes (calls : ι → ThreadCall) (threads : Threads ι) : Option Bytes :=
  match threads.members.key with
  | none => none
  | some i => if (threads.phase i).running then some (calls i).key else none

/-- The bytes behind `_data`, as long as its memory is what it was. -/
def Threads.dataBytes (calls : ι → ThreadCall) (threads : Threads ι) : Option Bytes :=
  match threads.members.data with
  | .unset => none
  | .argument i => if (threads.phase i).running then (calls i).value? else none
  | .page value updates => if updates = threads.members.updates then some value else none

/-- What is found behind `_key` and `_data` once their memory has been used for something else. -/
structure Remains (ι : Type) where
  key : Threads ι → Bytes
  data : Threads ι → Bytes

/-- This is the next atomic step of one call. A call that waits for the mutex or has returned
stays where it is. -/
def LMDB.advance (remains : Remains ι) (calls : ι → ThreadCall) (threads : Threads ι) (i : ι) :
    Members ι × Phase :=
  let members := threads.members
  let _key := (threads.keyBytes calls).getD (remains.key threads)
  let _data := (threads.dataBytes calls).getD (remains.data threads)
  match calls i, threads.phase i with
  | .get _, .ready => ({members with key := some i}, .keyed)
  | .get _, .keyed =>
      let (rc, value, txn) := members.txn.get members.dbi _key .done
      ({members with
        data := (value.map fun value => Target.page value members.updates).getD members.data
        txn := txn }, .fetched (rc = .success))
  | .get _, .fetched true => (members, .returned (.lookup true (some _data)))
  | .get _, .fetched false => (members, .returned (.lookup false none))
  | .put _ _, .ready => ({members with key := some i}, .keyed)
  | .put _ _, .keyed => ({members with data := .argument i}, .filled)
  | .put _ _, .filled =>
      if members.mtx then (members, .filled) else ({members with mtx := true}, .locked)
  | .put _ _, .locked =>
      let (rc, txn) := members.txn.put members.dbi _key _data .done
      ({members with txn := txn, updates := members.updates + 1}, .performed (rc = .success))
  | .put _ _, .performed ok => ({members with mtx := false}, .returned (.flag ok))
  | .del _, .ready => ({members with key := some i}, .keyed)
  | .del _, .keyed =>
      if members.mtx then (members, .keyed) else ({members with mtx := true}, .locked)
  | .del _, .locked =>
      let (rc, txn) := members.txn.del members.dbi _key .done
      let updates := if rc = .notFound then members.updates else members.updates + 1
      ({members with txn := txn, updates := updates}, .performed (rc ≠ .notFound))
  | .del _, .performed ok => ({members with mtx := false}, .returned (.flag ok))
  | _, phase => (members, phase)

/-- The call `i` takes its next step. -/
def Threads.step [DecidableEq ι] (remains : Remains ι) (calls : ι → ThreadCall)
    (threads : Threads ι) (i : ι) : Threads ι :=
  let (members, phase) := LMDB.advance remains calls threads i
  ⟨members, Function.update threads.phase i phase⟩

/-- A schedule picks the call that takes the next step. -/
def LMDB.schedule [DecidableEq ι] (remains : Remains ι) (calls : ι → ThreadCall) :
    Machine (Threads ι) ι Unit Misuse := fun threads i =>
  .ok ((), threads.step remains calls i)

end

/-- No call has taken a step. -/
def Threads.start (ι : Type) (members : Members ι) : Threads ι := ⟨members, fun _ => .ready⟩

end DbBench
