import DbBench.Library.KeyValue
import DbBench.Library.Transition
import Mathlib.Data.Nat.Digits.Defs

/-
This file states the interface that the four adapters implement.
-/

namespace DbBench

open KeyValue

/-- A `std::string` is a list of bytes and may contain any byte. -/
abbrev Bytes := List UInt8

abbrev ByteStore := Store Bytes Bytes

abbrev ByteWrite := WriteOp Bytes Bytes

/-- These are the data operations of `StateDB`. -/
inductive Call where
  | get (key : Bytes)
  | put (key value : Bytes)
  | putBatch (key value : Bytes)
  | del (key : Bytes)
  | delBatch (key : Bytes)
  | applyBatch
  deriving DecidableEq

/-- A caller sees a Boolean, or the answer of `get` with what it stored through its pointer.
`close` answers nothing, and an exception leaves the operation in the caller. -/
inductive Reply where
  | unit
  | flag (ok : Bool)
  | lookup (found : Bool) (value : Option Bytes)
  | threw
  deriving DecidableEq

/-- These are the calls that the owner of an object makes on it. -/
inductive Action where
  | opening (dbname : Bytes)
  | closing
  | call (request : Call)
  deriving DecidableEq

/-- A call outside the contract of a library or of the language ends the run:
an index past the end of a vector, a library object, transaction or environment
that is not live, and a lock that its own holder waits for. -/
inductive Misuse where
  | index
  | handle
  | txn
  | env
  | deadlock
  deriving DecidableEq

/-- This is `std::to_string` on a number that is not negative. -/
def toString (n : Nat) : Bytes :=
  if n = 0 then [48] else (Nat.digits 10 n).reverse.map fun digit => 48 + UInt8.ofNat digit

/-- The answer of a `get`: its found flag and the value it stored. -/
def Reply.answer : Reply → Option (Bool × Option Bytes)
  | .lookup found value => some (found, value)
  | _ => none

/-- The Boolean that a call returns. -/
def Reply.ok : Reply → Bool
  | .flag ok => ok
  | .lookup found _ => found
  | _ => false

/-- The reply that shows one stored answer. -/
def shown (value : Option Bytes) : Reply := .lookup value.isSome value

/-- A shown answer determines the stored one. -/
theorem shown_injective : Function.Injective shown := by
  intro first second equal
  exact (Reply.lookup.inj equal).2

/-- These calls run concurrently on one object. -/
inductive ThreadCall where
  | get (key : Bytes)
  | put (key value : Bytes)
  | del (key : Bytes)
  deriving DecidableEq

def ThreadCall.key : ThreadCall → Bytes
  | .get key => key
  | .put key _ => key
  | .del key => key

/-- The data operation that a concurrent call performs. -/
def ThreadCall.request : ThreadCall → Call
  | .get key => .get key
  | .put key value => .put key value
  | .del key => .del key

end DbBench
