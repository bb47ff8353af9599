import DbBench.Construction.ShardedDB
import DbBench.Library.Sharding

/-
This file states the purpose of a sharding adapter: one map with one pending list.
-/

namespace DbBench

open KeyValue Transition

abbrev FlatStore := Flat Bytes Bytes

/-- The reference answers from one map. A batch stays invisible until `applyBatch` applies it in
call order, and the empty key is refused. -/
def flatStep : Reference FlatStore Call Reply
  | flat, .get key => (.lookup (flat.store key).isSome (flat.store key), flat)
  | flat, .put key value =>
      if key.isEmpty then (.flag false, flat)
      else (.flag true, {flat with store := flat.store.write (.put key value)})
  | flat, .putBatch key value =>
      if key.isEmpty then (.flag false, flat)
      else (.flag true, {flat with pending := flat.pending ++ [.put key value]})
  | flat, .del key =>
      if key.isEmpty then (.flag false, flat)
      else (.flag true, {flat with store := flat.store.write (.delete key)})
  | flat, .delBatch key =>
      if key.isEmpty then (.flag false, flat)
      else (.flag true, {flat with pending := flat.pending ++ [.delete key]})
  | flat, .applyBatch => (.flag true, ⟨flat.store.writeAll flat.pending, []⟩)

/-- No library call fails. -/
def faultless : Outcomes := fun _ => .done

/-- This machine runs without library failures. -/
def withoutFaults {State : Type} (machine : Machine State (Call × Outcomes) Reply Misuse) :
    Machine State Call Reply Misuse := fun state request => machine state (request, faultless)

/-- A lookup answers with the stored value, or with nothing when the library call fails. -/
def readReply (answer : Option Bytes) : Outcome → Reply
  | .done => .lookup answer.isSome answer
  | _ => .lookup false none

/-- A direct write reports success when its library call completes. -/
def writeReply (outcome : Outcome) : Reply := .flag (decide (outcome = .done))

/-- Every shard accepts its batch. -/
def AllDone (outcomes : Outcomes) : Prop := ∀ idx < shardCount, outcomes idx = .done

instance (outcomes : Outcomes) : Decidable (AllDone outcomes) :=
  inferInstanceAs (Decidable (∀ idx < shardCount, outcomes idx = .done))

/-- A direct write takes effect unless its library call is lost. -/
def FlatStore.write (flat : FlatStore) (op : ByteWrite) (outcome : Outcome) : FlatStore :=
  if outcome = .lost then flat else {flat with store := flat.store.write op}

/-- With library failures the reference follows each direct write, and a failed `applyBatch`
does nothing to it. -/
def flatCall : Reference FlatStore (Call × Outcomes) Reply
  | flat, (.get key, outcomes) => (readReply (flat.store key) (outcomes 0), flat)
  | flat, (.put key value, outcomes) =>
      if key.isEmpty then (.flag false, flat)
      else (writeReply (outcomes 0), FlatStore.write flat (.put key value) (outcomes 0))
  | flat, (.putBatch key value, _) =>
      if key.isEmpty then (.flag false, flat)
      else (.flag true, {flat with pending := flat.pending ++ [.put key value]})
  | flat, (.del key, outcomes) =>
      if key.isEmpty then (.flag false, flat)
      else (writeReply (outcomes 0), FlatStore.write flat (.delete key) (outcomes 0))
  | flat, (.delBatch key, _) =>
      if key.isEmpty then (.flag false, flat)
      else (.flag true, {flat with pending := flat.pending ++ [.delete key]})
  | flat, (.applyBatch, outcomes) =>
      if AllDone outcomes then (.flag true, ⟨flat.store.writeAll flat.pending, []⟩)
      else (.flag false, flat)

/-- Without failures the two references agree. -/
theorem flatCall_faultless (flat : FlatStore) (request : Call) :
    flatCall flat (request, faultless) = flatStep flat request := by
  cases request with
  | get key => rfl
  | put key value => simp [flatCall, flatStep, faultless, writeReply, FlatStore.write]
  | putBatch key value => rfl
  | del key => simp [flatCall, flatStep, faultless, writeReply, FlatStore.write]
  | delBatch key => rfl
  | applyBatch => simp [flatCall, flatStep, faultless, AllDone]

end DbBench
