import DbBench.Proof.LiveTxn
import DbBench.Proof.ShardedProtocol
import DbBench.Spec.Clearing

namespace DbBench

open KeyValue Transition

/-- Two sharded states agree on the sixteen shards. -/
structure SameShards (first second : ShardedStore) : Prop where
  batches : first.batches = second.batches
  stores : ∀ idx < shardCount, first.stores idx = second.stores idx

theorem SameShards.flatten {first second : ShardedStore} (same : SameShards first second)
    (engine : Engine) (key : Bytes) :
    first.flatten engine.index key = second.flatten engine.index key :=
  congrFun (same.stores _ (engine.inside key)) key

theorem SameShards.write {first second : ShardedStore} (same : SameShards first second)
    (engine : Engine) (op : ByteWrite) (outcome : Outcome) :
    SameShards (ShardedStore.write engine first op outcome)
      (ShardedStore.write engine second op outcome) := by
  unfold ShardedStore.write
  split
  · exact same
  · refine ⟨same.batches, fun idx inside => ?_⟩
    by_cases here : idx = engine.index op.key
    · subst here
      simp [Sharded.write, same.stores _ inside]
    · simp [Sharded.write, Function.update_of_ne here, same.stores idx inside]

theorem SameShards.queue {first second : ShardedStore} (same : SameShards first second)
    (engine : Engine) (op : ByteWrite) :
    SameShards (first.queue engine.index op) (second.queue engine.index op) := by
  refine ⟨?_, same.stores⟩
  simp only [Sharded.queue, same.batches]

theorem SameShards.apply {first second : ShardedStore} (same : SameShards first second)
    (outcomes : Outcomes) :
    SameShards (first.apply (Written outcomes)) (second.apply (Written outcomes)) := by
  refine ⟨same.batches, fun idx inside => ?_⟩
  simp only [Sharded.apply, same.batches, same.stores idx inside]

/-- States that agree on the shards give the same reply and agree on the shards again. -/
theorem shardCall_same (engine : Engine) {first second : ShardedStore}
    (same : SameShards first second) (input : Call × Outcomes) :
    (shardCall engine first input).1 = (shardCall engine second input).1 ∧
      SameShards (shardCall engine first input).2 (shardCall engine second input).2 := by
  rcases input with ⟨request, outcomes⟩
  cases request with
  | get key => exact ⟨by simp only [shardCall, same.flatten engine], same⟩
  | put key value =>
      simp only [shardCall]
      split
      · exact ⟨rfl, same⟩
      · exact ⟨rfl, same.write engine _ _⟩
  | putBatch key value =>
      simp only [shardCall]
      split
      · exact ⟨rfl, same⟩
      · exact ⟨rfl, same.queue engine _⟩
  | del key =>
      simp only [shardCall]
      split
      · exact ⟨rfl, same⟩
      · exact ⟨rfl, same.write engine _ _⟩
  | delBatch key =>
      simp only [shardCall]
      split
      · exact ⟨rfl, same⟩
      · exact ⟨rfl, same.queue engine _⟩
  | applyBatch =>
      simp only [shardCall]
      split
      · exact ⟨rfl, rfl, (same.apply outcomes).stores⟩
      · exact ⟨rfl, same.apply outcomes⟩

/-- The object stands on attached shards with these contents and batches. -/
def Viewed (state : ShardedDB × Disk) (view : ShardedStore) : Prop :=
  Attached state.1 state.2 ∧ SameShards (shardView state.1 state.2) view

/-- Attached shards show their own view. -/
theorem Attached.viewed {state : ShardedDB × Disk} (attached : Attached state.1 state.2) :
    Viewed state (shardView state.1 state.2) :=
  ⟨attached, rfl, fun _ _ => rfl⟩

/-- This machine is the purpose of a sharding adapter whose `clear` leaves the open shards alone. -/
def shardOperate (engine : Engine) : Machine ShardedStore (Operation × Outcomes) Reply Misuse
  | sharded, (.call request, outcomes) => .ok (shardCall engine sharded (request, outcomes))
  | sharded, (.clear, _) => .ok (.unit, sharded)

/-- Data operations on attached shards match the sharded reference. -/
theorem call_matches (engine : Engine) {state : ShardedDB × Disk} {view : ShardedStore}
    (viewed : Viewed state view) (input : Call × Outcomes) :
    Matches Viewed (ShardedDB.call engine state input) (.ok (shardCall engine view input)) := by
  obtain ⟨object, disk⟩ := state
  obtain ⟨attached, same⟩ := viewed
  obtain ⟨next, after, step, kept, _, shows⟩ := call_follows engine attached input
  obtain ⟨reply, agrees⟩ := shardCall_same engine same input
  rw [step]
  refine ⟨reply, kept, ?_⟩
  rw [shows]
  exact agrees

/-- The shards of an attached object are held. -/
theorem Attached.held {object : ShardedDB} {disk : Disk} (attached : Attached object disk) {idx : Nat}
    (inside : idx < shardCount) : disk.held (shardPath object.dbname idx) = true := by
  rw [← attached.length] at inside
  obtain ⟨handle, _, live⟩ :=
    handle_of_pathOf (attached.path idx _ (List.getElem?_eq_getElem inside))
  exact Arena.anyLive_of_cells live (by simp)

/-- The shell keeps the databases that the process has open. -/
abbrev KeepsShards (shell : Shell Disk) : Prop :=
  shell.KeepsOpen Disk.files Disk.arena fun disk path => disk.held path = true

/-- Every operation on attached shards matches the abstract machine. -/
theorem operate_matches (engine : Engine) {shell : Shell Disk} (keeps : KeepsShards shell) :
    Bisimulates (ShardedDB.operate engine shell) (shardOperate engine) Viewed := by
  intro state view input viewed
  obtain ⟨object, disk⟩ := state
  rcases input with ⟨operation, outcomes⟩
  cases operation with
  | call request => exact call_matches engine viewed (request, outcomes)
  | clear =>
      obtain ⟨attached, same⟩ := viewed
      obtain ⟨arena, files⟩ := keeps.clear object.dbname disk
      refine ⟨rfl, attached.congr arena, same.batches, fun idx inside => ?_⟩
      exact (files _ (attached.held inside)).trans (same.stores idx inside)

/-- The object holds this transaction, or none that is live. -/
def Holding (dbi : Option Nat) (state : LMDB × Mdb) (member : Option Txn) : Prop :=
  state.1.dbi = dbi ∧
    match member with
    | none => state.2.txn state.1.txn = .error .txn
    | some txn => ∃ path, Begun state.1 state.2 path txn

instance (txn : Txn) (faults : MdbFaults) : Decidable (Commits txn faults) :=
  inferInstanceAs (Decidable (_ ∧ _ ∧ _))

/-- This machine is the purpose of the LMDB adapter whose `clear` leaves the open map alone. An
`applyBatch` that does not commit leaves no transaction. -/
def txnOperate (dbi : Option Nat) : Machine (Option Txn) (Operation × MdbFaults) Reply Misuse
  | none, (.call _, _) => .error .txn
  | some txn, (.call .applyBatch, faults) =>
      if Commits txn faults then .ok (.flag true, some txn) else .ok (.flag false, none)
  | some txn, (.call request, faults) =>
      .ok ((txnCall dbi txn (request, faults)).1, some (txnCall dbi txn (request, faults)).2)
  | member, (.clear, _) => .ok (.unit, member)

/-- An `applyBatch` that does not commit and begin again frees the transaction and keeps the
pointer to it. -/
theorem LMDB.applyBatch_loses {object : LMDB} {mdb : Mdb} {handle : Nat} {path : Bytes} {txn : Txn}
    (begun : Begun object mdb path txn) (points : object.txn = some handle)
    (held : mdb.txns.cells handle = some txn) {faults : MdbFaults} (loses : ¬ Commits txn faults) :
    ∃ after : Mdb, object.applyBatch faults mdb = .ok (.flag false, object, after) ∧
      after.envs = mdb.envs ∧ after.txns = mdb.txns.release handle := by
  by_cases refused : txn.failed = true ∨ faults.commit = true
  · exact ⟨_, LMDB.applyBatch_refused points held begun.opened refused, rfl, rfl⟩
  · simp only [not_or, Bool.not_eq_true] at refused
    obtain ⟨sound, commits⟩ := refused
    have fails : faults.txnBegin = true := by
      rw [← Bool.not_eq_false]
      intro begins
      exact loses ⟨sound, commits, begins⟩
    have env : (mdb.published handle path txn.view).env object.env =
        .ok (txn.env, .opened path) := by
      rw [begun.env]
      exact Mdb.env_of_cells begun.opened
    refine ⟨mdb.published handle path txn.view, ?_, rfl, rfl⟩
    rw [LMDB.applyBatch_committed points held begun.opened sound commits]
    simp [Mdb.txnBegin, env, fails, bind, Except.bind, pure, Except.pure]

/-- A freed transaction is live no more. -/
theorem Mdb.txn_freed {mdb : Mdb} {handle : Nat} {txn : Option Nat} (points : txn = some handle)
    (freed : mdb.txns.cells handle = none) : mdb.txn txn = .error .txn := by
  rw [points, Mdb.txn, freed]

/-- Data operations of the LMDB adapter match the abstract machine. -/
theorem lmdbCall_matches {dbi : Option Nat} {state : LMDB × Mdb} {member : Option Txn}
    (holding : Holding dbi state member) (request : Call) (faults : MdbFaults) :
    Matches (Holding dbi) (LMDB.call state (request, faults))
      (txnOperate dbi member (.call request, faults)) := by
  obtain ⟨object, mdb⟩ := state
  obtain ⟨main, holds⟩ := holding
  simp only at main
  subst main
  cases member with
  | none =>
      rw [LMDB.call_dead holds]
      rfl
  | some txn =>
      obtain ⟨path, begun⟩ := holds
      by_cases applies : request = .applyBatch
      · subst applies
        by_cases commits : Commits txn faults
        · obtain ⟨next, after, step, kept, dbi, _⟩ := LMDB.applyBatch_follows begun faults commits
          have expected : txnOperate object.dbi (some txn) (.call .applyBatch, faults) =
              .ok (.flag true, some txn) := if_pos commits
          change Matches _ (object.applyBatch faults mdb) _
          rw [step, expected]
          exact ⟨rfl, dbi, path, kept⟩
        · obtain ⟨handle, points, held⟩ := begun.begun
          obtain ⟨after, step, _, txns⟩ := LMDB.applyBatch_loses begun points held commits
          have dead : after.txn object.txn = .error .txn :=
            Mdb.txn_freed points (by rw [txns, Arena.release_cells_self])
          have expected : txnOperate object.dbi (some txn) (.call .applyBatch, faults) =
              .ok (.flag false, none) := if_neg commits
          change Matches _ (object.applyBatch faults mdb) _
          rw [step, expected]
          exact ⟨rfl, rfl, dead⟩
      · obtain ⟨next, after, step, kept, dbi, _⟩ :=
          LMDB.call_follows begun (request, faults) fun same => absurd same applies
        have expected : txnOperate object.dbi (some txn) (.call request, faults) =
            .ok ((txnCall object.dbi txn (request, faults)).1,
              some (txnCall object.dbi txn (request, faults)).2) := by
          cases request with
          | applyBatch => exact absurd rfl applies
          | _ => rfl
        rw [step, expected]
        exact ⟨rfl, dbi, path, kept⟩

/-- The shell keeps the environments and transactions that the process has open. -/
abbrev KeepsMaps (shell : Shell Mdb) : Prop :=
  shell.KeepsOpen Mdb.files (fun mdb => (mdb.envs, mdb.txns)) fun mdb path =>
    ∃ handle, mdb.envs.cells handle = some (.opened path)

/-- Live objects of the library that stay the same keep a transaction begun. -/
theorem Begun.congr {object : LMDB} {mdb next : Mdb} {path : Bytes} {txn : Txn}
    (begun : Begun object mdb path txn) (envs : next.envs = mdb.envs) (txns : next.txns = mdb.txns) :
    Begun object next path txn := by
  refine ⟨begun.env, ?_, ?_⟩
  · rw [envs]
    exact begun.opened
  · rw [txns]
    exact begun.begun

theorem Holding.congr {dbi : Option Nat} {object : LMDB} {mdb next : Mdb} {member : Option Txn}
    (holding : Holding dbi (object, mdb) member) (envs : next.envs = mdb.envs)
    (txns : next.txns = mdb.txns) : Holding dbi (object, next) member := by
  refine ⟨holding.1, ?_⟩
  cases member with
  | none =>
      have dead : mdb.txn object.txn = .error .txn := holding.2
      have same : next.txn object.txn = mdb.txn object.txn := by
        unfold Mdb.txn
        rw [txns]
      exact same.trans dead
  | some txn =>
      obtain ⟨path, begun⟩ := holding.2
      exact ⟨path, begun.congr envs txns⟩

/-- Every operation of the LMDB adapter matches the abstract machine. -/
theorem lmdbOperate_matches {shell : Shell Mdb} (keeps : KeepsMaps shell) (dbi : Option Nat) :
    Bisimulates (LMDB.operate shell) (txnOperate dbi) (Holding dbi) := by
  intro state member input holding
  rcases input with ⟨operation, faults⟩
  cases operation with
  | call request => exact lmdbCall_matches holding request faults
  | clear =>
      obtain ⟨object, mdb⟩ := state
      obtain ⟨live, _⟩ := keeps.clear object.dbname mdb
      obtain ⟨envs, txns⟩ := Prod.mk.inj live
      have step : LMDB.operate shell (object, mdb) (.clear, faults) =
          .ok (.unit, object, shell.clear object.dbname mdb) := rfl
      have expected : txnOperate dbi member (.clear, faults) = .ok (.unit, member) := by
        cases member <;> rfl
      rw [step, expected]
      exact ⟨rfl, holding.congr envs txns⟩

end DbBench
