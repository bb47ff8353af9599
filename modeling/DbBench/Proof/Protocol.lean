import DbBench.Construction.LevelDB
import DbBench.Construction.RocksDB
import DbBench.Proof.Opened
import DbBench.Proof.ShardedProtocol

namespace DbBench

open KeyValue Transition

/-- A call is issued on the live client of the latest `open`. -/
def clientIssued (state : (RedisDB × RedisServer) × Watch) (_ : Call) : Prop :=
  ∃ handle, state.1.1.redis = some handle ∧ state.2.since ≤ handle ∧
    state.1.2.clients.Live handle

/-- No `close` comes to an object that was opened once and is closed. -/
def ClosesOnce (state : (RedisDB × RedisServer) × Watch) (input : Action × Bool) : Prop :=
  input.1 = .closing → state.1.1.isOpen = true ∨ state.1.1.redis = none

/-- The flag tells whether the client pointer leads to a live client, and the latest `open` made
the client of an object that counts as opened. -/
structure ClientTracked (state : (RedisDB × RedisServer) × Watch) : Prop where
  live : state.1.1.isOpen = true → ∃ handle, state.1.1.redis = some handle ∧
    state.1.2.clients.Live handle
  closed : state.1.1.isOpen = false → ∀ handle, state.1.1.redis = some handle →
    ¬ state.1.2.clients.Live handle
  latest : state.2.opened = true → state.1.1.isOpen = true
  since : state.2.opened = true → ∀ handle, state.1.1.redis = some handle →
    state.2.since ≤ handle

theorem ClientTracked.fresh (server : RedisServer) :
    ClientTracked ((RedisDB.fresh, server), Watch.none) :=
  ⟨nofun, fun _ => nofun, nofun, nofun⟩

theorem ClientTracked.issued {state : (RedisDB × RedisServer) × Watch}
    (tracked : ClientTracked state) (opened : state.2.opened = true) (request : Call) :
    clientIssued state request := by
  obtain ⟨handle, points, live⟩ := tracked.live (tracked.latest opened)
  exact ⟨handle, points, tracked.since opened handle points, live⟩

/-- On a live client every data operation either works or waits for a lock that is never freed. -/
theorem RedisDB.call_live {object : RedisDB} {server : RedisServer} {handle : Nat}
    (points : object.redis = some handle) (live : server.clients.Live handle)
    (input : Call × Bool) {misuse : Misuse}
    (failed : RedisDB.call (object, server) input = .error misuse) : misuse = .deadlock := by
  rcases input with ⟨request, throws⟩
  by_cases taken : object.mtx = true
  · have stuck : object.lock = .error .deadlock := by simp [RedisDB.lock, taken]
    cases request <;>
      simp_all [RedisDB.call, RedisDB.get, RedisDB.put, RedisDB.putBatch, RedisDB.del,
        RedisDB.delBatch, RedisDB.applyBatch, bind, Except.bind, pure, Except.pure]
  · have locked : object.lock = .ok {object with mtx := true} := by simp [RedisDB.lock, taken]
    have reaches : server.client (some handle) = .ok () := by simp [RedisServer.client, live]
    cases request <;> cases throws <;>
      simp [RedisDB.call, RedisDB.get, RedisDB.put, RedisDB.putBatch, RedisDB.del,
        RedisDB.delBatch, RedisDB.applyBatch, locked, points, reaches, bind, Except.bind, pure,
        Except.pure] at failed
    split at failed <;> cases failed

/-- `close` misuses nothing exactly when it meets a live client or a null pointer. -/
theorem ClientTracked.close_iff {state : (RedisDB × RedisServer) × Watch}
    (tracked : ClientTracked state) :
    (∀ misuse, state.1.1.close state.1.2 = .error misuse → misuse = .deadlock) ↔
      (state.1.1.isOpen = true ∨ state.1.1.redis = none) := by
  obtain ⟨⟨object, server⟩, watch⟩ := state
  cases points : object.redis with
  | none => simp [RedisDB.close, points, pure, Except.pure]
  | some handle =>
      cases isOpen : object.isOpen with
      | true =>
          obtain ⟨other, leads, live⟩ := tracked.live isOpen
          have same : other = handle := Option.some.inj (leads.symm.trans points)
          subst same
          simp [RedisDB.close, points, RedisServer.client, live, bind, Except.bind, pure,
            Except.pure]
      | false =>
          have dead := tracked.closed isOpen handle points
          simp [RedisDB.close, points, RedisServer.client, dead, bind, Except.bind]

/-- In every step under the contract, compliance is a matter of `close`. -/
theorem ClientTracked.complies_iff {state : (RedisDB × RedisServer) × Watch}
    {input : Action × Bool} (tracked : ClientTracked state) (contract : InContract state input) :
    Complies RedisDB.act clientIssued state input ↔ ClosesOnce state input := by
  rcases input with ⟨action, throws⟩
  cases action with
  | opening dbname => exact ⟨fun _ => nofun, fun _ => ⟨nofun, nofun⟩⟩
  | closing => exact ⟨fun complies _ => tracked.close_iff.mp complies.2,
      fun once => ⟨nofun, tracked.close_iff.mpr (once rfl)⟩⟩
  | call request =>
      have issued := tracked.issued (contract request rfl)
      refine ⟨fun _ => nofun, fun _ => ⟨fun other _ => issued other, fun misuse failed => ?_⟩⟩
      obtain ⟨handle, points, _, live⟩ := issued request
      exact RedisDB.call_live points live (request, throws) failed

theorem ClientTracked.step {state : (RedisDB × RedisServer) × Watch} {input : Action × Bool}
    {reply : Reply} {next : RedisDB × RedisServer} (tracked : ClientTracked state)
    (ran : RedisDB.act state.1 input = .ok (reply, next)) :
    ClientTracked (next, state.2.after state.1.2.clients.next reply input.1) := by
  obtain ⟨⟨object, server⟩, watch⟩ := state
  obtain ⟨after, later⟩ := next
  rcases input with ⟨action, throws⟩
  cases action with
  | opening dbname =>
      cases ran
      refine ⟨fun _ => ⟨_, rfl, by simp [Arena.Live]⟩, nofun, fun _ => rfl, fun _ handle points => ?_⟩
      cases points
      exact Nat.le_refl _
  | closing =>
      have isOpen := RedisDB.close_isOpen ran
      refine ⟨fun opened => ?_, fun _ handle points => ?_, nofun, nofun⟩
      · simp only [isOpen, Bool.false_eq_true] at opened
      · simp only [RedisDB.act, RedisDB.close] at ran
        split at ran
        · rename_i missing
          cases ran
          simp only [missing, reduceCtorEq] at points
        · rename_i held leads
          obtain ⟨_, _, equal⟩ := (bind_eq_ok _ _ _).mp ran
          cases equal
          simp only [leads, Option.some.injEq] at points
          subst points
          simp [Arena.Live]
  | call request =>
      obtain ⟨flag, pointer, clients⟩ := RedisDB.call_keeps ran
      refine ⟨?_, ?_, ?_, ?_⟩
      · simp only [flag, pointer, clients]
        exact tracked.live
      · simp only [flag, pointer, clients]
        exact tracked.closed
      · simp only [flag]
        exact tracked.latest
      · simp only [pointer]
        exact tracked.since

theorem redis_protocol (server : RedisServer) (inputs : List (Action × Bool)) :
    FollowsProtocolIff RedisDB.act (fun server => server.clients.next) clientIssued .fresh
      ClosesOnce server inputs :=
  followsProtocolIff ClientTracked ClientTracked.fresh
    (fun _ _ tracked contract => tracked.complies_iff contract)
    (fun _ _ _ _ tracked _ _ ran => tracked.step ran) server inputs

/-- A call is issued on a transaction in the environment that the latest `open` created. -/
def envIssued (state : (LMDB × Mdb) × Watch) (_ : Call) : Prop :=
  ∃ txn, Begun state.1.1 state.1.2 state.1.1.dbname txn ∧ state.2.since ≤ txn.env

/-- An `open` creates its environment or meets an open one, and begins its transaction, and
`applyBatch` commits and begins the next transaction. -/
def KeepsEnv (state : (LMDB × Mdb) × Watch) (input : Action × MdbFaults) : Prop :=
  match input.1 with
  | .opening _ =>
      if input.2.envCreate then
        ∃ env path, state.1.1.env = some env ∧ state.1.2.envs.cells env = some (.opened path)
      else input.2.envOpen = false → input.2.txnBegin = false
  | .closing => True
  | .call request => request = .applyBatch →
      ∀ txn, Begun state.1.1 state.1.2 state.1.1.dbname txn → Commits txn input.2

/-- An open object points to a live environment and to a live transaction, and the latest `open`
made both when the object counts as opened. -/
structure EnvTracked (state : (LMDB × Mdb) × Watch) : Prop where
  env : state.1.1.isOpen = true → ∃ env held, state.1.1.env = some env ∧
    state.1.2.envs.cells env = some held
  txn : state.1.1.isOpen = true → ∃ handle txn path, state.1.1.txn = some handle ∧
    state.1.2.txns.cells handle = some txn ∧ state.1.2.envs.cells txn.env = some (.opened path)
  latest : state.2.opened = true → ∀ request, envIssued state request

theorem EnvTracked.fresh (mdb : Mdb) : EnvTracked ((LMDB.fresh, mdb), Watch.none) :=
  ⟨nofun, nofun, nofun⟩

/-- An `open` that keeps the environments misuses nothing and leaves the object tracked. -/
theorem EnvTracked.opening {state : (LMDB × Mdb) × Watch} (tracked : EnvTracked state)
    (dbname : Bytes) (faults : MdbFaults) (keeps : KeepsEnv state (.opening dbname, faults)) :
    ∃ reply next, state.1.1.open dbname faults state.1.2 = .ok (reply, next) ∧
      EnvTracked (next, ⟨decide (reply = .flag true), state.1.2.envs.next⟩) := by
  obtain ⟨⟨object, mdb⟩, watch⟩ := state
  -- The cases follow the library calls of `open` in their order.
  cases created : faults.envCreate with
  | true =>
      simp only [KeepsEnv, created, if_true] at keeps
      obtain ⟨env, path, points, held⟩ := keeps
      refine ⟨.flag false, ({object with dbname := dbname}, mdb), ?_, tracked.env, tracked.txn,
        by rintro ⟨⟩⟩
      simp [LMDB.open, Mdb.envCreate, Mdb.envOpen, Mdb.env, created, points, held, bind,
        Except.bind, pure, Except.pure]
  | false =>
      cases opens : faults.envOpen with
      | true =>
          refine ⟨_, _, object.open_spoils dbname faults mdb created opens,
            fun _ => ⟨mdb.envs.next, .spoiled, rfl, mdb.enter_self .spoiled⟩, fun isOpen => ?_,
            by rintro ⟨⟩⟩
          obtain ⟨handle, txn, path, points, held, inside⟩ := tracked.txn isOpen
          exact ⟨handle, txn, path, points, held, mdb.enter_of_live .spoiled inside⟩
      | false =>
          have begins : faults.txnBegin = false := by
            simp only [KeepsEnv, created, Bool.false_eq_true, if_false] at keeps
            exact keeps opens
          have entered := mdb.enter_self (.opened dbname)
          have begun := Arena.create_cells_self mdb.txns ⟨mdb.envs.next, mdb.files dbname, false⟩
          exact ⟨_, _, object.open_begun dbname faults mdb created opens begins,
            fun _ => ⟨mdb.envs.next, _, rfl, entered⟩,
            fun _ => ⟨mdb.txns.next, _, dbname, rfl, begun, entered⟩,
            fun _ _ => ⟨_, ⟨rfl, entered, mdb.txns.next, rfl, begun⟩, Nat.le_refl _⟩⟩

/-- `close` misuses nothing and leaves a closed object. -/
theorem EnvTracked.closing {state : (LMDB × Mdb) × Watch} (tracked : EnvTracked state)
    (faults : MdbFaults) :
    ∃ reply next, state.1.1.close faults state.1.2 = .ok (reply, next) ∧
      EnvTracked (next, {state.2 with opened := false}) := by
  obtain ⟨⟨object, mdb⟩, watch⟩ := state
  cases isOpen : object.isOpen with
  | true =>
      obtain ⟨env, state, leads, live⟩ := tracked.env isOpen
      obtain ⟨handle, txn, path, points, held, inside⟩ := tracked.txn isOpen
      obtain ⟨files, closed⟩ := LMDB.close_frees isOpen points held inside leads live faults
      exact ⟨_, _, closed, nofun, nofun, nofun⟩
  | false =>
      refine ⟨.unit, (object, mdb), ?_, tracked.env, tracked.txn, nofun⟩
      simp [LMDB.close, isOpen, pure, Except.pure]

/-- A data operation under the contract misuses nothing and stays in its environment. -/
theorem EnvTracked.calling {state : (LMDB × Mdb) × Watch} (tracked : EnvTracked state)
    (opened : state.2.opened = true) (request : Call) (faults : MdbFaults)
    (keeps : KeepsEnv state (.call request, faults)) :
    ∃ reply next, LMDB.call state.1 (request, faults) = .ok (reply, next) ∧
      EnvTracked (next, state.2) := by
  obtain ⟨⟨object, mdb⟩, watch⟩ := state
  obtain ⟨txn, begun, since⟩ := tracked.latest opened request
  obtain ⟨next, after, ran, follows, _, name⟩ :=
    LMDB.call_follows begun (request, faults) fun applies => keeps applies txn begun
  have issued : ∀ request, envIssued ((next, after), watch) request := by
    intro _
    refine ⟨_, name ▸ follows, ?_⟩
    rw [txnCall_env]
    exact since
  obtain ⟨handle, points, held⟩ := follows.begun
  exact ⟨_, (next, after), ran, fun _ => ⟨_, _, follows.env, follows.opened⟩,
    fun _ => ⟨handle, _, _, points, held, follows.opened⟩, fun _ => issued⟩

/-- Every step that keeps the environments complies and leaves the object tracked. -/
theorem EnvTracked.act {state : (LMDB × Mdb) × Watch} {input : Action × MdbFaults}
    (tracked : EnvTracked state) (contract : InContract state input)
    (keeps : KeepsEnv state input) :
    ∃ reply next, LMDB.act state.1 input = .ok (reply, next) ∧
      EnvTracked (next, state.2.after state.1.2.envs.next reply input.1) := by
  rcases input with ⟨action, faults⟩
  cases action with
  | opening dbname => exact tracked.opening dbname faults keeps
  | closing => exact tracked.closing faults
  | call request => exact tracked.calling (contract request rfl) request faults keeps

theorem lmdb_protocol (mdb : Mdb) (inputs : List (Action × MdbFaults)) :
    FollowsProtocolIf LMDB.act (fun mdb => mdb.envs.next) envIssued .fresh KeepsEnv mdb
      inputs := by
  refine followsProtocolIf EnvTracked EnvTracked.fresh ?_ ?_ mdb inputs
  · intro state input tracked contract keeps
    obtain ⟨reply, next, ran, _⟩ := tracked.act contract keeps
    refine ⟨fun request same => ?_, fun misuse failed => ?_⟩
    · exact tracked.latest (contract request same) request
    · rw [ran] at failed
      cases failed
  · intro state input reply next tracked contract keeps ran
    obtain ⟨answer, reached, took, kept⟩ := tracked.act contract keeps
    rw [took] at ran
    cases ran
    exact kept

/-- LevelDB and RocksDB follow the protocol of their handles in exactly the runs whose steps meet
no entry of an earlier `open` and no deleted one, Redis in exactly those that never close twice,
and LMDB in those whose steps keep their environment. -/
theorem handles_follow_protocol_iff (disk : Disk) (sharded : List (Action × Outcomes))
    (server : RedisServer) (redis : List (Action × Bool)) (mdb : Mdb)
    (lmdb : List (Action × MdbFaults)) :
    FollowsProtocolIff LevelDB.act (fun disk => disk.arena.next) (shardIssued LevelDB.engine)
        .fresh (ShardsFresh LevelDB.engine) disk sharded ∧
      FollowsProtocolIff RocksDB.act (fun disk => disk.arena.next) (shardIssued RocksDB.engine)
        .fresh (ShardsFresh RocksDB.engine) disk sharded ∧
      FollowsProtocolIff RedisDB.act (fun server => server.clients.next) clientIssued .fresh
        ClosesOnce server redis ∧
      FollowsProtocolIf LMDB.act (fun mdb => mdb.envs.next) envIssued .fresh KeepsEnv mdb
        lmdb := by
  rw [LevelDB.act_eq, RocksDB.act_eq]
  exact ⟨sharded_protocol LevelDB.engine disk sharded,
    sharded_protocol RocksDB.engine disk sharded, redis_protocol server redis,
    lmdb_protocol mdb lmdb⟩

/-- One round of `open`, `put` and `close` keeps the contract of LevelDB and complies. -/
theorem handles_follow_protocol_iff_round :
    Along (watched LevelDB.act fun disk => disk.arena.next)
      (Complies LevelDB.act (shardIssued LevelDB.engine))
      ((ShardedDB.fresh, Disk.blank), Watch.none)
      [(.opening [100], faultless), (.call (.put [1] [7]), faultless), (.closing, faultless)] := by
  refine ((handles_follow_protocol_iff Disk.blank
    [(.opening [100], faultless), (.call (.put [1] [7]), faultless), (.closing, faultless)]
    RedisServer.blank [] Mdb.blank []).1 ⟨nofun, fun _ _ => rfl, nofun, trivial⟩).mpr
      ⟨trivial, ⟨fun _ _ => Nat.le_add_left _ _, nofun⟩, ?_, trivial⟩
  refine List.forall_iff_forall_mem.mp ?_
  repeat' first | exact ⟨_, rfl⟩ | refine ⟨?_, ?_⟩

/-- A `close` by hand makes the destructor delete every handle again in LevelDB, RocksDB and
Redis. -/
theorem handles_released_twice :
    ¬ FollowsProtocol LevelDB.act (fun disk => disk.arena.next) (shardIssued LevelDB.engine)
        .fresh ∧
      ¬ FollowsProtocol RocksDB.act (fun disk => disk.arena.next) (shardIssued RocksDB.engine)
        .fresh ∧
      ¬ FollowsProtocol RedisDB.act (fun server => server.clients.next) clientIssued .fresh := by
  refine ⟨fun claim => ?_, fun claim => ?_, fun claim => ?_⟩
  · have complies := claim Disk.blank
      [(.opening [100], faultless), (.closing, faultless), (.closing, faultless)]
      ⟨nofun, nofun, nofun, trivial⟩
    have wrong : Misuse.handle = .deadlock := complies.2.2.1.2 .handle rfl
    cases wrong
  · have complies := claim Disk.blank
      [(.opening [100], faultless), (.closing, faultless), (.closing, faultless)]
      ⟨nofun, nofun, nofun, trivial⟩
    have wrong : Misuse.handle = .deadlock := complies.2.2.1.2 .handle rfl
    cases wrong
  · have complies := claim RedisServer.blank
      [(.opening [100], false), (.closing, false), (.closing, false)]
      ⟨nofun, nofun, nofun, trivial⟩
    have wrong : Misuse.handle = .deadlock := complies.2.2.1.2 .handle rfl
    cases wrong

end DbBench
