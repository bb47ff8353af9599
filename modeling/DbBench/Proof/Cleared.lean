import DbBench.Proof.Abstraction
import DbBench.Proof.ApplyBatch

namespace DbBench

open KeyValue Transition

/-- No key is visible and no write waits. -/
structure Blank (engine : Engine) (view : ShardedStore) : Prop where
  hidden : ∀ key, view.flatten engine.index key = none
  batches : ∀ idx, view.batches idx = []

/-- An application of a batch decides no key that the batch does not name. -/
theorem flatten_apply_unnamed (engine : Engine) (view : ShardedStore) (outcomes : Outcomes)
    {key : Bytes} (unnamed : lastWrite (view.batches (engine.index key)) key = none) :
    (view.apply (Written outcomes)).flatten engine.index key = view.flatten engine.index key := by
  simp only [Sharded.flatten, Sharded.apply]
  split
  · rw [Store.writeAll_apply, unnamed]
    rfl
  · rfl

/-- Observations leave a blank store blank and find nothing in it. -/
theorem Blank.observe {engine : Engine} {view : ShardedStore} (blank : Blank engine view)
    {input : Operation × Outcomes} (observes : input.1.Observes) {reply : Reply}
    {next : ShardedStore} (step : shardOperate engine view input = .ok (reply, next)) :
    (∀ value, reply ≠ .lookup true value) ∧ Blank engine next := by
  rcases input with ⟨operation, outcomes⟩
  have applied : Blank engine (view.apply (Written outcomes)) := by
    refine ⟨fun key => ?_, blank.batches⟩
    rw [flatten_apply_unnamed engine view outcomes (by rw [blank.batches]; rfl), blank.hidden]
  cases operation with
  | clear =>
      cases step
      exact ⟨by simp, blank⟩
  | call request =>
      cases request with
      | get key =>
          cases step
          refine ⟨fun value => ?_, blank⟩
          rw [blank.hidden]
          cases outcomes 0 <;> simp [readReply]
      | applyBatch =>
          simp only [shardOperate, shardCall] at step
          split at step
          · cases step
            exact ⟨by simp, applied.hidden, fun _ => rfl⟩
          · cases step
            exact ⟨by simp, applied⟩
      | put key value => exact observes.elim
      | putBatch key value => exact observes.elim
      | del key => exact observes.elim
      | delBatch key => exact observes.elim

theorem Blank.finds {engine : Engine} {view : ShardedStore} (blank : Blank engine view) :
    FindsNothing (shardOperate engine) view := by
  intro inputs replies final observes ran
  exact (run_outputs (shardOperate engine) (Blank engine) (fun input => input.1.Observes)
    (fun reply => ∀ value, reply ≠ .lookup true value)
    (fun state input reply next blank observes step => blank.observe observes step) blank observes
    ran).1

/-- An operation keeps the waiting writes, adds one with a key that is not empty, or empties the
batches. -/
theorem shardOperate_batches {engine : Engine} {view next : ShardedStore}
    {input : Operation × Outcomes} {reply : Reply}
    (step : shardOperate engine view input = .ok (reply, next)) :
    next.batches = view.batches ∨
      (∃ op : ByteWrite, op.key ≠ [] ∧ input.1.Queues op.key ∧
        next.batches = (view.queue engine.index op).batches) ∨
      ∀ idx, next.batches idx = [] := by
  have write : ∀ (op : ByteWrite) (outcome : Outcome),
      (ShardedStore.write engine view op outcome).batches = view.batches := by
    intro op outcome
    unfold ShardedStore.write
    split <;> rfl
  rcases input with ⟨operation, outcomes⟩
  cases operation with
  | clear =>
      cases step
      exact .inl rfl
  | call request =>
      cases request with
      | get key =>
          cases step
          exact .inl rfl
      | put key value =>
          simp only [shardOperate, shardCall] at step
          split at step
          · cases step
            exact .inl rfl
          · cases step
            exact .inl (write _ _)
      | putBatch key value =>
          simp only [shardOperate, shardCall] at step
          split at step
          · cases step
            exact .inl rfl
          · rename_i nonempty
            cases step
            exact .inr (.inl ⟨.put key value, by simpa [WriteOp.key] using nonempty, rfl, rfl⟩)
      | del key =>
          simp only [shardOperate, shardCall] at step
          split at step
          · cases step
            exact .inl rfl
          · cases step
            exact .inl (write _ _)
      | delBatch key =>
          simp only [shardOperate, shardCall] at step
          split at step
          · cases step
            exact .inl rfl
          · rename_i nonempty
            cases step
            exact .inr (.inl ⟨.delete key, by simpa [WriteOp.key] using nonempty, rfl, rfl⟩)
      | applyBatch =>
          simp only [shardOperate, shardCall] at step
          split at step
          · cases step
            exact .inr (.inr fun _ => rfl)
          · cases step
            exact .inl rfl

/-- An operation that queues no write to a key lets none wait for it. -/
theorem unnamed_step {engine : Engine} {key : Bytes} {view next : ShardedStore}
    {input : Operation × Outcomes} {reply : Reply} (unqueued : ¬ input.1.Queues key)
    (unnamed : lastWrite (view.batches (engine.index key)) key = none)
    (step : shardOperate engine view input = .ok (reply, next)) :
    lastWrite (next.batches (engine.index key)) key = none := by
  rcases shardOperate_batches step with same | ⟨op, _, queues, added⟩ | emptied
  · rw [same]
    exact unnamed
  · have different : op.key ≠ key := fun equal => unqueued (equal ▸ queues)
    rw [added]
    by_cases here : engine.index key = engine.index op.key
    · rw [here] at unnamed
      simp [Sharded.queue, here, different, unnamed]
    · simp [Sharded.queue, Function.update_of_ne here, unnamed]
  · rw [emptied]
    rfl

/-- Where no write waits, no `applyBatch` brings an old one back. -/
theorem forgets_of_batches {engine : Engine} {view : ShardedStore}
    (batches : ∀ idx, view.batches idx = []) :
    ForgetsQueue (shardOperate engine) faultless view := by
  intro inputs replies before ran outcomes reply after applied key unqueued first second shown later
  have start : lastWrite (view.batches (engine.index key)) key = none := by
    rw [batches]
    rfl
  have unnamed := (run_outputs (shardOperate engine)
    (fun view => lastWrite (view.batches (engine.index key)) key = none)
    (fun input => ¬ input.1.Queues key) (fun _ => True)
    (fun state input reply next unnamed unqueued step =>
      ⟨trivial, unnamed_step unqueued unnamed step⟩) start unqueued ran).2
  have same : after.flatten engine.index key = before.flatten engine.index key := by
    have kept := flatten_apply_unnamed engine before outcomes unnamed
    simp only [shardOperate, shardCall] at applied
    split at applied
    · cases applied
      exact kept
    · cases applied
      exact kept
  have equal : replyTo (shardOperate engine) faultless after key =
      replyTo (shardOperate engine) faultless before key := by
    simp only [replyTo, shardOperate, shardCall, Except.map, same]
  rw [equal, shown] at later
  exact (Except.ok.inj later).symm

/-- Every waiting write names a key of its own shard, and none names the empty key. -/
def Routed (engine : Engine) (view : ShardedStore) : Prop :=
  ∀ idx, ∀ op ∈ view.batches idx, engine.index op.key = idx ∧ op.key ≠ []

theorem Routed.step {engine : Engine} {view next : ShardedStore} (routed : Routed engine view)
    {input : Operation × Outcomes} {reply : Reply}
    (step : shardOperate engine view input = .ok (reply, next)) : Routed engine next := by
  intro idx other member
  rcases shardOperate_batches step with same | ⟨op, nonempty, _, added⟩ | emptied
  · rw [same] at member
    exact routed idx other member
  · rw [added] at member
    by_cases here : idx = engine.index op.key
    · subst here
      simp only [Sharded.queue, Function.update_self, List.mem_append, List.mem_singleton] at member
      rcases member with earlier | last
      · exact routed _ other earlier
      · rw [last]
        exact ⟨rfl, nonempty⟩
    · simp only [Sharded.queue, Function.update_of_ne here] at member
      exact routed idx other member
  · rw [emptied] at member
    cases member

/-- A value that differs from an answer. -/
def another : Option Bytes → Bytes
  | some value => 0 :: value
  | none => []

theorem another_ne (answer : Option Bytes) : some (another answer) ≠ answer := by
  cases answer with
  | none => simp
  | some value =>
      intro equal
      have lengths := congrArg List.length (Option.some.inj equal)
      simp [another] at lengths

/-- Without failures a direct write shows at its key. -/
theorem put_shows (engine : Engine) (view : ShardedStore) {key : Bytes} (value : Bytes)
    (nonempty : key ≠ []) :
    ∃ next, shardOperate engine view (.call (.put key value), faultless) = .ok (.flag true, next) ∧
      next.batches = view.batches ∧ next.flatten engine.index key = some value := by
  refine ⟨Sharded.write engine.index view (.put key value), ?_, rfl, ?_⟩
  · simp [shardOperate, shardCall, nonempty, faultless, writeReply, ShardedStore.write]
  · rw [Sharded.flatten_write]
    exact Store.write_self _ (.put key value)

/-- Without failures `applyBatch` shows the last waiting write to a key. -/
theorem apply_shows (engine : Engine) (view : ShardedStore) {key : Bytes} {outcome : Option Bytes}
    (named : lastWrite (view.batches (engine.index key)) key = some outcome) :
    ∃ next, shardOperate engine view (.call .applyBatch, faultless) = .ok (.flag true, next) ∧
      next.flatten engine.index key = outcome := by
  have all : AllDone faultless := fun _ _ => rfl
  refine ⟨(view.apply (Written faultless)).clear, ?_, ?_⟩
  · simp only [shardOperate, shardCall, if_pos all]
  · change (view.apply (Written faultless)).flatten engine.index key = outcome
    simp only [Sharded.flatten, Sharded.apply, if_pos (all.written engine key),
      Store.writeAll_apply, named, Option.getD_some]

/-- A write that waits becomes visible behind a direct write to its key. -/
theorem batches_of_forgets {engine : Engine} {view : ShardedStore} (routed : Routed engine view)
    (forgets : ForgetsQueue (shardOperate engine) faultless view) (idx : Nat) :
    view.batches idx = [] := by
  rcases List.eq_nil_or_concat (view.batches idx) with none | ⟨earlier, op, waiting⟩
  · exact none
  · obtain ⟨home, nonempty⟩ := routed idx op (by simp [waiting])
    obtain ⟨written, wrote, batches, visible⟩ :=
      put_shows engine view (another op.outcome) nonempty
    have named : lastWrite (written.batches (engine.index op.key)) op.key = some op.outcome := by
      rw [batches, home, waiting, List.concat_eq_append, lastWrite_snoc, if_pos rfl]
    obtain ⟨applied, applies, later⟩ := apply_shows engine written named
    have ran : run (shardOperate engine) view
        [(.call (.put op.key (another op.outcome)), faultless)] = .ok ([.flag true], written) := by
      rw [run_cons_of_ok _ wrote]
      rfl
    have same := forgets _ _ _ ran faultless _ _ applies op.key (by simp [Operation.Queues])
      (shown (some (another op.outcome))) (shown op.outcome)
      (by simp only [replyTo, shardOperate, shardCall, Except.map, visible]; rfl)
      (by simp only [replyTo, shardOperate, shardCall, Except.map, later]; rfl)
    exact absurd (shown_injective same).symm (another_ne op.outcome)

/-- Without failures the abstract machine hides everything exactly when it holds no key. -/
theorem shard_hides_iff (engine : Engine) (view : ShardedStore) :
    Hides (shardOperate engine) faultless view ↔
      ∀ key, view.flatten engine.index key = none := by
  have said : ∀ key, replyTo (shardOperate engine) faultless view key =
      .ok (shown (view.flatten engine.index key)) := fun key => rfl
  constructor
  · intro hides key
    cases held : view.flatten engine.index key with
    | none => rfl
    | some value =>
        have shows := said key
        rw [held] at shows
        exact absurd shows (hides key (some value))
  · intro hidden key value shows
    rw [said, hidden] at shows
    cases shows

/-- The inherited `clear` empties only a blank store. -/
theorem shard_empties_iff {engine : Engine} {view : ShardedStore} (routed : Routed engine view) :
    ClearEmpties (shardOperate engine) faultless view ↔
      Hides (shardOperate engine) faultless view ∧ ∀ idx, view.batches idx = [] := by
  constructor
  · intro empties
    obtain ⟨finds, forgets⟩ := empties faultless view rfl
    exact ⟨finds.hides faultless, batches_of_forgets routed forgets⟩
  · rintro ⟨hides, batches⟩ outcomes cleared step
    cases step
    have blank : Blank engine view := ⟨(shard_hides_iff engine view).mp hides, batches⟩
    exact ⟨blank.finds, forgets_of_batches batches⟩

/-- A fresh sharded object was opened. -/
def ShardedOpened (opening : ShardedDB → Bytes → Outcomes → Disk → Reply × ShardedDB × Disk)
    (state : ShardedDB × Disk) : Prop :=
  ∃ dbname outcomes disk, opening .fresh dbname outcomes disk = (.flag true, state)

/-- After every run of a sharded object, `clear` empties it exactly when it was empty before. -/
theorem sharded_empties_iff (engine : Engine) {shell : Shell Disk} (keeps : KeepsShards shell) :
    EmptiesExactlyWhen (ShardedDB.operate engine shell) faultless
      (ShardedOpened (ShardedDB.open engine))
      fun state => Hides (ShardedDB.operate engine shell) faultless state ∧
        ∀ idx, pendingAt state idx = [] := by
  rintro opened inputs replies state ⟨dbname, outcomes, disk, opens⟩ ran
  obtain ⟨attached, _, _, batch⟩ := open_attached engine opens
  have bisimulates := operate_matches engine keeps
  have empty : Routed engine (shardView opened.1 opened.2) := by
    intro idx op member
    simp only [shardView] at member
    cases found : opened.1.dbs[idx]? with
    | none =>
        rw [found] at member
        cases member
    | some entry =>
        rw [found, Option.map_some, Option.getD_some,
          batch entry (List.mem_of_getElem? found)] at member
        cases member
  obtain ⟨view, reached, viewed⟩ := (ran ▸ bisimulates.run attached.viewed inputs).ok
  have routed : Routed engine view := run_invariant (shardOperate engine) (Routed engine)
    (fun _ _ _ _ kept step => kept.step step) empty reached
  have batches : ∀ idx, pendingAt state idx = view.batches idx := congrFun viewed.2.batches
  simp only [clearEmpties_iff bisimulates viewed, hides_iff bisimulates viewed, batches]
  exact shard_empties_iff routed

/-- A read that succeeds would succeed without failures, too. -/
theorem Txn.get_success {txn : Txn} {dbi : Option Nat} {key : Bytes} {access : Access}
    (found : (txn.get dbi key access).1 = .success) : (txn.get dbi key .done).1 = .success := by
  revert found
  fun_cases Txn.get txn dbi key access
  case case6 main sound nonempty value held =>
    intro _
    simp_all [Txn.get]
  all_goals simp

/-- A read keeps its transaction or marks it. -/
theorem Txn.get_next (txn : Txn) (dbi : Option Nat) (key : Bytes) (access : Access) :
    (txn.get dbi key access).2.2 = txn ∨ (txn.get dbi key access).2.2.failed = true := by
  fun_cases Txn.get txn dbi key access <;> simp

/-- A marked transaction finds nothing. -/
theorem Txn.get_failed {txn : Txn} (failed : txn.failed = true) (dbi : Option Nat) (key : Bytes) :
    (txn.get dbi key .done).1 ≠ .success := by
  by_cases main : dbi = some mainDbi <;> simp [Txn.get, main, failed]

/-- No transaction is live, or the live one finds nothing. -/
def Barren (dbi : Option Nat) : Option Txn → Prop
  | none => True
  | some txn => ∀ key, (txn.get dbi key .done).1 ≠ .success

/-- Without failures the abstract machine hides everything exactly when it is barren. -/
theorem txn_hides_iff (dbi : Option Nat) (member : Option Txn) :
    Hides (txnOperate dbi) MdbFaults.none member ↔ Barren dbi member := by
  cases member with
  | none => exact ⟨fun _ => trivial, fun _ key value shows => by cases shows⟩
  | some txn =>
      have said : ∀ key, replyTo (txnOperate dbi) MdbFaults.none (some txn) key =
          .ok (if (txn.get dbi key .done).1 = .success then
            .lookup true (txn.get dbi key .done).2.1 else .lookup false none) := fun key => rfl
      constructor
      · intro hides key found
        apply hides key (txn.get dbi key .done).2.1
        rw [said, if_pos found]
      · intro barren key value shows
        rw [said, if_neg (barren key)] at shows
        cases shows

/-- Observations leave a barren transaction barren and find nothing in it. -/
theorem Barren.observe {dbi : Option Nat} {member next : Option Txn} (barren : Barren dbi member)
    {input : Operation × MdbFaults} (observes : input.1.Observes) {reply : Reply}
    (step : txnOperate dbi member input = .ok (reply, next)) :
    (∀ value, reply ≠ .lookup true value) ∧ Barren dbi next := by
  rcases input with ⟨operation, faults⟩
  cases operation with
  | clear =>
      cases member <;> cases step <;> exact ⟨by simp, barren⟩
  | call request =>
      cases member with
      | none => cases step
      | some txn =>
          cases request with
          | get key =>
              have missed : (txn.get dbi key faults.access).1 ≠ .success :=
                fun found => barren key (Txn.get_success found)
              simp only [txnOperate, txnCall, if_neg missed] at step
              cases step
              refine ⟨by simp, fun other => ?_⟩
              rcases txn.get_next dbi key faults.access with same | failed
              · rw [same]
                exact barren other
              · exact Txn.get_failed failed dbi other
          | applyBatch =>
              simp only [txnOperate] at step
              split at step
              · cases step
                exact ⟨by simp, barren⟩
              · cases step
                exact ⟨by simp, trivial⟩
          | put key value => exact observes.elim
          | putBatch key value => exact observes.elim
          | del key => exact observes.elim
          | delBatch key => exact observes.elim

/-- An `applyBatch` keeps the answers of its transaction or loses it. -/
theorem txn_forgets (dbi : Option Nat) (member : Option Txn) :
    ForgetsQueue (txnOperate dbi) MdbFaults.none member := by
  intro inputs replies before ran faults reply after applied key unqueued first second shown later
  cases before with
  | none => cases applied
  | some txn =>
      simp only [txnOperate] at applied
      split at applied
      · cases applied
        rw [shown] at later
        exact (Except.ok.inj later).symm
      · cases applied
        cases later

/-- The inherited `clear` empties only a transaction that finds nothing. -/
theorem txn_empties_iff (dbi : Option Nat) (member : Option Txn) :
    ClearEmpties (txnOperate dbi) MdbFaults.none member ↔
      Hides (txnOperate dbi) MdbFaults.none member := by
  have clears : ∀ faults, txnOperate dbi member (.clear, faults) = .ok (.unit, member) := by
    intro faults
    cases member <;> rfl
  constructor
  · intro empties
    exact (empties MdbFaults.none member (clears _)).1.hides MdbFaults.none
  · intro hides faults cleared step
    cases (clears faults).symm.trans step
    have barren := (txn_hides_iff dbi member).mp hides
    refine ⟨?_, txn_forgets dbi member⟩
    intro inputs replies final observes ran
    exact (run_outputs (txnOperate dbi) (Barren dbi) (fun input => input.1.Observes)
      (fun reply => ∀ value, reply ≠ .lookup true value)
      (fun state input reply next barren observes step => barren.observe observes step) barren
      observes ran).1

/-- A fresh LMDB object was opened. -/
def LmdbOpened (state : LMDB × Mdb) : Prop :=
  ∃ dbname faults mdb, LMDB.open .fresh dbname faults mdb = .ok (.flag true, state)

/-- After every run of an LMDB object, `clear` empties it exactly when it was empty before. -/
theorem lmdb_empties_iff {shell : Shell Mdb} (keeps : KeepsMaps shell) :
    EmptiesExactlyWhen (LMDB.operate shell) MdbFaults.none LmdbOpened
      (Hides (LMDB.operate shell) MdbFaults.none) := by
  rintro opened inputs replies state ⟨dbname, faults, mdb, opens⟩ ran
  obtain ⟨env, begun, _⟩ := LMDB.open_fresh opens
  have bisimulates := lmdbOperate_matches keeps opened.1.dbi
  have holding : Holding opened.1.dbi opened (some ⟨env, mdb.files dbname, false⟩) :=
    ⟨rfl, dbname, begun⟩
  obtain ⟨member, _, held⟩ := (ran ▸ bisimulates.run holding inputs).ok
  rw [clearEmpties_iff bisimulates held, hides_iff bisimulates held]
  exact txn_empties_iff opened.1.dbi member

/-- A fresh Redis object was opened. -/
def RedisOpened (state : RedisDB × RedisServer) : Prop :=
  ∃ dbname server, RedisDB.open .fresh dbname server = (.flag true, state)

/-- A Redis operation that returns has taken the mutex and reached its client. -/
theorem redis_section {object next : RedisDB} {server after : RedisServer} {reply : Reply}
    {inside : RedisDB → Except Misuse (Reply × RedisDB × RedisServer)}
    (ran : (do
      let object ← object.lock
      server.client object.redis
      inside object) = .ok (reply, next, after)) :
    ∃ locked, inside locked = .ok (reply, next, after) := by
  obtain ⟨locked, _, rest⟩ := (bind_eq_ok _ _ _).mp ran
  obtain ⟨_, _, later⟩ := (bind_eq_ok _ _ _).mp rest
  exact ⟨locked, later⟩

/-- Observations leave an empty server empty and find nothing on it. -/
theorem redis_observe {state next : RedisDB × RedisServer} {input : Operation × Bool}
    (empty : state.2.data = Store.empty) (observes : input.1.Observes) {reply : Reply}
    (step : RedisDB.operate state input = .ok (reply, next)) :
    (∀ value, reply ≠ .lookup true value) ∧ next.2.data = Store.empty := by
  obtain ⟨object, server⟩ := state
  obtain ⟨changed, after⟩ := next
  simp only at empty
  rcases input with ⟨operation, throws⟩
  cases operation with
  | clear =>
      obtain ⟨locked, ran⟩ := redis_section step
      cases throws <;> cases ran
      · exact ⟨by simp, rfl⟩
      · exact ⟨by simp, empty⟩
  | call request =>
      cases request with
      | get key =>
          obtain ⟨locked, ran⟩ := redis_section step
          rw [empty] at ran
          cases throws <;> cases ran <;> exact ⟨by simp, empty⟩
      | applyBatch =>
          cases step
          exact ⟨by simp, empty⟩
      | put key value => exact observes.elim
      | putBatch key value => exact observes.elim
      | del key => exact observes.elim
      | delBatch key => exact observes.elim

/-- The overriding `clear` of the Redis adapter empties every store. -/
theorem redis_empties (state : RedisDB × RedisServer) :
    ClearEmpties RedisDB.operate false state := by
  rintro throws ⟨cleared, after⟩ step
  obtain ⟨object, server⟩ := state
  obtain ⟨locked, ran⟩ := redis_section step
  have empty : after.data = Store.empty := by
    cases throws <;> cases ran
    rfl
  constructor
  · intro inputs replies final observes ran
    exact (run_outputs RedisDB.operate (fun state => state.2.data = Store.empty)
      (fun input => input.1.Observes) (fun reply => ∀ value, reply ≠ .lookup true value)
      (fun _ _ _ _ empty observes step => redis_observe empty observes step) empty observes ran).1
  · intro inputs replies before _ fault reply after applied key _ first second shown later
    cases applied
    rw [shown] at later
    exact (Except.ok.inj later).symm

/-- `clear` empties a Redis store after every run. It empties a LevelDB or RocksDB store exactly
when no key is visible and no write waits already, and an LMDB store exactly when no key is
visible already. -/
theorem clear_empties_iff (disks : Shell Disk) (maps : Shell Mdb) (keepsShards : KeepsShards disks)
    (keepsMaps : KeepsMaps maps) :
    EmptiesExactlyWhen (LevelDB.operate disks) faultless (ShardedOpened LevelDB.open)
        (fun state => Hides (LevelDB.operate disks) faultless state ∧
          ∀ idx, pendingAt state idx = []) ∧
      EmptiesExactlyWhen (RocksDB.operate disks) faultless (ShardedOpened RocksDB.open)
        (fun state => Hides (RocksDB.operate disks) faultless state ∧
          ∀ idx, pendingAt state idx = []) ∧
      EmptiesExactlyWhen RedisDB.operate false RedisOpened (fun _ => True) ∧
      EmptiesExactlyWhen (LMDB.operate maps) MdbFaults.none LmdbOpened
        (Hides (LMDB.operate maps) MdbFaults.none) := by
  refine ⟨sharded_empties_iff LevelDB.engine keepsShards,
    sharded_empties_iff RocksDB.engine keepsShards, ?_, lmdb_empties_iff keepsMaps⟩
  intro opened inputs replies state _ _
  exact iff_of_true (redis_empties state) trivial

/-- The path is the directory, or it continues the name of the directory behind a slash. -/
def Below (path name : Bytes) : Prop := path = name ∨ (name ++ [47]) <+: path

instance (path name : Bytes) : Decidable (Below path name) :=
  inferInstanceAs (Decidable (_ ∨ _))

/-- The command removes the directory that the path lies in. -/
def unlinked (command path : Bytes) : Bool :=
  command.take 7 = removal [] ∧ Below path (command.drop 7)

/-- This shell unlinks the files of a directory and leaves those that are open to their holders. -/
def unlinkShards : Shell Disk where
  stat dbname disk := (List.range shardCount).any fun idx => disk.held (shardPath dbname idx)
  system command disk :=
    { disk with
      files := fun path =>
        if unlinked command path && !disk.held path then Store.empty else disk.files path }

def unlinkMaps : Shell Mdb where
  stat dbname mdb := mdb.envs.anyLive fun env => env = .opened dbname
  system command mdb :=
    { mdb with
      files := fun path =>
        if unlinked command path && !mdb.envs.anyLive (fun env => env = .opened path) then
          Store.empty
        else mdb.files path }

theorem unlinkShards_keeps : KeepsShards unlinkShards := by
  refine ⟨fun _ _ => rfl, fun dbname disk path held => ?_⟩
  simp only [unlinkShards, held, Bool.not_true, Bool.and_false, Bool.false_eq_true, if_false]

theorem unlinkMaps_keeps : KeepsMaps unlinkMaps := by
  refine ⟨fun _ _ => rfl, ?_⟩
  rintro dbname mdb path ⟨handle, live⟩
  have held : mdb.envs.anyLive (fun env => env = .opened path) = true :=
    Arena.anyLive_of_cells live (by simp)
  simp only [unlinkMaps, held, Bool.not_true, Bool.and_false, Bool.false_eq_true, if_false]

theorem clear_empties_iff_unlink :
    EmptiesExactlyWhen (LevelDB.operate unlinkShards) faultless (ShardedOpened LevelDB.open)
        (fun state => Hides (LevelDB.operate unlinkShards) faultless state ∧
          ∀ idx, pendingAt state idx = []) ∧
      EmptiesExactlyWhen (RocksDB.operate unlinkShards) faultless (ShardedOpened RocksDB.open)
        (fun state => Hides (RocksDB.operate unlinkShards) faultless state ∧
          ∀ idx, pendingAt state idx = []) ∧
      EmptiesExactlyWhen RedisDB.operate false RedisOpened (fun _ => True) ∧
      EmptiesExactlyWhen (LMDB.operate unlinkMaps) MdbFaults.none LmdbOpened
        (Hides (LMDB.operate unlinkMaps) MdbFaults.none) :=
  clear_empties_iff unlinkShards unlinkMaps unlinkShards_keeps unlinkMaps_keeps

/-- After every run of an opened object of any adapter, `clear` empties the store. -/
def ClearAlwaysEmpties : Prop :=
  ∀ (disks : Shell Disk) (maps : Shell Mdb), KeepsShards disks → KeepsMaps maps →
    EmptiesExactlyWhen (LevelDB.operate disks) faultless (ShardedOpened LevelDB.open)
        (fun _ => True) ∧
      EmptiesExactlyWhen (RocksDB.operate disks) faultless (ShardedOpened RocksDB.open)
        (fun _ => True) ∧
      EmptiesExactlyWhen RedisDB.operate false RedisOpened (fun _ => True) ∧
      EmptiesExactlyWhen (LMDB.operate maps) MdbFaults.none LmdbOpened (fun _ => True)

/-- LevelDB still finds after `clear` what was put before it. -/
theorem clear_keeps_contents : ¬ ClearAlwaysEmpties := by
  intro always
  obtain ⟨level, _⟩ := always unlinkShards unlinkMaps unlinkShards_keeps unlinkMaps_keeps
  have empties := (level (LevelDB.open .fresh [100] faultless Disk.blank).2
    [(.call (.put [1] [7]), faultless)] [.flag true] _ ⟨[100], faultless, Disk.blank, rfl⟩
    rfl).mpr trivial
  obtain ⟨finds, _⟩ := empties faultless _ rfl
  exact finds [(.call (.get [1]), faultless)] [.lookup true (some [7])] _
    (by simp [Operation.Observes]) rfl _ List.mem_cons_self (some [7]) rfl

end DbBench
