import DbBench.Proof.ApplyBatch
import DbBench.Proof.Interchange
import DbBench.Proof.LiveTxn
import DbBench.Proof.Opened
import DbBench.Proof.ShardedProtocol
import DbBench.Spec.Sessions

namespace DbBench

open KeyValue Transition

/-- One round of `close` goes on to the later entries with the same contents. -/
theorem closeShards_later {entry : DB} {rest : List DB} {disk after : Disk}
    (ran : closeShards (entry :: rest) disk = .ok after) :
    ∃ middle : Disk, middle.files = disk.files ∧ closeShards rest middle = .ok after := by
  have cached : ∀ middle : Disk, middle.files = disk.files →
      closeShards ({entry with db := none} :: rest) middle = .ok after →
        ∃ later : Disk, later.files = disk.files ∧ closeShards rest later = .ok after := by
    intro middle same onward
    cases leads : entry.blockCache with
    | none =>
        refine ⟨middle, same, ?_⟩
        simpa [closeShards, leads, bind, Except.bind, pure, Except.pure] using onward
    | some cache =>
        rcases deleteCache_cases middle cache with failed | freed
        · simp [closeShards, leads, failed, bind, Except.bind, pure, Except.pure] at onward
        · refine ⟨{middle with arena := middle.arena.release cache}, same, ?_⟩
          simpa [closeShards, leads, freed, bind, Except.bind, pure, Except.pure] using onward
  cases leads : entry.db with
  | none =>
      have same : entry = {entry with db := none} := by rw [← leads]
      rw [same] at ran
      exact cached disk rfl ran
  | some db =>
      rcases deleteDB_cases disk db with failed | freed
      · simp [closeShards, leads, failed, bind, Except.bind] at ran
      · apply cached {disk with arena := disk.arena.release db} rfl
        rw [← ran]
        simp [closeShards, leads, freed, bind, Except.bind, pure, Except.pure]

/-- The destructor deletes handles and keeps the contents of every path. -/
theorem closeShards_files {dbs : List DB} {disk after : Disk}
    (ran : closeShards dbs disk = .ok after) : after.files = disk.files := by
  induction dbs generalizing disk with
  | nil =>
      cases ran
      rfl
  | cons entry rest ih =>
      obtain ⟨middle, same, later⟩ := closeShards_later ran
      rw [ih later, same]

/-- Attached shards answer from the contents of their paths. -/
theorem answers_of_attached (engine : Engine) {state : ShardedDB × Disk}
    (attached : Attached state.1 state.2) :
    Answers (ShardedDB.act engine) faultless state
      (diskContents engine state.2 state.1.dbname) :=
  answer_eq engine attached

/-- An object in one session owns its vector alone. -/
structure ShardsLive (dbname : Bytes) (state : ShardedDB × Disk) : Prop where
  attached : Attached state.1 state.2
  name : state.1.dbname = dbname
  held : ∃ watch, HeldState (state, watch)

/-- The sessions of a sharded adapter lead from the contents of the shard paths back to them. -/
theorem sharded_keeping (engine : Engine) (dbname : Bytes) :
    Keeping (ShardedDB.act engine) faultless (fun _ _ => True) .fresh dbname
      (fun disk => diskContents engine disk dbname) (ShardsLive dbname) := by
  constructor
  · intro disk outcomes opened _ ran
    have opens : ShardedDB.open engine .fresh dbname outcomes disk = (.flag true, opened) :=
      Except.ok.inj ran
    obtain ⟨attached, name, files, _⟩ := open_attached engine opens
    have fresh : ShardsFresh engine ((ShardedDB.fresh, disk), Watch.none)
        (.opening dbname, outcomes) := trivial
    have held := (HeldState.fresh disk).step fresh ran
    refine ⟨⟨attached, name, _, held⟩, ?_⟩
    have answers := answers_of_attached engine attached
    rw [name] at answers
    have same : diskContents engine opened.2 dbname = diskContents engine disk dbname := by
      funext key
      simp only [diskContents, files]
    rwa [same] at answers
  · intro state request outcomes reply next live _ ran
    obtain ⟨watch, held⟩ := live.held
    obtain ⟨object, disk, followed, attached, name, _⟩ :=
      call_follows engine live.attached (request, outcomes)
    have same : (reply, next) = (_, object, disk) := Except.ok.inj (ran.symm.trans followed)
    cases same
    exact ⟨attached, name.trans live.name, watch, held.calling followed⟩
  · intro state outcomes live _
    obtain ⟨watch, held⟩ := live.held
    obtain ⟨after, closed, _, _⟩ := held.close_frees fun entry member => by
      obtain ⟨idx, found⟩ := List.getElem?_of_mem member
      exact ⟨_, live.attached.path idx entry found⟩
    refine ⟨(state.1, after), closed, ?_⟩
    obtain ⟨last, deleted, equal⟩ := (bind_eq_ok _ _ _).mp closed
    cases equal
    have answers := answers_of_attached engine live.attached
    rw [live.name] at answers
    have same : diskContents engine after dbname = diskContents engine state.2 dbname := by
      funext key
      simp only [diskContents, closeShards_files deleted]
    rwa [← same] at answers

/-- The server stays up, so no call of the client library throws. -/
def StaysUp (_ : RedisDB × RedisServer) (input : Action × Bool) : Prop := input.2 = false

/-- A live client answers from the map of the server. -/
theorem answers_of_serving {state : RedisDB × RedisServer} (serving : Serving state.1 state.2) :
    Answers RedisDB.act false state state.2.data := by
  intro key
  have called : RedisDB.act state (.call (.get key), false) = _ :=
    RedisDB.call_follows serving (.get key)
  rw [called]
  rfl

/-- The sessions of the Redis adapter leave the contents with the server. -/
theorem redis_keeping (dbname : Bytes) :
    Keeping RedisDB.act false StaysUp .fresh dbname RedisServer.data
      (fun state => Serving state.1 state.2) := by
  constructor
  · intro server throws opened _ ran
    have opens : RedisDB.fresh.open dbname server = (.flag true, opened) := Except.ok.inj ran
    have serving := RedisDB.open_serving dbname server
    rw [opens] at serving
    refine ⟨serving, ?_⟩
    have same : opened.2.data = server.data := by
      rw [← congrArg (fun result => result.2.2.data) opens]
      rfl
    rw [← same]
    exact answers_of_serving serving
  · intro state request throws reply next serving up ran
    cases up
    obtain ⟨object, server⟩ := state
    have same : (reply, next) = _ :=
      Except.ok.inj (ran.symm.trans (RedisDB.call_follows serving request))
    cases same
    exact ⟨serving.free, serving.client⟩
  · intro state throws serving _
    obtain ⟨object, server⟩ := state
    cases points : object.redis with
    | none =>
        have client := serving.client
        simp only [points, RedisServer.client] at client
        cases client
    | some handle =>
        have client : server.client (some handle) = .ok () := points ▸ serving.client
        refine ⟨({object with isOpen := false},
          {server with clients := server.clients.release handle}), ?_, answers_of_serving serving⟩
        simp [RedisDB.act, RedisDB.close, points, client, bind, Except.bind, pure, Except.pure]

/-- Commits succeed. `mdb_dbi_open` without a name fails only in a transaction that is over. -/
def CommitsSucceed (state : LMDB × Mdb) (input : Action × MdbFaults) : Prop :=
  match input.1 with
  | .opening _ => input.2.dbiOpen = false
  | .closing => ∃ next, state.2.txnCommit state.1.txn input.2.commit = .ok (.success, next)
  | .call .applyBatch => ∃ next, state.2.txnCommit state.1.txn input.2.commit = .ok (.success, next)
  | .call _ => True

/-- The member transaction stands in the environment of the path, or an earlier begin failed and
the object holds no transaction at all. -/
structure TxnLives (dbname : Bytes) (state : LMDB × Mdb) : Prop where
  isOpen : state.1.isOpen = true
  txn : state.2.txn state.1.txn = .error .txn ∨
    (state.1.dbi = some mainDbi ∧ ∃ txn, Begun state.1 state.2 dbname txn)

/-- No `get` finds the empty key. -/
def answerable (store : ByteStore) : ByteStore := fun key => if key = [] then none else store key

/-- A sound transaction answers from its view. -/
theorem answers_of_begun {state : LMDB × Mdb} {dbname : Bytes} {txn : Txn}
    (begun : Begun state.1 state.2 dbname txn) (main : state.1.dbi = some mainDbi)
    (sound : txn.failed = false) :
    Answers LMDB.act MdbFaults.none state (answerable txn.view) := by
  intro key
  obtain ⟨next, after, taken, _⟩ :=
    LMDB.call_follows begun (.get key, MdbFaults.none) (by simp)
  have called : LMDB.act state (.call (.get key), MdbFaults.none) = _ := taken
  rw [called, main]
  by_cases empty : key = []
  · simp [Except.map, txnCall, Txn.get, answerable, shown, sound, empty]
  · cases held : txn.view key <;>
      simp [Except.map, txnCall, Txn.get, MdbFaults.none, answerable, shown, sound, empty, held]

/-- A commit that succeeds publishes the view of a sound transaction. -/
theorem Begun.commit {object : LMDB} {mdb next : Mdb} {dbname : Bytes} {txn : Txn}
    (begun : Begun object mdb dbname txn) {fault : Bool}
    (ran : mdb.txnCommit object.txn fault = .ok (.success, next)) :
    txn.failed = false ∧ fault = false ∧ ∃ handle, object.txn = some handle ∧
      next = mdb.published handle dbname txn.view := by
  obtain ⟨handle, points, held⟩ := begun.begun
  cases failed : txn.failed <;> cases fault <;>
    simp [Mdb.txnCommit, points, Mdb.txn_of_cells held, Mdb.env_of_cells begun.opened, failed,
      bind, Except.bind, pure, Except.pure] at ran
  exact ⟨rfl, rfl, handle, points, ran.symm⟩

/-- After a commit, `applyBatch` holds the next transaction or none at all. -/
theorem TxnLives.applyBatch {object : LMDB} {mdb : Mdb} {dbname : Bytes} {txn : Txn}
    (isOpen : object.isOpen = true) (main : object.dbi = some mainDbi)
    (begun : Begun object mdb dbname txn) {faults : MdbFaults} {committed : Mdb}
    (commit : mdb.txnCommit object.txn faults.commit = .ok (.success, committed)) {reply : Reply}
    {next : LMDB × Mdb} (ran : object.applyBatch faults mdb = .ok (reply, next)) :
    TxnLives dbname next := by
  have kept : next.1.isOpen = object.isOpen :=
    @LMDB.call_isOpen object next.1 mdb next.2 (.applyBatch, faults) reply ran
  obtain ⟨sound, commits, handle, points, published⟩ := begun.commit commit
  cases begins : faults.txnBegin with
  | false =>
      obtain ⟨later, after, applied, follows, dbi, _⟩ :=
        LMDB.applyBatch_follows begun faults ⟨sound, commits, begins⟩
      cases ran.symm.trans applied
      exact ⟨kept.trans isOpen, .inr ⟨dbi.trans main, _, follows⟩⟩
  | true =>
      refine ⟨kept.trans isOpen, .inl ?_⟩
      have env : (mdb.published handle dbname txn.view).env (some txn.env) =
          .ok (txn.env, .opened dbname) := Mdb.env_of_cells begun.opened
      simp only [LMDB.applyBatch, commit, published, begun.env, Mdb.txnBegin, env, begins, bind,
        Except.bind, pure, Except.pure, if_true, Option.none_or, Except.ok.injEq] at ran
      cases ran
      simp only [points, Mdb.published, Mdb.txn_released]

/-- The sessions of the LMDB adapter lead from the contents of the path back to them. -/
theorem lmdb_keeping (dbname : Bytes) :
    Keeping LMDB.act MdbFaults.none CommitsSucceed .fresh dbname
      (fun mdb => answerable (mdb.files dbname)) (TxnLives dbname) := by
  constructor
  · intro mdb faults opened main ran
    obtain ⟨object, after⟩ := opened
    have opens : LMDB.fresh.open dbname faults mdb = .ok (.flag true, object, after) := ran
    obtain ⟨env, begun, dbi⟩ := LMDB.open_fresh opens
    have closed : faults.dbiOpen = false := main
    simp only [closed, Bool.false_eq_true, if_false] at dbi
    have isOpen : object.isOpen = true := by
      rcases LMDB.open_isOpen opens with ⟨_, isOpen⟩ | ⟨impossible, _⟩
      · exact isOpen
      · cases impossible
    have answers := @answers_of_begun (object, after) dbname _ begun dbi rfl
    exact ⟨⟨isOpen, .inr ⟨dbi, _, begun⟩⟩, answers⟩
  · intro state request faults reply next lives meets ran
    obtain ⟨object, mdb⟩ := state
    have called : LMDB.call (object, mdb) (request, faults) = .ok (reply, next) := ran
    rcases lives.txn with dead | ⟨main, txn, begun⟩
    · cases (LMDB.call_dead dead (request, faults)).symm.trans called
    · by_cases applies : request = .applyBatch
      · subst applies
        obtain ⟨committed, commit⟩ := meets
        exact TxnLives.applyBatch lives.isOpen main begun commit called
      · obtain ⟨later, after, taken, kept, dbi, _⟩ :=
          LMDB.call_follows begun (request, faults) fun same => absurd same applies
        have isOpen : next.1.isOpen = object.isOpen :=
          @LMDB.call_isOpen object next.1 mdb next.2 (request, faults) reply called
        cases called.symm.trans taken
        exact ⟨isOpen.trans lives.isOpen, .inr ⟨dbi.trans main, _, kept⟩⟩
  · intro state faults lives meets
    obtain ⟨object, mdb⟩ := state
    obtain ⟨committed, commit⟩ := meets
    rcases lives.txn with dead | ⟨main, txn, begun⟩
    · simp only [Mdb.txnCommit, dead, bind, Except.bind] at commit
      cases commit
    · obtain ⟨sound, _, handle, points, published⟩ := begun.commit commit
      have open' : mdb.env object.env = .ok (txn.env, .opened dbname) := by
        rw [begun.env]
        exact Mdb.env_of_cells begun.opened
      have live : committed.env object.env = .ok (txn.env, .opened dbname) := by
        rw [published]
        exact open'
      have isOpen : object.isOpen = true := lives.isOpen
      refine ⟨({object with isOpen := false},
        {committed with envs := committed.envs.release txn.env}), ?_, ?_⟩
      · simp [LMDB.act, LMDB.close, isOpen, Mdb.dbiClose, open', commit, Mdb.envClose, live, bind,
          Except.bind, pure, Except.pure]
      · have same : committed.files dbname = txn.view := by
          rw [published]
          exact Function.update_self _ _ _
        simp only [same]
        exact answers_of_begun begun main sound

/-- Contents survive destruction and reopening: through every number of sessions on one name, each
`get` after an `open` answers as it did before the destructor of the earlier object. -/
theorem contents_survive_reopening (dbname : Bytes) :
    (∀ (disk : Disk) (sessions : List (Session Outcomes)),
      Survives LevelDB.act faultless (fun _ _ => True) .fresh dbname none disk sessions) ∧
    (∀ (disk : Disk) (sessions : List (Session Outcomes)),
      Survives RocksDB.act faultless (fun _ _ => True) .fresh dbname none disk sessions) ∧
    (∀ (server : RedisServer) (sessions : List (Session Bool)),
      Survives RedisDB.act false StaysUp .fresh dbname none server sessions) ∧
    ∀ (mdb : Mdb) (sessions : List (Session MdbFaults)),
      Survives LMDB.act MdbFaults.none CommitsSucceed .fresh dbname none mdb sessions := by
  rw [LevelDB.act_eq, RocksDB.act_eq]
  refine ⟨fun disk sessions => ?_, fun disk sessions => ?_, fun server sessions => ?_,
    fun mdb sessions => ?_⟩
  · exact (sharded_keeping LevelDB.engine dbname).survives sessions (by simp)
  · exact (sharded_keeping RocksDB.engine dbname).survives sessions (by simp)
  · exact (redis_keeping dbname).survives sessions (by simp)
  · exact (lmdb_keeping dbname).survives sessions (by simp)

/-- The first session writes a key and queues another one. -/
def queuingSession {Fault : Type} (quiet : Fault) : Session Fault :=
  ⟨quiet, [(.put [1] [7], quiet), (.putBatch [2] [8], quiet)], quiet⟩

/-- In each backend the second object finds what the first one left. -/
theorem contents_survive_reopening_twice :
    ReopensAlike LevelDB.act faultless .fresh [100] Disk.blank (queuingSession faultless) ∧
      ReopensAlike RocksDB.act faultless .fresh [100] Disk.blank (queuingSession faultless) ∧
      ReopensAlike RedisDB.act false .fresh [100] RedisServer.blank (queuingSession false) ∧
      ReopensAlike LMDB.act MdbFaults.none .fresh [100] Mdb.blank
        (queuingSession MdbFaults.none) := by
  obtain ⟨level, rocks, redis, lmdb⟩ := contents_survive_reopening [100]
  refine ⟨?_, ?_, ?_, ?_⟩
  · exact (level Disk.blank [queuingSession faultless, .quiet faultless]).reopensAlike trivial rfl
      (Along.of_forall (fun _ _ => trivial) _ _) rfl trivial rfl trivial rfl
  · exact (rocks Disk.blank [queuingSession faultless, .quiet faultless]).reopensAlike trivial rfl
      (Along.of_forall (fun _ _ => trivial) _ _) rfl trivial rfl trivial rfl
  · exact (redis RedisServer.blank [queuingSession false, .quiet false]).reopensAlike rfl rfl
      ⟨rfl, rfl, trivial⟩ rfl rfl rfl rfl rfl
  · exact (lmdb Mdb.blank [queuingSession MdbFaults.none, .quiet MdbFaults.none]).reopensAlike rfl
      rfl ⟨trivial, trivial, trivial⟩ rfl ⟨_, rfl⟩ rfl rfl rfl

end DbBench
