import DbBench.Construction.RedisDB
import DbBench.Proof.FlatMap
import DbBench.Proof.TxnSpec
import DbBench.Spec.DirectStore

namespace DbBench

open KeyValue Transition

/-- The adapter points to a live client and no operation holds its mutex. -/
structure Serving (object : RedisDB) (server : RedisServer) : Prop where
  free : object.mtx = false
  client : server.client object.redis = .ok ()

/-- `open` connects a new client. -/
theorem RedisDB.open_serving (dbname : Bytes) (server : RedisServer) :
    Serving (RedisDB.fresh.open dbname server).2.1 (RedisDB.fresh.open dbname server).2.2 :=
  ⟨rfl, by simp [RedisDB.open, RedisDB.fresh, RedisServer.client, Arena.Live]⟩

/-- Without exceptions a Redis operation follows the direct store and leaves the object as it was. -/
theorem RedisDB.call_follows {object : RedisDB} {server : RedisServer}
    (serving : Serving object server) (request : Call) :
    RedisDB.call (object, server) (request, false) = .ok ((directStep server.data request).1,
      object, {server with data := (directStep server.data request).2}) := by
  obtain ⟨isOpen, redis, mtx⟩ := object
  obtain ⟨free, client⟩ := serving
  simp only at free client
  subst free
  cases request with
  | get key =>
      cases held : server.data key <;>
        simp [RedisDB.call, RedisDB.get, RedisDB.lock, RedisDB.unlock, client, directStep, held,
          bind, Except.bind, pure, Except.pure]
  | put key value =>
      simp [RedisDB.call, RedisDB.put, RedisDB.lock, RedisDB.unlock, client, directStep, bind,
        Except.bind, pure, Except.pure]
  | putBatch key value =>
      simp [RedisDB.call, RedisDB.putBatch, RedisDB.put, RedisDB.lock, RedisDB.unlock, client,
        directStep, bind, Except.bind, pure, Except.pure]
  | del key =>
      simp [RedisDB.call, RedisDB.del, RedisDB.lock, RedisDB.unlock, client, directStep, bind,
        Except.bind, pure, Except.pure]
  | delBatch key =>
      simp [RedisDB.call, RedisDB.delBatch, RedisDB.del, RedisDB.lock, RedisDB.unlock, client,
        directStep, bind, Except.bind, pure, Except.pure]
  | applyBatch => rfl

/-- The object serves the direct store. -/
def RedisShows (state : RedisDB × RedisServer) (store : ByteStore) : Prop :=
  Serving state.1 state.2 ∧ state.2.data = store

/-- This machine runs a Redis adapter whose library calls do not throw. -/
def withoutThrows : Machine (RedisDB × RedisServer) Call Reply Misuse := fun state request =>
  RedisDB.call state (request, false)

theorem redis_step (state : RedisDB × RedisServer) (store : ByteStore) (request : Call)
    (shows : RedisShows state store) :
    ∃ next, withoutThrows state request = .ok ((directStep store request).1, next) ∧
      RedisShows next (directStep store request).2 := by
  obtain ⟨object, server⟩ := state
  obtain ⟨serving, same⟩ := shows
  subst same
  exact ⟨_, RedisDB.call_follows serving request, ⟨serving.free, serving.client⟩, rfl⟩

/-- Without failures a sound transaction answers fitting keys as the direct store does. -/
theorem txnCall_direct (env : Nat) (store : ByteStore) (request : Call) (fits : request.Fits) :
    txnCall (some mainDbi) ⟨env, store, false⟩ (request, MdbFaults.none) =
      ((directStep store request).1, ⟨env, (directStep store request).2, false⟩) := by
  have sizes : ∀ {key : Bytes}, FitsKey key → key ≠ [] ∧ ¬ maxKeySize < key.length :=
    fun fits => ⟨List.ne_nil_of_length_pos fits.1, Nat.not_lt.mpr fits.2⟩
  cases request with
  | get key =>
      obtain ⟨nonempty, _⟩ := sizes fits
      cases held : store key <;>
        simp [txnCall, Txn.get, MdbFaults.none, directStep, nonempty, held]
  | put key value =>
      obtain ⟨nonempty, short⟩ := sizes fits
      simp [txnCall, Txn.put, MdbFaults.none, directStep, nonempty, short]
  | putBatch key value =>
      obtain ⟨nonempty, short⟩ := sizes fits
      simp [txnCall, Txn.put, MdbFaults.none, directStep, nonempty, short]
  | del key =>
      obtain ⟨nonempty, _⟩ := sizes fits
      cases held : store key with
      | none =>
          simp [txnCall, Txn.del, MdbFaults.none, directStep, nonempty, held,
            store.write_delete_absent held]
      | some value => simp [txnCall, Txn.del, MdbFaults.none, directStep, nonempty, held]
  | delBatch key =>
      obtain ⟨nonempty, _⟩ := sizes fits
      cases held : store key with
      | none =>
          simp [txnCall, Txn.del, MdbFaults.none, directStep, nonempty, held,
            store.write_delete_absent held]
      | some value => simp [txnCall, Txn.del, MdbFaults.none, directStep, nonempty, held]
  | applyBatch => rfl

/-- This machine runs an LMDB adapter whose library calls do not fail. -/
def withoutMdbFaults : Machine (LMDB × Mdb) Call Reply Misuse := fun state request =>
  LMDB.call state (request, MdbFaults.none)

theorem lmdb_step (state : LMDB × Mdb) (store : ByteStore) (request : Call) (fits : request.Fits)
    (shows : LmdbShows state store) :
    ∃ next, withoutMdbFaults state request = .ok ((directStep store request).1, next) ∧
      LmdbShows next (directStep store request).2 := by
  obtain ⟨object, mdb⟩ := state
  obtain ⟨main, env, path, begun⟩ := shows
  simp only at main begun
  obtain ⟨next, after, step, kept, dbi, _⟩ :=
    LMDB.call_follows begun (request, MdbFaults.none) fun _ => ⟨rfl, rfl, rfl⟩
  rw [main, txnCall_direct env store request fits] at step kept
  exact ⟨(next, after), step, dbi.trans main, env, path, kept⟩

/-- On empty opened stores the four adapters answer every `get` alike, as long as the caller
keeps batch boundaries and names keys that fit. -/
theorem adapters_interchangeable (levelName rocksName redisName lmdbName : Bytes)
    (levelOutcomes rocksOutcomes : Outcomes) (levelDisk levelNext rocksDisk rocksNext : Disk)
    (level rocks : ShardedDB) (server : RedisServer) (mdb mdbNext : Mdb) (lmdb : LMDB)
    (levelOpened : LevelDB.open .fresh levelName levelOutcomes levelDisk =
      (.flag true, level, levelNext))
    (rocksOpened : RocksDB.open .fresh rocksName rocksOutcomes rocksDisk =
      (.flag true, rocks, rocksNext))
    (lmdbOpened : LMDB.open .fresh lmdbName MdbFaults.none mdb = .ok (.flag true, lmdb, mdbNext))
    (levelEmpty : ∀ idx < shardCount, levelDisk.files (shardPath levelName idx) = Store.empty)
    (rocksEmpty : ∀ idx < shardCount, rocksDisk.files (shardPath rocksName idx) = Store.empty)
    (redisEmpty : server.data = Store.empty) (lmdbEmpty : mdb.files lmdbName = Store.empty)
    (calls : List Call) (fits : ∀ request ∈ calls, request.Fits)
    (keeps : KeepsBoundaries false calls) :
    ∃ (levelReplies rocksReplies redisReplies lmdbReplies : List Reply)
      (levelFinal rocksFinal : ShardedDB × Disk) (redisFinal : RedisDB × RedisServer)
      (lmdbFinal : LMDB × Mdb),
      run (withoutFaults LevelDB.call) (level, levelNext) calls = .ok (levelReplies, levelFinal) ∧
      run (withoutFaults RocksDB.call) (rocks, rocksNext) calls = .ok (rocksReplies, rocksFinal) ∧
      run withoutThrows (RedisDB.open .fresh redisName server).2 calls =
        .ok (redisReplies, redisFinal) ∧
      run withoutMdbFaults (lmdb, mdbNext) calls = .ok (lmdbReplies, lmdbFinal) ∧
      levelReplies.map Reply.answer = rocksReplies.map Reply.answer ∧
      levelReplies.map Reply.answer = redisReplies.map Reply.answer ∧
      levelReplies.map Reply.answer = lmdbReplies.map Reply.answer := by
  have aligned : Aligned false ⟨Store.empty, []⟩ Store.empty := ⟨fun _ => rfl, rfl⟩
  have answers := boundary_answers calls fits keeps aligned
  have levelShows := open_shows LevelDB.engine levelOpened
  have rocksShows := open_shows RocksDB.engine rocksOpened
  have levelBlank : diskContents LevelDB.engine levelDisk levelName = Store.empty := by
    funext key
    rw [diskContents, levelEmpty _ (LevelDB.engine.inside key)]
  have rocksBlank : diskContents RocksDB.engine rocksDisk rocksName = Store.empty := by
    funext key
    rw [diskContents, rocksEmpty _ (RocksDB.engine.inside key)]
  rw [levelBlank] at levelShows
  rw [rocksBlank] at rocksShows
  obtain ⟨levelFinal, levelRan, _⟩ := run_shows LevelDB.engine levelShows calls
  obtain ⟨rocksFinal, rocksRan, _⟩ := run_shows RocksDB.engine rocksShows calls
  have redisShows : RedisShows (RedisDB.open .fresh redisName server).2 Store.empty :=
    ⟨RedisDB.open_serving redisName server, redisEmpty⟩
  obtain ⟨redisFinal, redisRan, _⟩ := run_refines withoutThrows directStep RedisShows
    (fun _ => True) (fun state store request _ shows => redis_step state store request shows)
    calls (fun _ _ => trivial) redisShows
  obtain ⟨env, begun, dbi⟩ := LMDB.open_fresh lmdbOpened
  rw [lmdbEmpty] at begun
  have lmdbShows : LmdbShows (lmdb, mdbNext) Store.empty := ⟨dbi, env, lmdbName, begun⟩
  obtain ⟨lmdbFinal, lmdbRan, _⟩ := run_refines withoutMdbFaults directStep LmdbShows Call.Fits
    (fun state store request fits shows => lmdb_step state store request fits shows)
    calls fits lmdbShows
  rw [LevelDB.call_eq, RocksDB.call_eq]
  exact ⟨_, _, _, _, levelFinal, rocksFinal, redisFinal, lmdbFinal, levelRan, rocksRan, redisRan,
    lmdbRan, rfl, answers, answers⟩

/-- This short run overwrites and deletes keys in one batch. -/
def batchRun : List Call :=
  [.put [1] [7], .putBatch [1] [8], .putBatch [2] [9], .delBatch [2], .applyBatch, .get [1],
    .get [2]]

/-- The four adapters answer a short run on empty stores alike. -/
theorem adapters_interchangeable_blank :
    ∃ (levelReplies rocksReplies redisReplies lmdbReplies : List Reply)
      (levelFinal rocksFinal : ShardedDB × Disk) (redisFinal : RedisDB × RedisServer)
      (lmdbFinal : LMDB × Mdb),
      run (withoutFaults LevelDB.call) (LevelDB.open .fresh [100] faultless Disk.blank).2
        batchRun = .ok (levelReplies, levelFinal) ∧
      run (withoutFaults RocksDB.call) (RocksDB.open .fresh [101] faultless Disk.blank).2
        batchRun = .ok (rocksReplies, rocksFinal) ∧
      run withoutThrows (RedisDB.open .fresh [102] RedisServer.blank).2 batchRun =
        .ok (redisReplies, redisFinal) ∧
      run withoutMdbFaults (⟨[103], some 0, some mainDbi, some 0, true⟩,
        ⟨fun _ => Store.empty, (Arena.empty.create .created).modify 0 fun _ => .opened [103],
          Arena.empty.create ⟨0, Store.empty, false⟩⟩) batchRun = .ok (lmdbReplies, lmdbFinal) ∧
      levelReplies.map Reply.answer = rocksReplies.map Reply.answer ∧
      levelReplies.map Reply.answer = redisReplies.map Reply.answer ∧
      levelReplies.map Reply.answer = lmdbReplies.map Reply.answer :=
  adapters_interchangeable [100] [101] [102] [103] faultless faultless Disk.blank _ Disk.blank _ _ _
    RedisServer.blank Mdb.blank _ _ rfl rfl rfl (fun _ _ => rfl) (fun _ _ => rfl) rfl rfl batchRun
    (by simp [batchRun, Call.Fits, FitsKey, maxKeySize]) (by simp [batchRun, KeepsBoundaries])

end DbBench
