import DbBench.Proof.Interchange

namespace DbBench

open KeyValue Transition

/-- The key that a call names. -/
def Call.named : Call → Option Bytes
  | .get key => some key
  | .put key _ => some key
  | .putBatch key _ => some key
  | .del key => some key
  | .delBatch key => some key
  | .applyBatch => none

/-- The key is no longer than liblmdb allows, and it may be empty. -/
def Call.Short (request : Call) : Prop :=
  ∀ key, request.named = some key → key.length ≤ maxKeySize

/-- Four fresh objects were opened on empty stores. -/
structure EmptyOpened (level rocks : ShardedDB × Disk) (redis : RedisDB × RedisServer)
    (lmdb : LMDB × Mdb) : Prop where
  level : ∃ dbname outcomes disk, LevelDB.open .fresh dbname outcomes disk = (.flag true, level) ∧
    ∀ idx < shardCount, disk.files (shardPath dbname idx) = Store.empty
  rocks : ∃ dbname outcomes disk, RocksDB.open .fresh dbname outcomes disk = (.flag true, rocks) ∧
    ∀ idx < shardCount, disk.files (shardPath dbname idx) = Store.empty
  redis : ∃ dbname server, RedisDB.open .fresh dbname server = (.flag true, redis) ∧
    server.data = Store.empty
  lmdb : ∃ dbname mdb, LMDB.open .fresh dbname MdbFaults.none mdb = .ok (.flag true, lmdb) ∧
    mdb.files dbname = Store.empty

/-- These are the replies of the four adapters to one sequence of calls without failures. -/
structure Replied (level rocks : ShardedDB × Disk) (redis : RedisDB × RedisServer)
    (lmdb : LMDB × Mdb) (calls : List Call)
    (levelReplies rocksReplies redisReplies lmdbReplies : List Reply) : Prop where
  level : (run (withoutFaults LevelDB.call) level calls).map Prod.fst = .ok levelReplies
  rocks : (run (withoutFaults RocksDB.call) rocks calls).map Prod.fst = .ok rocksReplies
  redis : (run withoutThrows redis calls).map Prod.fst = .ok redisReplies
  lmdb : (run withoutMdbFaults lmdb calls).map Prod.fst = .ok lmdbReplies

/-- Every call that writes returns the same Boolean from all four adapters. -/
def UniformSuccess : Prop :=
  ∀ (level rocks : ShardedDB × Disk) (redis : RedisDB × RedisServer) (lmdb : LMDB × Mdb),
    EmptyOpened level rocks redis lmdb →
    ∀ calls : List Call, (∀ request ∈ calls, request.Short ∧ ∀ key, request ≠ .get key) →
      ∃ replies, Replied level rocks redis lmdb calls replies replies replies replies

/-- The map that has performed every write of the run at once, batched or not. -/
def performed (calls : List Call) : ByteStore := (follow directStep Store.empty calls).2

/-- The four adapters return the same Boolean. -/
def Unanimous (byLevel byRocks byRedis byLmdb : Option Reply) : Prop :=
  byLevel = byRocks ∧ byRocks = byRedis ∧ byRedis = byLmdb

/-- All adapters but Redis refuse the empty key, and all accept any other key. -/
structure PutReports (key : Bytes) (byLevel byRocks byRedis byLmdb : Option Reply) : Prop where
  level : byLevel = some (.flag (!key.isEmpty))
  rocks : byRocks = some (.flag (!key.isEmpty))
  redis : byRedis = some (.flag true)
  lmdb : byLmdb = some (.flag (!key.isEmpty))
  unanimous : Unanimous byLevel byRocks byRedis byLmdb ↔ key ≠ []

/-- LevelDB and RocksDB accept the deletion of every key but the empty one, present or not. Redis
and LMDB report whether the key was present. -/
structure DelReports (present : Bool) (key : Bytes)
    (byLevel byRocks byRedis byLmdb : Option Reply) : Prop where
  level : byLevel = some (.flag (!key.isEmpty))
  rocks : byRocks = some (.flag (!key.isEmpty))
  redis : byRedis = some (.flag present)
  lmdb : key ≠ [] → byLmdb = some (.flag present)
  unanimous : key ≠ [] → (Unanimous byLevel byRocks byRedis byLmdb ↔ present = true)

/-- What the four adapters return from one call on a run that has performed these writes. -/
def Reports (store : ByteStore) :
    Call → Option Reply → Option Reply → Option Reply → Option Reply → Prop
  | .get _, _, _, _, _ => True
  | .put key _, level, rocks, redis, lmdb => PutReports key level rocks redis lmdb
  | .putBatch key _, level, rocks, redis, lmdb => PutReports key level rocks redis lmdb
  | .del key, level, rocks, redis, lmdb =>
      DelReports (store key).isSome key level rocks redis lmdb
  | .delBatch key, level, rocks, redis, lmdb =>
      DelReports (store key).isSome key level rocks redis lmdb
  | .applyBatch, level, rocks, redis, lmdb =>
      level = some (.flag true) ∧ rocks = some (.flag true) ∧ redis = some (.flag true) ∧
        lmdb = some (.flag true)

/-- This reference is the direct store of liblmdb, which has no empty key. The adapter takes its
refusal to delete the empty key for success. -/
def sizedStep : Reference ByteStore Call Reply
  | store, .get key => if key = [] then (.lookup false none, store) else directStep store (.get key)
  | store, .put key value =>
      if key = [] then (.flag false, store) else directStep store (.put key value)
  | store, .putBatch key value =>
      if key = [] then (.flag false, store) else directStep store (.putBatch key value)
  | store, .del key => if key = [] then (.flag true, store) else directStep store (.del key)
  | store, .delBatch key => if key = [] then (.flag true, store) else directStep store (.delBatch key)
  | store, .applyBatch => directStep store .applyBatch

/-- A call that does not name the empty key is answered by the direct store. -/
theorem sizedStep_eq (store : ByteStore) {request : Call} (nonempty : request.named ≠ some []) :
    sizedStep store request = directStep store request := by
  cases request with
  | applyBatch => rfl
  | _ => exact if_neg fun empty => nonempty (congrArg some empty)

/-- Without failures a sound transaction answers every short key as the sized store does. -/
theorem txnCall_sized (env : Nat) (store : ByteStore) (request : Call) (short : request.Short) :
    txnCall (some mainDbi) ⟨env, store, false⟩ (request, MdbFaults.none) =
      ((sizedStep store request).1, ⟨env, (sizedStep store request).2, false⟩) := by
  by_cases empty : request.named = some []
  · cases request with
    | applyBatch => cases empty
    | _ =>
        cases Option.some.inj empty
        simp [txnCall, Txn.get, Txn.put, Txn.del, sizedStep]
  · rw [sizedStep_eq store empty]
    apply txnCall_direct env store request
    have sizes : ∀ key, request.named = some key → FitsKey key := by
      intro key names
      refine ⟨List.length_pos_iff.mpr ?_, short key names⟩
      rintro rfl
      exact empty names
    cases request with
    | applyBatch => trivial
    | _ => exact sizes _ rfl

theorem lmdb_sized (state : LMDB × Mdb) (store : ByteStore) (request : Call)
    (short : request.Short) (shows : LmdbShows state store) :
    ∃ next, withoutMdbFaults state request = .ok ((sizedStep store request).1, next) ∧
      LmdbShows next (sizedStep store request).2 := by
  obtain ⟨object, mdb⟩ := state
  obtain ⟨main, env, path, begun⟩ := shows
  simp only at main begun
  obtain ⟨next, after, step, kept, dbi, _⟩ :=
    LMDB.call_follows begun (request, MdbFaults.none) fun _ => ⟨rfl, rfl, rfl⟩
  rw [main, txnCall_sized env store request short] at step kept
  exact ⟨(next, after), step, dbi.trans main, env, path, kept⟩

/-- The direct store and the sized store agree on every key but the empty one. -/
theorem sizedStep_agrees {key : Bytes} (nonempty : key ≠ []) (sized direct : ByteStore)
    (request : Call) (agrees : sized key = direct key) :
    (sizedStep sized request).2 key = (directStep direct request).2 key := by
  have writes : ∀ op : ByteWrite, sized.write op key = direct.write op key := by
    intro op
    by_cases same : op.key = key
    · subst same
      rw [Store.write_self, Store.write_self]
    · rw [Store.write_of_ne _ _ same, Store.write_of_ne _ _ same, agrees]
  by_cases empty : request.named = some []
  · have keeps : ∀ op : ByteWrite, op.key = [] → direct.write op key = sized key := by
      intro op named
      rw [Store.write_of_ne _ _ (by rw [named]; exact nonempty.symm), agrees]
    cases request with
    | get other =>
        cases Option.some.inj empty
        exact agrees
    | put other value =>
        cases Option.some.inj empty
        exact (keeps (.put [] value) rfl).symm
    | putBatch other value =>
        cases Option.some.inj empty
        exact (keeps (.put [] value) rfl).symm
    | del other =>
        cases Option.some.inj empty
        exact (keeps (.delete []) rfl).symm
    | delBatch other =>
        cases Option.some.inj empty
        exact (keeps (.delete []) rfl).symm
    | applyBatch => cases empty
  · rw [sizedStep_eq sized empty]
    cases request with
    | get other => exact agrees
    | put other value => exact writes (.put other value)
    | putBatch other value => exact writes (.put other value)
    | del other => exact writes (.delete other)
    | delBatch other => exact writes (.delete other)
    | applyBatch => exact agrees

/-- After the same calls both stores answer for the presence of a key alike. -/
theorem sized_performed {key : Bytes} (nonempty : key ≠ []) (calls : List Call) :
    (follow sizedStep Store.empty calls).2 key = performed calls key :=
  follow_related sizedStep directStep (fun sized direct => sized key = direct key) (fun _ => True)
    (fun sized direct request _ => sizedStep_agrees nonempty sized direct request) calls
    (fun _ _ => trivial) rfl

/-- On empty stores a sharded adapter gives the replies of the flat reference. -/
theorem sharded_replies (engine : Engine) {dbname : Bytes} {outcomes : Outcomes} {disk : Disk}
    {state : ShardedDB × Disk}
    (opened : ShardedDB.open engine .fresh dbname outcomes disk = (.flag true, state))
    (empty : ∀ idx < shardCount, disk.files (shardPath dbname idx) = Store.empty)
    (calls : List Call) :
    (run (withoutFaults (ShardedDB.call engine)) state calls).map Prod.fst =
      .ok (follow flatStep ⟨Store.empty, []⟩ calls).1 := by
  have shows := open_shows engine opened
  have blank : diskContents engine disk dbname = Store.empty := by
    funext key
    rw [diskContents, empty _ (engine.inside key)]
  rw [blank] at shows
  obtain ⟨final, ran, _⟩ := run_shows engine shows calls
  rw [ran]
  rfl

/-- On an empty server the Redis adapter gives the replies of the direct store. -/
theorem redis_replies {dbname : Bytes} {server : RedisServer} {state : RedisDB × RedisServer}
    (opened : RedisDB.open .fresh dbname server = (.flag true, state))
    (empty : server.data = Store.empty) (calls : List Call) :
    (run withoutThrows state calls).map Prod.fst = .ok (follow directStep Store.empty calls).1 := by
  have same : (RedisDB.fresh.open dbname server).2 = state := congrArg Prod.snd opened
  have shows : RedisShows state Store.empty := by
    rw [← same]
    exact ⟨RedisDB.open_serving dbname server, empty⟩
  obtain ⟨final, ran, _⟩ := run_refines withoutThrows directStep RedisShows (fun _ => True)
    (fun state store request _ shows => redis_step state store request shows) calls
    (fun _ _ => trivial) shows
  rw [ran]
  rfl

/-- On an empty environment the LMDB adapter gives the replies of the sized store. -/
theorem lmdb_replies {dbname : Bytes} {mdb : Mdb} {state : LMDB × Mdb}
    (opened : LMDB.open .fresh dbname MdbFaults.none mdb = .ok (.flag true, state))
    (empty : mdb.files dbname = Store.empty) (calls : List Call)
    (short : ∀ request ∈ calls, request.Short) :
    (run withoutMdbFaults state calls).map Prod.fst =
      .ok (follow sizedStep Store.empty calls).1 := by
  obtain ⟨env, begun, main⟩ := LMDB.open_fresh opened
  rw [empty] at begun
  have shows : LmdbShows state Store.empty := ⟨main, env, dbname, begun⟩
  obtain ⟨final, ran, _⟩ := run_refines withoutMdbFaults sizedStep LmdbShows Call.Short
    (fun state store request short shows => lmdb_sized state store request short shows) calls
    short shows
  rw [ran]
  rfl

theorem put_reports (key : Bytes) :
    PutReports key (some (.flag (!key.isEmpty))) (some (.flag (!key.isEmpty))) (some (.flag true))
      (some (.flag (!key.isEmpty))) := by
  constructor
  case unanimous => cases key <;> simp [Unanimous]
  all_goals rfl

theorem del_reports (present : Bool) (key : Bytes) {byLmdb : Option Reply}
    (reports : key ≠ [] → byLmdb = some (.flag present)) :
    DelReports present key (some (.flag (!key.isEmpty))) (some (.flag (!key.isEmpty)))
      (some (.flag present)) byLmdb := by
  constructor
  case lmdb => exact reports
  case unanimous =>
    intro nonempty
    rw [reports nonempty]
    cases key with
    | nil => exact absurd rfl nonempty
    | cons byte rest => cases present <;> simp [Unanimous]
  all_goals rfl

/-- The flat reference refuses the empty key. -/
theorem flatStep_write (flat : FlatStore) {request : Call} {key : Bytes}
    (names : request.named = some key) (writes : request ≠ .get key) :
    (flatStep flat request).1 = .flag (!key.isEmpty) := by
  cases request with
  | get other => exact absurd (congrArg Call.get (Option.some.inj names)) writes
  | applyBatch => cases names
  | _ =>
      cases Option.some.inj names
      cases key <;> rfl

/-- The sized store reports the presence of a key that is not empty. -/
theorem sizedStep_delete {sized store : ByteStore} {key : Bytes} {request : Call}
    (agrees : ∀ key ≠ [], sized key = store key)
    (deletes : request = .del key ∨ request = .delBatch key) (nonempty : key ≠ []) :
    some (sizedStep sized request).1 = some (.flag (store key).isSome) := by
  rw [← agrees key nonempty]
  rcases deletes with rfl | rfl <;> simp [sizedStep, directStep, nonempty]

/-- The references report what the adapters return. -/
theorem references_report (flat : FlatStore) (sized store : ByteStore) (request : Call)
    (agrees : ∀ key ≠ [], sized key = store key) :
    Reports store request (some (flatStep flat request).1) (some (flatStep flat request).1)
      (some (directStep store request).1) (some (sizedStep sized request).1) := by
  cases request with
  | get key => trivial
  | applyBatch => exact ⟨rfl, rfl, rfl, rfl⟩
  | put key value =>
      have accepts : (sizedStep sized (.put key value)).1 = .flag (!key.isEmpty) := by
        cases key <;> rfl
      rw [flatStep_write flat rfl (by simp), accepts]
      exact put_reports key
  | putBatch key value =>
      have accepts : (sizedStep sized (.putBatch key value)).1 = .flag (!key.isEmpty) := by
        cases key <;> rfl
      rw [flatStep_write flat rfl (by simp), accepts]
      exact put_reports key
  | del key =>
      rw [flatStep_write flat rfl (by simp)]
      exact del_reports _ key (sizedStep_delete agrees (.inl rfl))
  | delBatch key =>
      rw [flatStep_write flat rfl (by simp)]
      exact del_reports _ key (sizedStep_delete agrees (.inr rfl))

/-- What success means on each adapter, in every call of every run on empty stores. -/
theorem success_reports {level rocks : ShardedDB × Disk} {redis : RedisDB × RedisServer}
    {lmdb : LMDB × Mdb} (opened : EmptyOpened level rocks redis lmdb) (calls : List Call)
    (short : ∀ request ∈ calls, request.Short) :
    ∃ levelReplies rocksReplies redisReplies lmdbReplies,
      Replied level rocks redis lmdb calls levelReplies rocksReplies redisReplies lmdbReplies ∧
      ∀ (position : Nat) (request : Call), calls[position]? = some request →
        Reports (performed (calls.take position)) request levelReplies[position]?
          rocksReplies[position]? redisReplies[position]? lmdbReplies[position]? := by
  obtain ⟨⟨_, _, _, levelOpened, levelEmpty⟩, ⟨_, _, _, rocksOpened, rocksEmpty⟩,
    ⟨_, _, redisOpened, redisEmpty⟩, _, _, lmdbOpened, lmdbEmpty⟩ := opened
  have levelReplied := sharded_replies LevelDB.engine levelOpened levelEmpty calls
  have rocksReplied := sharded_replies RocksDB.engine rocksOpened rocksEmpty calls
  have redisReplied := redis_replies redisOpened redisEmpty calls
  have lmdbReplied := lmdb_replies lmdbOpened lmdbEmpty calls short
  rw [← LevelDB.call_eq] at levelReplied
  rw [← RocksDB.call_eq] at rocksReplied
  refine ⟨_, _, _, _, ⟨levelReplied, rocksReplied, redisReplied, lmdbReplied⟩, ?_⟩
  intro position request here
  simp only [follow_getElem, here, Option.map_some]
  apply references_report
  intro key nonempty
  exact sized_performed nonempty (calls.take position)

/-- Four objects on empty stores. -/
def blankLevel : ShardedDB × Disk := (LevelDB.open .fresh [100] faultless Disk.blank).2

def blankRocks : ShardedDB × Disk := (RocksDB.open .fresh [101] faultless Disk.blank).2

def blankRedis : RedisDB × RedisServer := (RedisDB.open .fresh [102] RedisServer.blank).2

def blankLmdb : LMDB × Mdb :=
  (⟨[103], some 0, some mainDbi, some 0, true⟩,
    ⟨fun _ => Store.empty, (Arena.empty.create .created).modify 0 fun _ => .opened [103],
      Arena.empty.create ⟨0, Store.empty, false⟩⟩)

theorem blank_emptyOpened : EmptyOpened blankLevel blankRocks blankRedis blankLmdb where
  level := ⟨[100], faultless, Disk.blank, rfl, fun _ _ => rfl⟩
  rocks := ⟨[101], faultless, Disk.blank, rfl, fun _ _ => rfl⟩
  redis := ⟨[102], RedisServer.blank, rfl, rfl⟩
  lmdb := ⟨[103], Mdb.blank, rfl, rfl⟩

/-- This run deletes one key twice and writes the empty key. -/
def deletingRun : List Call :=
  [.put [1] [7], .del [1], .del [1], .putBatch [] [7], .delBatch [2], .applyBatch]

theorem success_reports_deletingRun :
    ∃ levelReplies rocksReplies redisReplies lmdbReplies,
      Replied blankLevel blankRocks blankRedis blankLmdb deletingRun levelReplies rocksReplies
        redisReplies lmdbReplies ∧
      ∀ (position : Nat) (request : Call), deletingRun[position]? = some request →
        Reports (performed (deletingRun.take position)) request levelReplies[position]?
          rocksReplies[position]? redisReplies[position]? lmdbReplies[position]? :=
  success_reports blank_emptyOpened deletingRun (by
    simp [deletingRun, Call.Short, Call.named, maxKeySize])

/-- The deletion of an absent key succeeds on LevelDB and fails on Redis. -/
theorem success_not_uniform : ¬ UniformSuccess := by
  intro uniform
  obtain ⟨replies, replied⟩ := uniform blankLevel blankRocks blankRedis blankLmdb
    blank_emptyOpened [.del [1]] (by simp [Call.Short, Call.named, maxKeySize])
  have level : Except.ok [Reply.flag true] = Except.ok replies :=
    replied.level
  have redis : Except.ok [Reply.flag false] = Except.ok replies :=
    replied.redis
  cases level
  cases redis

end DbBench
