import DbBench.Proof.Cleared
import DbBench.Proof.Interchange
import DbBench.Spec.Isolation

namespace DbBench

open KeyValue Transition

/-- An operation keeps the shards attached and changes nothing outside of the directory. -/
theorem operate_frame {engine : Engine} {shell : Shell Disk} {inside : Bytes → Bytes → Prop}
    (directories : Directories inside) (removes : shell.RemovesInside inside Disk.files Disk.arena)
    {object next : ShardedDB} {disk after : Disk} (attached : Attached object disk)
    (named : Named object.dbname) {input : Operation × Outcomes} {reply : Reply}
    (ran : ShardedDB.operate engine shell (object, disk) input = .ok (reply, next, after)) :
    Attached next after ∧ next.dbname = object.dbname ∧ after.arena = disk.arena ∧
      ∀ path, ¬ inside path object.dbname → after.files path = disk.files path := by
  rcases input with ⟨operation, outcomes⟩
  cases operation with
  | call request =>
      have called : ShardedDB.call engine (object, disk) (request, outcomes) =
          .ok (reply, next, after) := ran
      obtain ⟨changed, final, step, kept, name, _⟩ :=
        call_follows engine attached (request, outcomes)
      have confined := (call_changes called).1
      have same : (reply, next, after) = (_, changed, final) :=
        Except.ok.inj (called.symm.trans step)
      cases same
      refine ⟨kept, name, confined.arena, fun path outside => ?_⟩
      apply confined.files
      intro entry member leads
      obtain ⟨position, found⟩ := List.getElem?_of_mem member
      have own := (attached.path position entry found).symm.trans leads
      apply outside
      rw [← Except.ok.inj own]
      exact directories.shard object.dbname position
  | clear =>
      obtain ⟨arena, files⟩ := removes.clear named disk
      cases ran
      exact ⟨attached.congr arena, rfl, arena, files⟩

/-- Two attached objects stand in separate directories. -/
structure ShardsApart (inside : Bytes → Bytes → Prop) (first second : ShardedDB) (disk : Disk) :
    Prop where
  attached : Attached first disk ∧ Attached second disk
  separate : Separate inside first.dbname second.dbname

/-- The operations of one sharded object spare an object in a separate directory. -/
theorem sharded_sparing (engine : Engine) {shell : Shell Disk} {inside : Bytes → Bytes → Prop}
    (directories : Directories inside)
    (removes : shell.RemovesInside inside Disk.files Disk.arena) :
    Sparing (ShardedDB.operate engine shell) (ShardsApart inside) where
  swap _ _ _ apart := ⟨apart.attached.symm, apart.separate.symm⟩
  keeps := by
    rintro acting other disk input reply next after ⟨⟨mine, others⟩, separate⟩ ran
    obtain ⟨kept, name, arena, _⟩ :=
      operate_frame directories removes mine separate.named.1 ran
    exact ⟨⟨kept, others.congr arena⟩, name.symm ▸ separate⟩
  spares := by
    rintro acting other disk ⟨⟨mine, others⟩, separate⟩ input reply next after ran calls
    obtain ⟨_, _, arena, files⟩ := operate_frame directories removes mine separate.named.1 ran
    have bisimulates : Bisimulates (dataOf (ShardedDB.operate engine shell))
        (fun view input => .ok (shardCall engine view input)) Viewed :=
      fun _ _ input viewed => call_matches engine viewed input
    have viewed : Viewed (other, after) (shardView other disk) := by
      refine ⟨others.congr arena, rfl, fun idx _ => ?_⟩
      apply files
      exact separate.outside directories (directories.shard other.dbname idx)
    exact repliesTo_eq bisimulates viewed others.viewed calls

/-- A fresh sharded object was opened under this name. -/
def ShardedOpens (opening : ShardedDB → Bytes → Outcomes → Disk → Reply × ShardedDB × Disk)
    (dbname : Bytes) (disk : Disk) (opened : ShardedDB × Disk) : Prop :=
  ∃ outcomes, opening .fresh dbname outcomes disk = (.flag true, opened)

/-- `open` keeps the shards of another object attached. -/
theorem Attached.opening (engine : Engine) {object second : ShardedDB} {disk next : Disk}
    (attached : Attached object disk) {dbname : Bytes} {outcomes : Outcomes}
    (opened : ShardedDB.open engine .fresh dbname outcomes disk = (.flag true, second, next)) :
    Attached object next := by
  obtain ⟨ok, added, final, ran, facts, _⟩ :=
    openShards_spec engine dbname outcomes shardCount 0 [] disk
  simp only [ShardedDB.open, ShardedDB.fresh, ran, Prod.mk.injEq] at opened
  obtain ⟨_, _, last⟩ := opened
  subst last
  exact ⟨attached.length, fun idx entry found => facts.grown.pathOf (attached.path idx entry found)⟩

/-- Sharded objects in separate directories are isolated. -/
theorem sharded_isolates (engine : Engine) {shell : Shell Disk} {inside : Bytes → Bytes → Prop}
    (directories : Directories inside)
    (removes : shell.RemovesInside inside Disk.files Disk.arena) :
    IsolatesStores (ShardedDB.operate engine shell) (ShardedOpens (ShardedDB.open engine))
      (Separate inside) := by
  intro firstName secondName separate start both inputs replies state ran
  apply (sharded_sparing engine directories removes).isolated _ ran
  obtain ⟨⟨_, first⟩, alone, ⟨_, second⟩⟩ := both
  obtain ⟨attached, name, _⟩ := open_attached engine first
  obtain ⟨later, laterName, _⟩ := open_attached engine second
  have stands := run_invariant (ShardedDB.operate engine shell)
    (fun state => Attached state.1 state.2 ∧ state.1.dbname = firstName) (by
      rintro ⟨object, disk⟩ input reply ⟨next, after⟩ ⟨stands, named⟩ step
      obtain ⟨kept, same, _⟩ :=
        operate_frame directories removes stands (named ▸ separate.named.1) step
      exact ⟨kept, same.trans named⟩) ⟨attached, name⟩ alone
  refine ⟨⟨stands.1.opening engine second, later⟩, ?_⟩
  rw [stands.2, laterName]
  exact separate

/-- The member points to a transaction that was given out, which is live in the object's
environment or freed. -/
structure Points (object : LMDB) (mdb : Mdb) (handle : Nat) : Prop where
  points : object.txn = some handle
  given : handle < mdb.txns.next
  lives : mdb.txns.cells handle = none ∨ ∃ path txn, Begun object mdb path txn

/-- The abstraction of the object is what its member points to. -/
theorem Points.holding {object : LMDB} {mdb : Mdb} {handle : Nat}
    (points : Points object mdb handle) :
    Holding object.dbi (object, mdb) (mdb.txns.cells handle) := by
  refine ⟨rfl, ?_⟩
  rcases points.lives with freed | ⟨path, txn, begun⟩
  · rw [freed]
    exact Mdb.txn_freed points.points freed
  · rw [begun.held points.points]
    exact ⟨path, begun⟩

/-- What an operation of an LMDB object does to the library: it keeps the environments and all
transactions but its own, and its member keeps its transaction or gets a new one. -/
structure TxnFrame (object : LMDB) (mdb : Mdb) (handle : Nat) (next : LMDB) (after : Mdb)
    (last : Nat) : Prop where
  points : Points next after last
  own : last = handle ∨ mdb.txns.next ≤ last
  envs : after.envs = mdb.envs
  frontier : mdb.txns.next ≤ after.txns.next
  others : ∀ other, other ≠ handle → other < mdb.txns.next →
    after.txns.cells other = mdb.txns.cells other

/-- A foreign object keeps its transaction. -/
theorem TxnFrame.spares {object other next : LMDB} {mdb after : Mdb} {handle last foreign : Nat}
    (frame : TxnFrame object mdb handle next after last) (points : Points other mdb foreign)
    (different : foreign ≠ handle) :
    Points other after foreign ∧ foreign ≠ last ∧
      after.txns.cells foreign = mdb.txns.cells foreign := by
  have cells := frame.others foreign different points.given
  refine ⟨⟨points.points, Nat.lt_of_lt_of_le points.given frame.frontier, ?_⟩, ?_, cells⟩
  · rcases points.lives with freed | ⟨path, txn, begun⟩
    · exact .inl (cells.trans freed)
    · refine .inr ⟨path, txn, begun.env, ?_, foreign, points.points, ?_⟩
      · rw [frame.envs]
        exact begun.opened
      · exact cells.trans (begun.held points.points)
  · have given := points.given
    rcases frame.own with own | above
    · rw [own]
      exact different
    · omega

/-- `applyBatch` stays within the frame: it frees its own transaction, and its member leads to the
new one or to the freed one. -/
theorem TxnFrame.applyBatch {object next : LMDB} {mdb after : Mdb} {handle : Nat} {path : Bytes}
    {txn : Txn} (points : Points object mdb handle) (begun : Begun object mdb path txn)
    {faults : MdbFaults} {reply : Reply}
    (ran : object.applyBatch faults mdb = .ok (reply, next, after)) :
    next.dbname = object.dbname ∧ ∃ last, TxnFrame object mdb handle next after last := by
  have held := begun.held points.points
  by_cases commits : Commits txn faults
  · cases (LMDB.applyBatch_renews begun points.points held commits).symm.trans ran
    have begun' : ∃ last, some mdb.txns.next = some last ∧
        ((mdb.txns.release handle).create txn).cells last = some txn :=
      ⟨_, rfl, Arena.create_cells_self _ txn⟩
    refine ⟨rfl, mdb.txns.next, ⟨rfl, Nat.lt_succ_self _, .inr ⟨path, txn, begun.env, begun.opened,
      begun'⟩⟩, .inr (Nat.le_refl _), rfl, Nat.le_succ _, fun other different below => ?_⟩
    have earlier : other ≠ (mdb.txns.release handle).next := Nat.ne_of_lt below
    change ((mdb.txns.release handle).create txn).cells other = _
    rw [Arena.create_cells_of_ne _ _ earlier, Arena.release_cells_of_ne _ different]
  · obtain ⟨final, step, envs, txns⟩ := LMDB.applyBatch_loses begun points.points held commits
    cases step.symm.trans ran
    refine ⟨rfl, handle, ⟨points.points, ?_, .inl ?_⟩, .inl rfl, envs, ?_,
      fun other different _ => ?_⟩
    · rw [txns]
      exact points.given
    · rw [txns, Arena.release_cells_self]
    · rw [txns, Arena.release_next]
    · rw [txns, Arena.release_cells_of_ne _ different]

/-- An operation of an LMDB object stays within its frame. -/
theorem lmdb_frame {shell : Shell Mdb} {inside : Bytes → Bytes → Prop}
    (removes : shell.RemovesInside inside Mdb.files fun mdb => (mdb.envs, mdb.txns))
    {object next : LMDB} {mdb after : Mdb} {handle : Nat} (points : Points object mdb handle)
    (named : Named object.dbname) {input : Operation × MdbFaults} {reply : Reply}
    (ran : LMDB.operate shell (object, mdb) input = .ok (reply, next, after)) :
    next.dbname = object.dbname ∧ ∃ last, TxnFrame object mdb handle next after last := by
  rcases input with ⟨operation, faults⟩
  cases operation with
  | clear =>
      obtain ⟨live, _⟩ := removes.clear named mdb
      obtain ⟨envs, txns⟩ := Prod.mk.inj live
      cases ran
      refine ⟨rfl, handle, ⟨points.points, ?_, ?_⟩, .inl rfl, envs, ?_, fun _ _ _ => ?_⟩
      · rw [txns]
        exact points.given
      · rw [txns]
        exact points.lives.imp_right fun ⟨path, txn, begun⟩ => ⟨path, txn, begun.congr envs txns⟩
      · rw [txns]
      · rw [txns]
  | call request =>
      have called : LMDB.call (object, mdb) (request, faults) = .ok (reply, next, after) := ran
      rcases points.lives with freed | ⟨path, txn, begun⟩
      · have dead := Mdb.txn_freed points.points freed
        cases (LMDB.call_dead dead (request, faults)).symm.trans called
      · by_cases applies : request = .applyBatch
        · subst applies
          exact TxnFrame.applyBatch points begun called
        · have held := begun.held points.points
          have later := begun.setTxn points.points held (txnCall_env object.dbi txn (request, faults))
          cases (LMDB.call_eq points.points held (request, faults) applies).symm.trans called
          exact ⟨rfl, handle, ⟨points.points, points.given, .inr ⟨path, _, later⟩⟩, .inl rfl, rfl,
            Nat.le_refl _, fun other different _ => Arena.modify_cells_of_ne _ _ _ different⟩

/-- Two LMDB objects point to different transactions. -/
structure TxnsApart (first second : LMDB) (mdb : Mdb) : Prop where
  points : ∃ left right, Points first mdb left ∧ Points second mdb right ∧ left ≠ right
  named : Named first.dbname ∧ Named second.dbname

/-- The operations of one LMDB object spare the other. -/
theorem lmdb_sparing {shell : Shell Mdb} {inside : Bytes → Bytes → Prop}
    (removes : shell.RemovesInside inside Mdb.files fun mdb => (mdb.envs, mdb.txns)) :
    Sparing (LMDB.operate shell) TxnsApart where
  swap := by
    rintro first second mdb ⟨⟨left, right, mine, others, different⟩, named⟩
    exact ⟨⟨right, left, others, mine, different.symm⟩, named.symm⟩
  keeps := by
    rintro acting other mdb input reply next after ⟨⟨left, right, mine, others, different⟩, named⟩ ran
    obtain ⟨name, last, frame⟩ := lmdb_frame removes mine named.1 ran
    obtain ⟨kept, apart, _⟩ := frame.spares others different.symm
    refine ⟨⟨last, right, frame.points, kept, apart.symm⟩, ?_⟩
    rw [name]
    exact named
  spares := by
    rintro acting other mdb ⟨⟨left, right, mine, others, different⟩, named⟩ input reply next after
      ran calls
    obtain ⟨_, last, frame⟩ := lmdb_frame removes mine named.1 ran
    obtain ⟨kept, _, cells⟩ := frame.spares others different.symm
    have bisimulates : Bisimulates (dataOf (LMDB.operate shell))
        (fun member input => txnOperate other.dbi member (.call input.1, input.2))
        (Holding other.dbi) :=
      fun _ _ input holding => lmdbCall_matches holding input.1 input.2
    have holding := kept.holding
    rw [cells] at holding
    exact repliesTo_eq bisimulates holding others.holding calls

/-- A fresh LMDB object was opened under this name. -/
def LmdbOpens (dbname : Bytes) (mdb : Mdb) (opened : LMDB × Mdb) : Prop :=
  ∃ faults, LMDB.open .fresh dbname faults mdb = .ok (.flag true, opened)

/-- `open` begins a new transaction and keeps those of other objects. -/
theorem LMDB.open_points {dbname : Bytes} {faults : MdbFaults} {mdb after : Mdb} {object : LMDB}
    (opened : LMDB.open .fresh dbname faults mdb = .ok (.flag true, object, after)) :
    object.dbname = dbname ∧ Points object after mdb.txns.next ∧
      ∀ {other : LMDB} {handle : Nat}, Points other mdb handle → Points other after handle := by
  obtain ⟨env, begun, _⟩ := LMDB.open_fresh opened
  obtain ⟨rfl, rfl⟩ := LMDB.open_fresh_eq opened
  refine ⟨rfl, ⟨rfl, Nat.lt_succ_self _, .inr ⟨_, _, begun⟩⟩, fun points => ?_⟩
  refine ⟨points.points, Nat.lt_succ_of_lt points.given, ?_⟩
  have cells := Arena.create_cells_of_ne mdb.txns ⟨mdb.envs.next, mdb.files dbname, false⟩
    (Nat.ne_of_lt points.given)
  rcases points.lives with freed | ⟨path, txn, stands⟩
  · exact .inl (cells.trans freed)
  · obtain ⟨same, leads, held⟩ := stands.begun
    exact .inr ⟨path, txn, stands.env, mdb.enter_of_live _ stands.opened, same, leads,
      Arena.create_cells_of_live _ _ held⟩

/-- LMDB objects in separate directories are isolated. -/
theorem lmdb_isolates {shell : Shell Mdb} {inside : Bytes → Bytes → Prop}
    (removes : shell.RemovesInside inside Mdb.files fun mdb => (mdb.envs, mdb.txns)) :
    IsolatesStores (LMDB.operate shell) LmdbOpens (Separate inside) := by
  intro firstName secondName separate start both inputs replies state ran
  apply (lmdb_sparing removes).isolated _ ran
  obtain ⟨⟨_, first⟩, alone, ⟨_, second⟩⟩ := both
  obtain ⟨name, points, _⟩ := LMDB.open_points first
  obtain ⟨laterName, later, keeps⟩ := LMDB.open_points second
  have stands := run_invariant (LMDB.operate shell)
    (fun state => state.1.dbname = firstName ∧ ∃ handle, Points state.1 state.2 handle) (by
      rintro ⟨object, mdb⟩ input reply ⟨next, after⟩ ⟨named, handle, stands⟩ step
      obtain ⟨same, last, frame⟩ := lmdb_frame removes stands (named ▸ separate.named.1) step
      exact ⟨same.trans named, last, frame.points⟩) ⟨name, _, points⟩ alone
  obtain ⟨named, handle, stands⟩ := stands
  refine ⟨⟨handle, _, keeps stands, later, Nat.ne_of_lt stands.given⟩, ?_⟩
  rw [named, laterName]
  exact separate.named

/-- A fresh Redis object was opened under this name. -/
def RedisOpens (dbname : Bytes) (server : RedisServer) (opened : RedisDB × RedisServer) : Prop :=
  RedisDB.open .fresh dbname server = (.flag true, opened)

/-- No library call of the Redis adapter throws. -/
def quietRedis : Operate RedisDB RedisServer Unit := fun state input =>
  RedisDB.operate state (input.1, false)

/-- An operation that does not throw keeps the object and all clients. -/
theorem quietRedis_frame {object : RedisDB} {server : RedisServer} (serving : Serving object server)
    (input : Operation × Unit) :
    ∃ reply after, quietRedis (object, server) input = .ok (reply, object, after) ∧
      after.clients = server.clients := by
  rcases input with ⟨operation, _⟩
  cases operation with
  | call request => exact ⟨_, _, RedisDB.call_follows serving request, rfl⟩
  | clear =>
      obtain ⟨isOpen, redis, mtx⟩ := object
      obtain ⟨free, client⟩ := serving
      simp only at free client
      subst free
      refine ⟨.unit, {server with data := Store.empty}, ?_, rfl⟩
      simp [quietRedis, RedisDB.operate, RedisDB.clear, RedisDB.lock, RedisDB.unlock, client, bind,
        Except.bind, pure, Except.pure]

/-- An object keeps its client as long as live clients stay live. -/
theorem Serving.grow {object : RedisDB} {server next : RedisServer} (serving : Serving object server)
    (grown : ∀ handle, server.clients.Live handle → next.clients.Live handle) :
    Serving object next := by
  refine ⟨serving.free, ?_⟩
  have client := serving.client
  cases points : object.redis with
  | none =>
      rw [points] at client
      cases client
  | some handle =>
      rw [points] at client
      by_cases live : server.clients.Live handle
      · exact if_pos (grown handle live)
      · simp [RedisServer.client, live] at client

/-- A Redis object answers from the map of the server. -/
theorem Serving.replies {object : RedisDB} {server : RedisServer} (serving : Serving object server)
    (key : Bytes) :
    replyTo quietRedis () (object, server) key = .ok (shown (server.data key)) := by
  have called : quietRedis (object, server) (.call (.get key), ()) = _ :=
    RedisDB.call_follows serving (.get key)
  rw [replyTo, called]
  rfl

/-- `open` connects its object and keeps the clients of other objects. -/
theorem RedisOpens.serving {dbname : Bytes} {server : RedisServer} {opened : RedisDB × RedisServer}
    (opens : RedisOpens dbname server opened) :
    Serving opened.1 opened.2 ∧
      ∀ handle, server.clients.Live handle → opened.2.clients.Live handle := by
  cases opens
  refine ⟨RedisDB.open_serving dbname server, fun handle live => ?_⟩
  obtain ⟨client, held⟩ := Option.isSome_iff_exists.mp live
  exact Option.isSome_iff_exists.mpr ⟨client, Arena.create_cells_of_live _ _ held⟩

/-- Redis objects share the one map of the server, whatever their names are. -/
theorem redis_shares : SharesStore quietRedis RedisOpens () := by
  intro firstName secondName start both inputs replies state ran
  have served : Serving state.1.1 state.2 ∧ Serving state.1.2 state.2 := by
    have keeps : ∀ acting other world input reply next after,
        (Serving acting world ∧ Serving other world) →
          quietRedis (acting, world) input = .ok (reply, next, after) →
            Serving next after ∧ Serving other after := by
      rintro acting other world input reply next after ⟨mine, others⟩ step
      obtain ⟨_, _, taken, clients⟩ := quietRedis_frame mine input
      cases taken.symm.trans step
      exact ⟨mine.grow (by simp [clients]), others.grow (by simp [clients])⟩
    apply pair_invariant (fun _ _ _ => And.symm) keeps _ ran
    obtain ⟨first, alone, second⟩ := both
    have stands := run_invariant quietRedis (fun state => Serving state.1 state.2) (by
      rintro ⟨object, server⟩ input reply ⟨next, after⟩ serving step
      obtain ⟨_, _, taken, clients⟩ := quietRedis_frame serving input
      cases taken.symm.trans step
      exact serving.grow (by simp [clients])) first.serving.1 alone
    exact ⟨stands.grow second.serving.2, second.serving.1⟩
  exact ⟨state.2.data, fun key => ⟨served.1.replies key, served.2.replies key⟩⟩

/-- LevelDB, RocksDB and LMDB objects in separate directories are isolated, and Redis objects
share one store. -/
theorem stores_isolated (inside : Bytes → Bytes → Prop) (directories : Directories inside)
    (disks : Shell Disk) (maps : Shell Mdb)
    (removesShards : disks.RemovesInside inside Disk.files Disk.arena)
    (removesMaps : maps.RemovesInside inside Mdb.files fun mdb => (mdb.envs, mdb.txns)) :
    IsolatesStores (LevelDB.operate disks) (ShardedOpens LevelDB.open) (Separate inside) ∧
      IsolatesStores (RocksDB.operate disks) (ShardedOpens RocksDB.open) (Separate inside) ∧
      IsolatesStores (LMDB.operate maps) LmdbOpens (Separate inside) ∧
      SharesStore quietRedis RedisOpens () :=
  ⟨sharded_isolates LevelDB.engine directories removesShards,
    sharded_isolates RocksDB.engine directories removesShards, lmdb_isolates removesMaps,
    redis_shares⟩

/-- Names that continue behind a slash form a tree of directories. -/
theorem below_directories : Directories Below where
  self _ := .inl rfl
  shard name idx := .inr (List.prefix_append (name ++ [47]) (toString idx))
  tree := by
    rintro path first second (rfl | left) (rfl | right)
    · exact .inl (.inl rfl)
    · exact .inl (.inr right)
    · exact .inr (.inr left)
    · rcases List.prefix_or_prefix_of_prefix left right with nested | nested
      · rcases List.prefix_concat_iff.mp nested with equal | deeper
        · exact .inl (.inl (List.append_cancel_right equal))
        · exact .inr (.inr deeper)
      · rcases List.prefix_concat_iff.mp nested with equal | deeper
        · exact .inr (.inl (List.append_cancel_right equal))
        · exact .inl (.inr deeper)

/-- The command names the directory that it removes. -/
theorem unlinked_removal (dbname path : Bytes) :
    unlinked (removal dbname) path = decide (Below path dbname) := by
  simp [unlinked, removal]

theorem unlinkShards_inside : unlinkShards.RemovesInside Below Disk.files Disk.arena := by
  refine ⟨fun _ _ _ => rfl, fun dbname disk path _ outside => ?_⟩
  simp [unlinkShards, unlinked_removal, outside]

theorem unlinkMaps_inside :
    unlinkMaps.RemovesInside Below Mdb.files fun mdb => (mdb.envs, mdb.txns) := by
  refine ⟨fun _ _ _ => rfl, fun dbname mdb path _ outside => ?_⟩
  simp [unlinkMaps, unlinked_removal, outside]

theorem stores_isolated_unlink :
    IsolatesStores (LevelDB.operate unlinkShards) (ShardedOpens LevelDB.open) (Separate Below) ∧
      IsolatesStores (RocksDB.operate unlinkShards) (ShardedOpens RocksDB.open) (Separate Below) ∧
      IsolatesStores (LMDB.operate unlinkMaps) LmdbOpens (Separate Below) ∧
      SharesStore quietRedis RedisOpens () :=
  stores_isolated Below below_directories unlinkShards unlinkMaps unlinkShards_inside
    unlinkMaps_inside

/-- Objects of every adapter in separate directories are isolated. -/
def AlwaysIsolated : Prop :=
  ∀ (inside : Bytes → Bytes → Prop) (disks : Shell Disk) (maps : Shell Mdb), Directories inside →
    disks.RemovesInside inside Disk.files Disk.arena →
    maps.RemovesInside inside Mdb.files (fun mdb => (mdb.envs, mdb.txns)) →
    IsolatesStores (LevelDB.operate disks) (ShardedOpens LevelDB.open) (Separate inside) ∧
      IsolatesStores (RocksDB.operate disks) (ShardedOpens RocksDB.open) (Separate inside) ∧
      IsolatesStores (LMDB.operate maps) LmdbOpens (Separate inside) ∧
      IsolatesStores RedisDB.operate RedisOpens (Separate inside)

/-- A write on one Redis object shows on an object with another name. -/
theorem redis_not_isolated : ¬ AlwaysIsolated := by
  intro always
  obtain ⟨_, _, _, redis⟩ := always Below unlinkShards unlinkMaps below_directories
    unlinkShards_inside unlinkMaps_inside
  have apart : Separate Below [97] [98] := ⟨by decide, by decide⟩
  have both : BothOpened RedisDB.operate RedisOpens [97] [98]
      (((RedisDB.fresh.open [97] RedisServer.blank).2.1,
        (RedisDB.fresh.open [98] (RedisDB.fresh.open [97] RedisServer.blank).2.2).2.1),
        (RedisDB.fresh.open [98] (RedisDB.fresh.open [97] RedisServer.blank).2.2).2.2) :=
    @BothOpened.opened _ _ _ _ _ [97] [98] RedisServer.blank
      (RedisDB.fresh.open [97] RedisServer.blank).2 _ _ _ [] [] rfl rfl rfl
  have undisturbed := (redis [97] [98] apart _ both [] [] _ rfl).1
  have same := undisturbed (.call (.put [1] [7]), false) _ _ _ rfl [(.get [1], false)]
  have before : Except.ok [Reply.lookup true (some [7])] =
      (Except.ok [Reply.lookup false none] : Except Misuse (List Reply)) := same
  cases before

end DbBench
