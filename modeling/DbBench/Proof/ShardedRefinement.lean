import DbBench.Construction.LevelDB
import DbBench.Construction.RocksDB
import DbBench.Proof.OpenShards

namespace DbBench

open KeyValue Transition

/-- A direct write moves both levels in the same way. -/
theorem represents_write {engine : Engine} {sharded : ShardedStore} {flat : FlatStore}
    (represents : Represents engine.index sharded flat) (op : ByteWrite) (outcome : Outcome) :
    Represents engine.index (ShardedStore.write engine sharded op outcome)
      (FlatStore.write flat op outcome) := by
  rw [ShardedStore.write, FlatStore.write]
  split
  · exact represents
  · exact represents.write op

theorem converging_write {engine : Engine} {sharded : ShardedStore} {flat : FlatStore}
    (converging : Converging engine.index sharded flat) (op : ByteWrite) (outcome : Outcome) :
    Converging engine.index (ShardedStore.write engine sharded op outcome)
      (FlatStore.write flat op outcome) := by
  rw [ShardedStore.write, FlatStore.write]
  split
  · exact converging
  · exact converging.write op

/-- When every shard accepts its batch, the loop reaches the shard of every key. -/
theorem AllDone.written {outcomes : Outcomes} (all : AllDone outcomes) (engine : Engine)
    (key : Bytes) : Written outcomes (engine.index key) := by
  refine ⟨fun earlier below => all earlier (Nat.lt_trans below (engine.inside key)), ?_⟩
  rw [all _ (engine.inside key)]
  simp

/-- One step on a state that shows the flat store gives the flat answer, unless it is an
`applyBatch` that fails. -/
theorem shardCall_represents (engine : Engine) {sharded : ShardedStore} {flat : FlatStore}
    (represents : Represents engine.index sharded flat) (input : Call × Outcomes)
    (allowed : input.1 = .applyBatch → AllDone input.2) :
    (shardCall engine sharded input).1 = (flatCall flat input).1 ∧
      Represents engine.index (shardCall engine sharded input).2 (flatCall flat input).2 := by
  rcases input with ⟨request, outcomes⟩
  cases request with
  | get key => exact ⟨by simp only [shardCall, flatCall, represents.store], represents⟩
  | put key value =>
      simp only [shardCall, flatCall]
      split
      · exact ⟨rfl, represents⟩
      · exact ⟨rfl, represents_write represents _ _⟩
  | putBatch key value =>
      simp only [shardCall, flatCall]
      split
      · exact ⟨rfl, represents⟩
      · exact ⟨rfl, represents.queue _⟩
  | del key =>
      simp only [shardCall, flatCall]
      split
      · exact ⟨rfl, represents⟩
      · exact ⟨rfl, represents_write represents _ _⟩
  | delBatch key =>
      simp only [shardCall, flatCall]
      split
      · exact ⟨rfl, represents⟩
      · exact ⟨rfl, represents.queue _⟩
  | applyBatch =>
      have all : AllDone outcomes := allowed rfl
      simp only [shardCall, flatCall, if_pos all]
      exact ⟨trivial, represents.converging.commit (Written outcomes) (all.written engine)⟩

/-- Two replies agree when they are equal or when both answer a `get`. -/
def SameUnlessRead (first second : Reply) : Prop :=
  first = second ∨ ∃ found value found' value',
    first = .lookup found value ∧ second = .lookup found' value'

/-- A failed read still answers a `get`. -/
theorem readReply_lookup (answer : Option Bytes) (outcome : Outcome) :
    ∃ found value, readReply answer outcome = .lookup found value := by
  cases outcome with
  | done => exact ⟨_, _, rfl⟩
  | lost => exact ⟨_, _, rfl⟩
  | late => exact ⟨_, _, rfl⟩

/-- Every step keeps the sharded state converging to the flat one, also an `applyBatch` that
fails at any shard. -/
theorem shardCall_converging (engine : Engine) {sharded : ShardedStore} {flat : FlatStore}
    (converging : Converging engine.index sharded flat) (input : Call × Outcomes) :
    SameUnlessRead (shardCall engine sharded input).1 (flatCall flat input).1 ∧
      Converging engine.index (shardCall engine sharded input).2 (flatCall flat input).2 := by
  rcases input with ⟨request, outcomes⟩
  cases request with
  | get key =>
      obtain ⟨found, value, left⟩ := readReply_lookup (sharded.flatten engine.index key) (outcomes 0)
      obtain ⟨found', value', right⟩ := readReply_lookup (flat.store key) (outcomes 0)
      exact ⟨.inr ⟨found, value, found', value', left, right⟩, converging⟩
  | put key value =>
      simp only [shardCall, flatCall]
      split
      · exact ⟨.inl rfl, converging⟩
      · exact ⟨.inl rfl, converging_write converging _ _⟩
  | putBatch key value =>
      simp only [shardCall, flatCall]
      split
      · exact ⟨.inl rfl, converging⟩
      · exact ⟨.inl rfl, converging.queue _⟩
  | del key =>
      simp only [shardCall, flatCall]
      split
      · exact ⟨.inl rfl, converging⟩
      · exact ⟨.inl rfl, converging_write converging _ _⟩
  | delBatch key =>
      simp only [shardCall, flatCall]
      split
      · exact ⟨.inl rfl, converging⟩
      · exact ⟨.inl rfl, converging.queue _⟩
  | applyBatch =>
      simp only [shardCall, flatCall]
      split
      · rename_i all
        exact ⟨.inl rfl,
          (converging.commit (Written outcomes) (all.written engine)).converging⟩
      · exact ⟨.inl rfl, converging.apply (Written outcomes)⟩

/-- The object shows the flat store on attached shards. -/
def Shows (engine : Engine) (state : ShardedDB × Disk) (flat : FlatStore) : Prop :=
  Attached state.1 state.2 ∧ Represents engine.index (shardView state.1 state.2) flat

/-- The object converges to the flat store on attached shards. -/
def Approaches (engine : Engine) (state : ShardedDB × Disk) (flat : FlatStore) : Prop :=
  Attached state.1 state.2 ∧ Converging engine.index (shardView state.1 state.2) flat

theorem call_shows (engine : Engine) (state : ShardedDB × Disk) (flat : FlatStore)
    (input : Call × Outcomes) (allowed : input.1 = .applyBatch → AllDone input.2)
    (shows : Shows engine state flat) :
    ∃ next, ShardedDB.call engine state input = .ok ((flatCall flat input).1, next) ∧
      Shows engine next (flatCall flat input).2 := by
  obtain ⟨object, disk⟩ := state
  obtain ⟨next, final, step, attached, _, view⟩ := call_follows engine shows.1 input
  obtain ⟨reply, represents⟩ := shardCall_represents engine shows.2 input allowed
  refine ⟨(next, final), ?_, attached, ?_⟩
  · rw [step, reply]
  · rw [view]
    exact represents

theorem call_approaches (engine : Engine) (state : ShardedDB × Disk) (flat : FlatStore)
    (input : Call × Outcomes) (approaches : Approaches engine state flat) :
    ∃ reply next, ShardedDB.call engine state input = .ok (reply, next) ∧
      SameUnlessRead reply (flatCall flat input).1 ∧
      Approaches engine next (flatCall flat input).2 := by
  obtain ⟨object, disk⟩ := state
  obtain ⟨next, final, step, attached, _, view⟩ := call_follows engine approaches.1 input
  obtain ⟨reply, converging⟩ := shardCall_converging engine approaches.2 input
  refine ⟨_, (next, final), step, reply, attached, ?_⟩
  rw [view]
  exact converging

/-- The contents that a sharded database holds on disk, read as one map. -/
def diskContents (engine : Engine) (disk : Disk) (dbname : Bytes) : ByteStore :=
  fun key => disk.files (shardPath dbname (engine.index key)) key

/-- A freshly opened object shows what the disk holds and has no pending write. -/
theorem open_shows (engine : Engine) {dbname : Bytes} {outcomes : Outcomes} {disk next : Disk}
    {object : ShardedDB}
    (opened : ShardedDB.open engine .fresh dbname outcomes disk = (.flag true, object, next)) :
    Shows engine (object, next) ⟨diskContents engine disk dbname, []⟩ := by
  obtain ⟨attached, name, files, batch⟩ := open_attached engine opened
  refine ⟨attached, fun idx => ?_, ?_⟩
  · change (object.dbs[idx]?.map DB.batch).getD [] = []
    cases found : object.dbs[idx]? with
    | none => rfl
    | some entry => exact batch entry (List.mem_of_getElem? found)
  · funext key
    change next.files (shardPath object.dbname (engine.index key)) key = _
    rw [files, name]
    rfl

end DbBench
