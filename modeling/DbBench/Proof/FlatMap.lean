import DbBench.Proof.ShardedRefinement

namespace DbBench

open KeyValue Transition

/-- Without library failures every operation gives the flat answer. -/
theorem run_shows (engine : Engine) {state : ShardedDB × Disk} {flat : FlatStore}
    (shows : Shows engine state flat) (calls : List Call) :
    ∃ final, run (withoutFaults (ShardedDB.call engine)) state calls =
        .ok ((follow flatStep flat calls).1, final) ∧
      Shows engine final (follow flatStep flat calls).2 := by
  apply run_refines (withoutFaults (ShardedDB.call engine)) flatStep (Shows engine) (fun _ => True)
    _ calls (fun _ _ => trivial) shows
  intro state flat request _ shows
  rw [← flatCall_faultless]
  exact call_shows engine state flat (request, faultless) (fun _ _ _ => rfl) shows

/-- From every successful `open` of a fresh object, an adapter answers as one map with one
pending list that starts from the contents on disk, and each key's index stays inside `_dbs`. -/
def ActsAsFlatMap (opening : ShardedDB → Bytes → Outcomes → Disk → Reply × ShardedDB × Disk)
    (call : Machine (ShardedDB × Disk) (Call × Outcomes) Reply Misuse) (index : Bytes → Nat) : Prop :=
  ∀ (dbname : Bytes) (outcomes : Outcomes) (disk next : Disk) (object : ShardedDB),
    opening .fresh dbname outcomes disk = (.flag true, object, next) →
    ∀ calls : List Call, ∃ final,
      run (withoutFaults call) (object, next) calls =
        .ok ((follow flatStep
          ⟨fun key => disk.files (shardPath dbname (index key)) key, []⟩ calls).1, final) ∧
      ∀ key, index key < final.1.dbs.length

theorem actsAsFlatMap (engine : Engine) :
    ActsAsFlatMap (ShardedDB.open engine) (ShardedDB.call engine) engine.index := by
  intro dbname outcomes disk next object opened calls
  obtain ⟨final, ran, attached, _⟩ := run_shows engine (open_shows engine opened) calls
  refine ⟨final, ran, fun key => ?_⟩
  rw [attached.length]
  exact engine.inside key

/-- LevelDB and RocksDB each act as one map with one pending list, so on equal contents
they give equal answers to equal runs. -/
theorem adapters_act_as_flat_map :
    ActsAsFlatMap LevelDB.open LevelDB.call LevelDB.engine.index ∧
      ActsAsFlatMap RocksDB.open RocksDB.call RocksDB.engine.index ∧
      ∀ (levelName rocksName : Bytes) (levelOutcomes rocksOutcomes : Outcomes)
        (levelDisk levelNext rocksDisk rocksNext : Disk) (level rocks : ShardedDB),
        LevelDB.open .fresh levelName levelOutcomes levelDisk = (.flag true, level, levelNext) →
        RocksDB.open .fresh rocksName rocksOutcomes rocksDisk = (.flag true, rocks, rocksNext) →
        (∀ idx < shardCount, levelDisk.files (shardPath levelName idx) =
          rocksDisk.files (shardPath rocksName idx)) →
        ∀ calls : List Call, ∃ replies levelFinal rocksFinal,
          run (withoutFaults LevelDB.call) (level, levelNext) calls = .ok (replies, levelFinal) ∧
          run (withoutFaults RocksDB.call) (rocks, rocksNext) calls = .ok (replies, rocksFinal) := by
  have levelFlat : ActsAsFlatMap LevelDB.open LevelDB.call LevelDB.engine.index := by
    rw [LevelDB.call_eq]
    exact actsAsFlatMap LevelDB.engine
  have rocksFlat : ActsAsFlatMap RocksDB.open RocksDB.call RocksDB.engine.index := by
    rw [RocksDB.call_eq]
    exact actsAsFlatMap RocksDB.engine
  refine ⟨levelFlat, rocksFlat, ?_⟩
  intro levelName rocksName levelOutcomes rocksOutcomes levelDisk levelNext rocksDisk rocksNext
    level rocks levelOpened rocksOpened same calls
  obtain ⟨levelFinal, levelRan, _⟩ :=
    levelFlat levelName levelOutcomes levelDisk levelNext level levelOpened calls
  obtain ⟨rocksFinal, rocksRan, _⟩ :=
    rocksFlat rocksName rocksOutcomes rocksDisk rocksNext rocks rocksOpened calls
  -- Both adapters route a key by the same hash, so they read the same contents.
  have contents : (fun key => levelDisk.files (shardPath levelName (LevelDB.engine.index key)) key) =
      fun key => rocksDisk.files (shardPath rocksName (RocksDB.engine.index key)) key := by
    funext key
    exact congrFun (same _ (LevelDB.engine.inside key)) key
  rw [contents] at levelRan
  exact ⟨_, levelFinal, rocksFinal, levelRan, rocksRan⟩

/-- The adapters answer a short run on an empty disk alike. -/
theorem adapters_act_as_flat_map_blank :
    ∃ replies levelFinal rocksFinal,
      run (withoutFaults LevelDB.call) (LevelDB.open .fresh [100] faultless Disk.blank).2
        [.putBatch [1] [7], .get [1], .applyBatch, .get [1], .put [] [7]] =
          .ok (replies, levelFinal) ∧
      run (withoutFaults RocksDB.call) (RocksDB.open .fresh [101] faultless Disk.blank).2
        [.putBatch [1] [7], .get [1], .applyBatch, .get [1], .put [] [7]] =
          .ok (replies, rocksFinal) :=
  adapters_act_as_flat_map.2.2 [100] [101] faultless faultless Disk.blank _ Disk.blank _ _ _
    rfl rfl (fun _ _ => rfl) _

example : (run (withoutFaults LevelDB.call) (LevelDB.open .fresh [100] faultless Disk.blank).2
    [.putBatch [1] [7], .get [1], .applyBatch, .get [1], .put [] [7]]).map Prod.fst =
      .ok [.flag true, .lookup false none, .flag true, .lookup true (some [7]), .flag false] := by
  rfl

end DbBench
