import DbBench.Construction.LevelDB
import DbBench.Construction.RocksDB
import DbBench.Proof.OpenShards

namespace DbBench

open KeyValue

/-- The library opens this shard. -/
def Accepts (dbname : Bytes) (outcomes : Outcomes) (disk : Disk) (idx : Nat) : Prop :=
  outcomes idx = .done ∧ disk.held (shardPath dbname idx) = false

/-- This shard is the first one whose library call fails. -/
structure FailsFirst (dbname : Bytes) (outcomes : Outcomes) (disk : Disk) (first : Nat) : Prop where
  inside : first < shardCount
  fails : ¬ Accepts dbname outcomes disk first
  before : ∀ idx < first, Accepts dbname outcomes disk idx

/-- A block cache holds no path. -/
theorem blockCache_held (engine : Engine) (disk : Disk) (path : Bytes) :
    (engine.blockCache disk).2.held path = disk.held path := by
  rw [Engine.blockCache]
  split
  · simp [Disk.held, Disk.newLRUCache, Arena.anyLive_create]
  · rfl

/-- The disk after one round of the loop that succeeds. -/
def Disk.afterRound (engine : Engine) (dbname : Bytes) (idx : Nat) (disk : Disk) : Disk :=
  { (engine.blockCache disk).2 with
    arena := (engine.blockCache disk).2.arena.create (.db (shardPath dbname idx)) }

/-- A round that succeeds holds its own shard and changes no other one. -/
theorem afterRound_held (engine : Engine) (dbname : Bytes) (idx : Nat) (disk : Disk) (shard : Nat) :
    (disk.afterRound engine dbname idx).held (shardPath dbname shard) =
      (disk.held (shardPath dbname shard) || decide (shard = idx)) := by
  have kept := blockCache_held engine disk (shardPath dbname shard)
  have same : decide (Resource.db (shardPath dbname idx) = .db (shardPath dbname shard)) =
      decide (shard = idx) := by
    simp only [Resource.db.injEq, (shardPath_injective dbname).eq_iff, eq_comm]
  rw [← kept, ← same]
  exact Arena.anyLive_create _ _ _

theorem openShards_accepted (engine : Engine) {dbname : Bytes} {outcomes : Outcomes} {disk : Disk}
    {idx : Nat} (accepts : Accepts dbname outcomes disk idx) (remaining : Nat) (dbs : List DB) :
    openShards engine dbname outcomes (remaining + 1) idx dbs disk =
      openShards engine dbname outcomes remaining (idx + 1)
        (dbs ++ [⟨some (engine.blockCache disk).2.arena.next, (engine.blockCache disk).1, .ok, []⟩])
        (disk.afterRound engine dbname idx) := by
  have free := (blockCache_held engine disk (shardPath dbname idx)).trans accepts.2
  simp only [openShards, Disk.openDB, accepts.1, free, and_self, if_true, Status.isOk]
  rfl

theorem openShards_refused (engine : Engine) {dbname : Bytes} {outcomes : Outcomes} {disk : Disk}
    {idx : Nat} (refuses : ¬ Accepts dbname outcomes disk idx) (remaining : Nat) (dbs : List DB) :
    openShards engine dbname outcomes (remaining + 1) idx dbs disk =
      (false, dbs, (engine.blockCache disk).2) := by
  have blocked : ¬ (outcomes idx = .done ∧
      (engine.blockCache disk).2.held (shardPath dbname idx) = false) := by
    rw [blockCache_held]
    exact refuses
  simp only [openShards, Disk.openDB, blocked, if_false, Status.isOk, Bool.false_eq_true]

/-- A round that succeeds leaves the later shards as they were. -/
theorem Accepts.later {engine : Engine} {dbname : Bytes} {outcomes : Outcomes} {disk : Disk}
    {idx shard : Nat} (after : idx < shard) :
    Accepts dbname outcomes (disk.afterRound engine dbname idx) shard ↔
      Accepts dbname outcomes disk shard := by
  rw [Accepts, Accepts, afterRound_held]
  have different : shard ≠ idx := Nat.ne_of_gt after
  simp [different]

/-- The loop succeeds when the library opens every shard. -/
theorem openShards_succeeds (engine : Engine) (dbname : Bytes) (outcomes : Outcomes)
    (remaining idx : Nat) (dbs : List DB) (disk : Disk)
    (accepts : ∀ shard, idx ≤ shard → shard < idx + remaining →
      Accepts dbname outcomes disk shard) :
    (openShards engine dbname outcomes remaining idx dbs disk).1 = true := by
  induction remaining generalizing idx dbs disk with
  | zero => rfl
  | succ remaining ih =>
      rw [openShards_accepted engine (accepts idx (Nat.le_refl idx) (by omega))]
      apply ih
      intro shard above below
      exact (Accepts.later above).mpr (accepts shard (by omega) (by omega))

/-- The loop stops at the first shard that the library does not open. By then it has added one
entry for each earlier shard and holds all of them. -/
theorem openShards_stops (engine : Engine) (dbname : Bytes) (outcomes : Outcomes)
    (remaining idx count : Nat) (dbs : List DB) (disk : Disk) (inside : count < remaining)
    (before : ∀ shard, idx ≤ shard → shard < idx + count → Accepts dbname outcomes disk shard)
    (fails : ¬ Accepts dbname outcomes disk (idx + count)) :
    ∃ added after, openShards engine dbname outcomes remaining idx dbs disk =
        (false, dbs ++ added, after) ∧ added.length = count ∧
      ∀ shard, disk.held (shardPath dbname shard) = true ∨ (idx ≤ shard ∧ shard < idx + count) →
        after.held (shardPath dbname shard) = true := by
  induction count generalizing remaining idx dbs disk with
  | zero =>
      obtain ⟨rest, rfl⟩ := Nat.exists_eq_add_of_lt inside
      refine ⟨[], (engine.blockCache disk).2, ?_, rfl, fun shard either => ?_⟩
      · rw [List.append_nil]
        exact openShards_refused engine fails _ dbs
      · rw [blockCache_held]
        exact either.resolve_right (by omega)
  | succ count ih =>
      obtain ⟨rest, rfl⟩ : ∃ rest, remaining = rest + 1 := ⟨remaining - 1, by omega⟩
      have here := before idx (Nat.le_refl idx) (by omega)
      have shifted : idx + 1 + count = idx + (count + 1) := by omega
      rw [openShards_accepted engine here]
      generalize grown : dbs ++ [DB.mk (some (engine.blockCache disk).2.arena.next)
        (engine.blockCache disk).1 .ok []] = dbs'
      obtain ⟨added, after, ran, length, held⟩ := ih rest (idx + 1) dbs'
        (disk.afterRound engine dbname idx) (by omega)
        (fun shard above below => (Accepts.later above).mpr (before shard (by omega) (by omega)))
        (by
          rw [Accepts.later (by omega), shifted]
          exact fails)
      refine ⟨_ :: added, after, by rw [ran, ← grown, List.append_assoc, List.singleton_append],
        by rw [List.length_cons, length], fun shard either => held shard ?_⟩
      rw [afterRound_held, Bool.or_eq_true, decide_eq_true_iff]
      rcases either with held | ⟨above, below⟩
      · exact .inl (.inl held)
      · by_cases same : shard = idx
        · exact .inl (.inr same)
        · exact .inr (by omega)

/-- A failed `open` gives the name to the object, appends the shards that it has opened and keeps
them held. -/
theorem open_fails (engine : Engine) (object : ShardedDB) {dbname : Bytes} {outcomes : Outcomes}
    {disk : Disk} {first : Nat} (fails : FailsFirst dbname outcomes disk first) :
    ∃ added after, ShardedDB.open engine object dbname outcomes disk =
        (.flag false, ⟨dbname, object.dbs ++ added⟩, after) ∧ added.length = first ∧
      ∀ shard < first, after.held (shardPath dbname shard) = true := by
  obtain ⟨added, after, ran, length, held⟩ := openShards_stops engine dbname outcomes shardCount 0
    first object.dbs disk fails.inside (fun shard _ below => fails.before shard (by omega))
    (by rw [Nat.zero_add]; exact fails.fails)
  refine ⟨added, after, by simp only [ShardedDB.open, ran], length, fun shard below => ?_⟩
  exact held shard (.inr (by omega))

/-- `open` succeeds when the library opens every shard. -/
theorem open_succeeds (engine : Engine) (object : ShardedDB) {dbname : Bytes} {outcomes : Outcomes}
    {disk : Disk} (accepts : ∀ shard < shardCount, Accepts dbname outcomes disk shard) :
    (ShardedDB.open engine object dbname outcomes disk).1 = .flag true := by
  have succeeds := openShards_succeeds engine dbname outcomes shardCount 0 object.dbs disk
    fun shard _ below => accepts shard (by omega)
  simp only [ShardedDB.open, succeeds]

/-- Either the library opens every shard or some shard fails first. -/
theorem failsFirst_or_all (dbname : Bytes) (outcomes : Outcomes) (disk : Disk) :
    (∃ first, FailsFirst dbname outcomes disk first) ∨
      ∀ shard < shardCount, Accepts dbname outcomes disk shard := by
  by_cases some : ∃ shard, shard < shardCount ∧ ¬ Accepts dbname outcomes disk shard
  · classical
    refine .inl ⟨Nat.find some, (Nat.find_spec some).1, (Nat.find_spec some).2, ?_⟩
    intro idx below
    by_contra refuses
    exact Nat.find_min some below ⟨Nat.lt_trans below (Nat.find_spec some).1, refuses⟩
  · refine .inr fun shard below => ?_
    by_contra refuses
    exact some ⟨shard, below, refuses⟩

/-- A failed `open` that has opened a shard makes every later one fail while that shard is held. -/
theorem open_blocked (engine : Engine) (object : ShardedDB) {dbname : Bytes} {outcomes : Outcomes}
    {disk : Disk} {first : Nat} (fails : FailsFirst dbname outcomes disk first)
    (opened : 0 < first) :
    ∃ next after, ShardedDB.open engine object dbname outcomes disk = (.flag false, next, after) ∧
      ∀ (retry : Outcomes) (later : Disk),
        later.held (shardPath dbname 0) = after.held (shardPath dbname 0) →
          (ShardedDB.open engine next dbname retry later).1 = .flag false := by
  obtain ⟨added, after, ran, _, held⟩ := open_fails engine object fails
  refine ⟨_, after, ran, fun retry later same => ?_⟩
  rw [held 0 opened] at same
  rcases failsFirst_or_all dbname retry later with ⟨again, refused⟩ | all
  · obtain ⟨more, last, blocked, _⟩ := open_fails engine ⟨dbname, object.dbs ++ added⟩ refused
    rw [blocked]
  · have free := (all 0 (by decide)).2
    simp [same] at free

/-- The object is as it was before, none of the earlier shards is held, and the same `open` succeeds
on every later disk that holds no more shards of the name than this one and none from the failing
one on. -/
def LeavesNothing
    (opening : ShardedDB → Bytes → Outcomes → Disk → Reply × ShardedDB × Disk)
    (object : ShardedDB) (dbname : Bytes) (outcomes : Outcomes) (disk : Disk) (first : Nat) : Prop :=
  let (reply, next, after) := opening object dbname outcomes disk
  reply = .flag false ∧ next = object ∧
    (∀ idx < first, after.held (shardPath dbname idx) = false) ∧
    ∀ later : Disk,
      (∀ idx < first, later.held (shardPath dbname idx) = after.held (shardPath dbname idx)) →
      (∀ idx, first ≤ idx → idx < shardCount → later.held (shardPath dbname idx) = false) →
      (opening next dbname faultless later).1 = .flag true

theorem leavesNothing_iff (engine : Engine) (object : ShardedDB) {dbname : Bytes}
    {outcomes : Outcomes} {disk : Disk} {first : Nat}
    (fails : FailsFirst dbname outcomes disk first) :
    LeavesNothing (ShardedDB.open engine) object dbname outcomes disk first ↔
      first = 0 ∧ object.dbname = dbname := by
  obtain ⟨added, after, ran, length, held⟩ := open_fails engine object fails
  rw [LeavesNothing, ran]
  constructor
  · rintro ⟨_, same, _, _⟩
    have entries := congrArg (fun object => object.dbs.length) same
    simp only [List.length_append] at entries
    refine ⟨by omega, ?_⟩
    rw [← same]
  · rintro ⟨zero, name⟩
    subst zero
    have none : added = [] := List.eq_nil_of_length_eq_zero length
    refine ⟨rfl, ?_, fun idx below => by omega, fun later _ free => ?_⟩
    · rw [none, List.append_nil, ← name]
    · apply open_succeeds
      intro shard below
      exact ⟨rfl, free shard (Nat.zero_le shard) below⟩

/-- A failed `open` leaves nothing behind exactly when the first shard is the one that fails and the
object had the same name before. -/
theorem failed_open_leaves_nothing_iff (object : ShardedDB) {dbname : Bytes} {outcomes : Outcomes}
    {disk : Disk} {first : Nat} (fails : FailsFirst dbname outcomes disk first) :
    (LeavesNothing LevelDB.open object dbname outcomes disk first ↔
        first = 0 ∧ object.dbname = dbname) ∧
      (LeavesNothing RocksDB.open object dbname outcomes disk first ↔
        first = 0 ∧ object.dbname = dbname) :=
  ⟨leavesNothing_iff LevelDB.engine object fails, leavesNothing_iff RocksDB.engine object fails⟩

/-- The library fails at this shard only. -/
def failingAt (shard : Nat) : Outcomes := fun idx => if idx = shard then .lost else .done

/-- On an empty disk the failing shard is the first one. -/
theorem failsFirst_blank (dbname : Bytes) {first : Nat} (inside : first < shardCount) :
    FailsFirst dbname (failingAt first) Disk.blank first := by
  refine ⟨inside, fun accepts => ?_, fun idx below => ⟨?_, rfl⟩⟩
  · have lost := accepts.1
    simp [failingAt] at lost
  · exact if_neg (Nat.ne_of_lt below)

/-- A second `open` of a new name fails at its first shard and leaves nothing behind. -/
theorem failed_open_leaves_nothing_iff_blank :
    LeavesNothing LevelDB.open ⟨[100], []⟩ [100] (failingAt 0) Disk.blank 0 ∧
      LeavesNothing RocksDB.open ⟨[100], []⟩ [100] (failingAt 0) Disk.blank 0 := by
  obtain ⟨level, rocks⟩ :=
    failed_open_leaves_nothing_iff ⟨[100], []⟩
      (failsFirst_blank [100] (show 0 < shardCount by decide))
  exact ⟨level.mpr ⟨rfl, rfl⟩, rocks.mpr ⟨rfl, rfl⟩⟩

/-- The second shard of a fresh object fails: the name and the first shard stay behind. -/
theorem failed_open_leaves_shards :
    FailsFirst [100] (failingAt 1) Disk.blank 1 ∧
      ¬ LeavesNothing LevelDB.open .fresh [100] (failingAt 1) Disk.blank 1 ∧
      ¬ LeavesNothing RocksDB.open .fresh [100] (failingAt 1) Disk.blank 1 := by
  have fails := failsFirst_blank [100] (show 1 < shardCount by decide)
  refine ⟨fails, fun nothing => ?_, fun nothing => ?_⟩
  · have zero := (leavesNothing_iff LevelDB.engine .fresh fails).mp nothing
    cases zero.1
  · have zero := (leavesNothing_iff RocksDB.engine .fresh fails).mp nothing
    cases zero.1

end DbBench
