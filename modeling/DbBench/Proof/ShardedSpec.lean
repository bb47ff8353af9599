import DbBench.Spec.FlatStore
import DbBench.Proof.ShardPath
import DbBench.Proof.ShardedSteps

namespace DbBench

open KeyValue Transition

abbrev ShardedStore := Sharded Nat Bytes Bytes

/-- The loop of `applyBatch` reaches a shard when every earlier write succeeded, and the batch
takes effect there unless the library loses it. -/
def Written (outcomes : Outcomes) (idx : Nat) : Prop :=
  (∀ earlier < idx, outcomes earlier = .done) ∧ outcomes idx ≠ .lost

instance (outcomes : Outcomes) : DecidablePred (Written outcomes) := fun idx =>
  inferInstanceAs (Decidable ((∀ earlier < idx, outcomes earlier = .done) ∧ outcomes idx ≠ .lost))

/-- A direct write takes effect at one shard unless its library call is lost. -/
def ShardedStore.write (engine : Engine) (sharded : ShardedStore) (op : ByteWrite)
    (outcome : Outcome) : ShardedStore :=
  if outcome = .lost then sharded else Sharded.write engine.index sharded op

/-- This reference answers from sixteen maps and ignores handles and statuses. -/
def shardCall (engine : Engine) : Reference ShardedStore (Call × Outcomes) Reply
  | sharded, (.get key, outcomes) =>
      (readReply (sharded.flatten engine.index key) (outcomes 0), sharded)
  | sharded, (.put key value, outcomes) =>
      if key.isEmpty then (.flag false, sharded)
      else (writeReply (outcomes 0), ShardedStore.write engine sharded (.put key value) (outcomes 0))
  | sharded, (.putBatch key value, _) =>
      if key.isEmpty then (.flag false, sharded)
      else (.flag true, sharded.queue engine.index (.put key value))
  | sharded, (.del key, outcomes) =>
      if key.isEmpty then (.flag false, sharded)
      else (writeReply (outcomes 0), ShardedStore.write engine sharded (.delete key) (outcomes 0))
  | sharded, (.delBatch key, _) =>
      if key.isEmpty then (.flag false, sharded)
      else (.flag true, sharded.queue engine.index (.delete key))
  | sharded, (.applyBatch, outcomes) =>
      if AllDone outcomes then (.flag true, (sharded.apply (Written outcomes)).clear)
      else (.flag false, sharded.apply (Written outcomes))

/-- Every entry points to the live database of its own path. -/
structure Attached (object : ShardedDB) (disk : Disk) : Prop where
  length : object.dbs.length = shardCount
  path : ∀ idx entry, object.dbs[idx]? = some entry →
    disk.pathOf entry.db = .ok (shardPath object.dbname idx)

/-- The view reads the contents of the shard paths and the batches of the entries. -/
def shardView (object : ShardedDB) (disk : Disk) : ShardedStore where
  stores idx := disk.files (shardPath object.dbname idx)
  batches idx := (object.dbs[idx]?.map DB.batch).getD []

/-- A key's shard index lies inside the vector. -/
theorem Attached.entry {object : ShardedDB} {disk : Disk} (attached : Attached object disk)
    (engine : Engine) (key : Bytes) :
    ∃ entry, object.dbs[engine.index key]? = some entry ∧
      object.entry (engine.index key) = .ok entry ∧
      disk.pathOf entry.db = .ok (shardPath object.dbname (engine.index key)) := by
  have inside : engine.index key < object.dbs.length := by
    rw [attached.length]
    exact engine.inside key
  have found : object.dbs[engine.index key]? = some object.dbs[engine.index key] :=
    List.getElem?_eq_getElem inside
  refine ⟨object.dbs[engine.index key], found, ?_, attached.path _ _ found⟩
  rw [ShardedDB.entry, found]

/-- A change to one entry that keeps its handle keeps the shards attached. -/
theorem Attached.modify {object : ShardedDB} {disk : Disk} (attached : Attached object disk)
    (idx : Nat) (change : DB → DB) (keeps : ∀ entry, (change entry).db = entry.db) :
    Attached {object with dbs := object.dbs.modify idx change} disk := by
  refine ⟨by simp [attached.length], fun other entry found => ?_⟩
  rw [List.getElem?_modify] at found
  obtain ⟨before, held, equal⟩ := Option.map_eq_some_iff.mp found
  have same : entry.db = before.db := by
    rw [← equal]
    split
    · exact keeps before
    · rfl
  rw [same]
  exact attached.path other before held

theorem Attached.setStatus {object : ShardedDB} {disk : Disk} (attached : Attached object disk)
    (idx : Nat) (status : Status) : Attached (object.setStatus idx status) disk :=
  attached.modify idx _ fun _ => rfl

theorem Attached.addBatch {object : ShardedDB} {disk : Disk} (attached : Attached object disk)
    (idx : Nat) (op : ByteWrite) : Attached (object.addBatch idx op) disk :=
  attached.modify idx _ fun _ => rfl

/-- A status assignment is invisible in the view. -/
theorem shardView_setStatus (object : ShardedDB) (disk : Disk) (idx : Nat) (status : Status) :
    shardView (object.setStatus idx status) disk = shardView object disk := by
  simp only [shardView, ShardedDB.setStatus, Sharded.mk.injEq, true_and]
  funext other
  rw [List.getElem?_modify, Option.map_eq_map, Option.map_map]
  congr 2
  funext entry
  by_cases same : idx = other <;> simp [same]

/-- The entry reads back the status that was assigned to it. -/
theorem statusOk_setStatus {object : ShardedDB} {idx : Nat} {entry : DB}
    (found : object.dbs[idx]? = some entry) (status : Status) :
    (object.setStatus idx status).statusOk idx = .ok status.isOk := by
  simp [ShardedDB.statusOk, ShardedDB.entry, ShardedDB.setStatus, found, bind, Except.bind, pure,
    Except.pure]

/-- A queued write joins the batch of its own shard in the view. -/
theorem shardView_addBatch (engine : Engine) {object : ShardedDB} {disk : Disk}
    (attached : Attached object disk) (op : ByteWrite) :
    shardView (object.addBatch (engine.index op.key) op) disk =
      (shardView object disk).queue engine.index op := by
  obtain ⟨entry, found, _, _⟩ := attached.entry engine op.key
  simp only [shardView, ShardedDB.addBatch, Sharded.queue, Sharded.mk.injEq, true_and]
  funext other
  rw [List.getElem?_modify, Option.map_eq_map, Option.map_map]
  by_cases same : other = engine.index op.key
  · subst same
    simp [found]
  · rw [Function.update_of_ne same]
    simp [Ne.symm same, Function.comp_def]

/-- The status of a write tells whether the library call completed. -/
def writeStatus (outcome : Outcome) : Status := if outcome = .done then .ok else .ioError

/-- A write to a live database changes its path only. -/
def Disk.written (disk : Disk) (path : Bytes) (batch : List ByteWrite) (outcome : Outcome) : Disk :=
  if outcome = .lost then disk
  else {disk with files := Function.update disk.files path ((disk.files path).writeAll batch)}

theorem write_of_path {disk : Disk} {db : Option Nat} {path : Bytes}
    (live : disk.pathOf db = .ok path) (batch : List ByteWrite) (outcome : Outcome) :
    disk.write db batch outcome = .ok (writeStatus outcome, disk.written path batch outcome) := by
  simp only [Disk.write, live, bind, Except.bind]
  cases outcome <;> rfl

@[simp] theorem written_arena (disk : Disk) (path : Bytes) (batch : List ByteWrite)
    (outcome : Outcome) : (disk.written path batch outcome).arena = disk.arena := by
  rw [Disk.written]
  split <;> rfl

theorem written_files_self (disk : Disk) (path : Bytes) (batch : List ByteWrite)
    (outcome : Outcome) : (disk.written path batch outcome).files path =
      if outcome = .lost then disk.files path else (disk.files path).writeAll batch := by
  rw [Disk.written]
  split
  · rfl
  · exact Function.update_self _ _ _

theorem written_files_of_ne (disk : Disk) {path other : Bytes} (batch : List ByteWrite)
    (outcome : Outcome) (different : other ≠ path) :
    (disk.written path batch outcome).files other = disk.files other := by
  rw [Disk.written]
  split
  · rfl
  · exact Function.update_of_ne different _ _

theorem Attached.congr {object : ShardedDB} {disk next : Disk} (attached : Attached object disk)
    (same : next.arena = disk.arena) : Attached object next :=
  ⟨attached.length, fun idx entry found => by
    rw [pathOf_congr same]
    exact attached.path idx entry found⟩

/-- A direct write is one write at its shard in the view. -/
theorem shardView_written (engine : Engine) (object : ShardedDB) (disk : Disk) (op : ByteWrite)
    (outcome : Outcome) :
    shardView object
        (disk.written (shardPath object.dbname (engine.index op.key)) [op] outcome) =
      ShardedStore.write engine (shardView object disk) op outcome := by
  by_cases lost : outcome = .lost
  · simp [Disk.written, ShardedStore.write, lost]
  · simp only [shardView, ShardedStore.write, Sharded.write, lost, if_false, Sharded.mk.injEq,
      and_true]
    funext idx
    by_cases same : idx = engine.index op.key
    · subst same
      rw [written_files_self, if_neg lost, Function.update_self]
      rfl
    · rw [written_files_of_ne _ _ _ fun equal => same (shardPath_injective object.dbname equal),
        Function.update_of_ne same]

/-- One round of the loop writes one batch and goes on after a success. -/
theorem writeShards_cons {outcomes : Outcomes} {idx : Nat} {entry : DB} {disk : Disk}
    {path : Bytes} (live : disk.pathOf entry.db = .ok path) (rest : List DB) :
    writeShards outcomes idx (entry :: rest) disk =
      if outcomes idx = .done then
        writeShards outcomes (idx + 1) rest (disk.written path entry.batch (outcomes idx))
      else .ok (false, disk.written path entry.batch (outcomes idx)) := by
  simp only [writeShards, write_of_path live, bind, Except.bind, writeStatus]
  cases outcomes idx <;> rfl

/-- The first loop of `applyBatch` writes the batches of the shards it reaches. -/
theorem writeShards_spec (outcomes : Outcomes) (dbname : Bytes) (rest : List DB) (idx : Nat)
    (disk : Disk) (prior : ∀ earlier < idx, outcomes earlier = .done)
    (paths : ∀ offset entry, rest[offset]? = some entry →
      disk.pathOf entry.db = .ok (shardPath dbname (idx + offset))) :
    ∃ ok next, writeShards outcomes idx rest disk = .ok (ok, next) ∧
      (ok = true ↔ ∀ shard < idx + rest.length, outcomes shard = .done) ∧
      next.arena = disk.arena ∧
      ∀ shard, next.files (shardPath dbname shard) =
        if idx ≤ shard ∧ Written outcomes shard then
          (disk.files (shardPath dbname shard)).writeAll ((rest[shard - idx]?.map DB.batch).getD [])
        else disk.files (shardPath dbname shard) := by
  induction rest generalizing idx disk with
  | nil => exact ⟨true, disk, rfl, by simpa using prior, rfl, fun shard => by simp⟩
  | cons entry rest ih =>
      have live : disk.pathOf entry.db = .ok (shardPath dbname idx) := paths 0 entry rfl
      rw [writeShards_cons live]
      generalize reach : disk.written (shardPath dbname idx) entry.batch (outcomes idx) = reached
      have arena : reached.arena = disk.arena := by rw [← reach, written_arena]
      have others : ∀ shard, shard ≠ idx →
          reached.files (shardPath dbname shard) = disk.files (shardPath dbname shard) := by
        intro shard different
        rw [← reach]
        exact written_files_of_ne _ _ _ fun equal => different (shardPath_injective dbname equal)
      have self : reached.files (shardPath dbname idx) =
          if Written outcomes idx then (disk.files (shardPath dbname idx)).writeAll entry.batch
          else disk.files (shardPath dbname idx) := by
        rw [← reach, written_files_self]
        by_cases lost : outcomes idx = .lost
        · simp [Written, lost]
        · rw [if_neg lost, if_pos ⟨prior, lost⟩]
      by_cases done : outcomes idx = .done
      · have further : ∀ earlier < idx + 1, outcomes earlier = .done := by
          intro earlier below
          rcases Nat.lt_succ_iff_lt_or_eq.mp below with less | equal
          · exact prior earlier less
          · rw [equal]
            exact done
        obtain ⟨ok, next, ran, success, sameArena, files⟩ := ih (idx + 1) reached further (by
          intro offset later found
          rw [pathOf_congr arena, Nat.add_right_comm]
          exact paths (offset + 1) later (by simpa using found))
        refine ⟨ok, next, by rw [if_pos done, ran], ?_, sameArena.trans arena, fun shard => ?_⟩
        · rw [success, List.length_cons, Nat.add_right_comm, Nat.add_assoc]
        · rw [files shard]
          rcases Nat.lt_trichotomy shard idx with less | equal | more
          · simp [Nat.not_le.mpr less, Nat.not_le.mpr (Nat.lt_succ_of_lt less),
              others shard (Nat.ne_of_lt less)]
          · subst equal
            simp [self]
          · have offset : shard - idx = shard - (idx + 1) + 1 := by omega
            rw [others shard (Nat.ne_of_gt more), offset, List.getElem?_cons_succ]
            simp [Nat.le_of_lt more, Nat.succ_le_of_lt more]
      · refine ⟨false, reached, by rw [if_neg done], ?_, arena, fun shard => ?_⟩
        · constructor
          · intro impossible
            cases impossible
          · intro all
            exact absurd (all idx (by simp)) done
        · rcases Nat.lt_trichotomy shard idx with less | equal | more
          · simp [Nat.not_le.mpr less, others shard (Nat.ne_of_lt less)]
          · subst equal
            simp [self]
          · have unreached : ¬ Written outcomes shard := fun written => done (written.1 idx more)
            simp [unreached, others shard (Nat.ne_of_gt more)]

/-- A step answers as the reference does on the view and leads to the reference's next view. -/
def Follows (object : ShardedDB) (result : Except Misuse (Reply × ShardedDB × Disk))
    (expected : Reply × ShardedStore) : Prop :=
  ∃ next disk, result = .ok (expected.1, next, disk) ∧ Attached next disk ∧
    next.dbname = object.dbname ∧ shardView next disk = expected.2

/-- A read reports a failure of its library call, or whether it found the key. -/
def readStatus (answer : Option Bytes) : Outcome → Status
  | .done => if answer.isSome then .ok else .notFound
  | _ => .ioError

/-- A read delivers the value only when its library call completes. -/
def delivered (answer : Option Bytes) : Outcome → Option Bytes
  | .done => answer
  | _ => none

theorem get_of_path {disk : Disk} {db : Option Nat} {path : Bytes}
    (live : disk.pathOf db = .ok path) (key : Bytes) (outcome : Outcome) :
    disk.get db key outcome =
      .ok (readStatus (disk.files path key) outcome, delivered (disk.files path key) outcome) := by
  simp only [Disk.get, live, bind, Except.bind]
  cases outcome with
  | done => cases disk.files path key <;> rfl
  | lost => rfl
  | late => rfl

/-- On attached shards the first step of `get` stores the status of its own library call. -/
theorem performGet_eq (engine : Engine) {object : ShardedDB} {disk : Disk}
    (attached : Attached object disk) (key : Bytes) (outcome : Outcome) :
    object.performGet engine key outcome disk =
      .ok (delivered ((shardView object disk).flatten engine.index key) outcome,
        object.setStatus (engine.index key)
          (readStatus ((shardView object disk).flatten engine.index key) outcome), disk) := by
  obtain ⟨entry, found, held, live⟩ := attached.entry engine key
  simp only [ShardedDB.performGet, held, get_of_path live, bind, Except.bind, pure, Except.pure]
  rfl

/-- On attached shards the first step of `put` stores the status of its own library call. -/
theorem performPut_eq (engine : Engine) {object : ShardedDB} {disk : Disk}
    (attached : Attached object disk) (key value : Bytes) (outcome : Outcome) :
    object.performPut engine key value outcome disk =
      .ok (object.setStatus (engine.index key) (writeStatus outcome),
        disk.written (shardPath object.dbname (engine.index key)) [.put key value] outcome) := by
  obtain ⟨entry, found, held, live⟩ := attached.entry engine key
  simp only [ShardedDB.performPut, Disk.put, held, write_of_path live, bind, Except.bind, pure,
    Except.pure]

/-- On attached shards the first step of `del` stores the status of its own library call. -/
theorem performDel_eq (engine : Engine) {object : ShardedDB} {disk : Disk}
    (attached : Attached object disk) (key : Bytes) (outcome : Outcome) :
    object.performDel engine key outcome disk =
      .ok (object.setStatus (engine.index key) (writeStatus outcome),
        disk.written (shardPath object.dbname (engine.index key)) [.delete key] outcome) := by
  obtain ⟨entry, found, held, live⟩ := attached.entry engine key
  simp only [ShardedDB.performDel, Disk.delete, held, write_of_path live, bind, Except.bind, pure,
    Except.pure]

/-- The shard of a key reads back the status that was assigned to it. -/
theorem Attached.statusOk {object : ShardedDB} {disk : Disk} (attached : Attached object disk)
    (engine : Engine) (key : Bytes) (status : Status) :
    (object.setStatus (engine.index key) status).statusOk (engine.index key) =
      .ok status.isOk := by
  obtain ⟨entry, found, _, _⟩ := attached.entry engine key
  exact statusOk_setStatus found status

theorem get_follows (engine : Engine) {object : ShardedDB} {disk : Disk}
    (attached : Attached object disk) (key : Bytes) (outcomes : Outcomes) :
    Follows object (object.get engine key (outcomes 0) disk)
      (shardCall engine (shardView object disk) (.get key, outcomes)) := by
  let answer := (shardView object disk).flatten engine.index key
  refine ⟨object.setStatus (engine.index key) (readStatus answer (outcomes 0)), disk, ?_,
    attached.setStatus _ _, rfl, shardView_setStatus object disk _ _⟩
  have reply : Reply.lookup (readStatus answer (outcomes 0)).isOk (delivered answer (outcomes 0)) =
      readReply answer (outcomes 0) := by
    cases outcomes 0 <;> cases answer <;> rfl
  simp only [ShardedDB.get, performGet_eq engine attached, attached.statusOk engine, bind,
    Except.bind, pure, Except.pure, shardCall]
  exact congrArg (fun said => Except.ok (said, _, disk)) reply

/-- A direct write with a key that is not empty follows the reference's write. -/
theorem write_follows (engine : Engine) {object : ShardedDB} {disk : Disk}
    (attached : Attached object disk) (op : ByteWrite) (outcome : Outcome)
    {performed : Except Misuse (ShardedDB × Disk)}
    (perform : performed = .ok (object.setStatus (engine.index op.key) (writeStatus outcome),
      disk.written (shardPath object.dbname (engine.index op.key)) [op] outcome)) :
    Follows object
      (do
        let (object, disk) ← performed
        let ok ← object.statusOk (engine.index op.key)
        pure (.flag ok, object, disk))
      (writeReply outcome, ShardedStore.write engine (shardView object disk) op outcome) := by
  refine ⟨object.setStatus (engine.index op.key) (writeStatus outcome),
    disk.written (shardPath object.dbname (engine.index op.key)) [op] outcome, ?_,
    (attached.congr (written_arena disk _ _ _)).setStatus _ _, rfl, ?_⟩
  · simp only [perform, attached.statusOk engine, bind, Except.bind, pure, Except.pure]
    cases outcome <;> rfl
  · rw [shardView_setStatus, shardView_written]

/-- A queued write with a key that is not empty follows the reference's queue. -/
theorem queue_follows (engine : Engine) {object : ShardedDB} {disk : Disk}
    (attached : Attached object disk) (op : ByteWrite) :
    Follows object
      (do
        let _ ← object.entry (engine.index op.key)
        pure (.flag true, object.addBatch (engine.index op.key) op, disk))
      (.flag true, (shardView object disk).queue engine.index op) := by
  obtain ⟨entry, found, held, live⟩ := attached.entry engine op.key
  refine ⟨object.addBatch (engine.index op.key) op, disk, ?_, attached.addBatch _ _, rfl,
    shardView_addBatch engine attached op⟩
  simp only [held, bind, Except.bind, pure, Except.pure]

/-- A refused key changes nothing. -/
theorem refused_follows {object : ShardedDB} {disk : Disk} (attached : Attached object disk) :
    Follows object (pure (.flag false, object, disk)) (.flag false, shardView object disk) :=
  ⟨object, disk, rfl, attached, rfl, rfl⟩

/-- Clearing the batches keeps every handle. -/
theorem Attached.clearBatches {object : ShardedDB} {disk : Disk} (attached : Attached object disk) :
    Attached object.clearBatches disk := by
  refine ⟨by simp [ShardedDB.clearBatches, attached.length], fun idx entry found => ?_⟩
  simp only [ShardedDB.clearBatches, List.getElem?_map] at found
  obtain ⟨before, held, equal⟩ := Option.map_eq_some_iff.mp found
  rw [← equal]
  exact attached.path idx before held

theorem shardView_clearBatches (object : ShardedDB) (disk : Disk) :
    shardView object.clearBatches disk = (shardView object disk).clear := by
  simp only [shardView, ShardedDB.clearBatches, Sharded.clear, Sharded.mk.injEq, true_and]
  funext idx
  rw [List.getElem?_map]
  cases object.dbs[idx]? <;> rfl

theorem applyBatch_follows (engine : Engine) {object : ShardedDB} {disk : Disk}
    (attached : Attached object disk) (outcomes : Outcomes) :
    Follows object (object.applyBatch outcomes disk)
      (shardCall engine (shardView object disk) (.applyBatch, outcomes)) := by
  obtain ⟨ok, next, ran, success, arena, files⟩ := writeShards_spec outcomes object.dbname
    object.dbs 0 disk (by simp) (by simpa using attached.path)
  have whole : ok = true ↔ AllDone outcomes := by
    rw [success, Nat.zero_add, attached.length]
    rfl
  have view : shardView object next = (shardView object disk).apply (Written outcomes) := by
    simp only [shardView, Sharded.apply, Sharded.mk.injEq, and_true]
    funext idx
    simpa using files idx
  have kept : Attached object next := attached.congr arena
  simp only [shardCall]
  by_cases all : AllDone outcomes
  · refine ⟨object.clearBatches, next, ?_, kept.clearBatches, rfl, ?_⟩
    · simp [ShardedDB.applyBatch, ran, whole.mpr all, all, bind, Except.bind, pure, Except.pure]
    · rw [if_pos all, shardView_clearBatches, view]
  · refine ⟨object, next, ?_, kept, rfl, ?_⟩
    · have failed : ok = false := by
        rw [← Bool.not_eq_true, whole]
        exact all
      simp [ShardedDB.applyBatch, ran, failed, all, bind, Except.bind, pure, Except.pure]
    · rw [if_neg all, view]

/-- Every data operation on attached shards follows the sharded reference and never misuses
the vector or a handle. -/
theorem call_follows (engine : Engine) {object : ShardedDB} {disk : Disk}
    (attached : Attached object disk) (input : Call × Outcomes) :
    Follows object (ShardedDB.call engine (object, disk) input)
      (shardCall engine (shardView object disk) input) := by
  rcases input with ⟨request, outcomes⟩
  cases request with
  | get key => exact get_follows engine attached key outcomes
  | put key value =>
      simp only [ShardedDB.call, ShardedDB.put, shardCall]
      split
      · exact refused_follows attached
      · exact write_follows engine attached (.put key value) (outcomes 0)
          (performPut_eq engine attached key value (outcomes 0))
  | putBatch key value =>
      simp only [ShardedDB.call, ShardedDB.putBatch, shardCall]
      split
      · exact refused_follows attached
      · exact queue_follows engine attached (.put key value)
  | del key =>
      simp only [ShardedDB.call, ShardedDB.del, shardCall]
      split
      · exact refused_follows attached
      · exact write_follows engine attached (.delete key) (outcomes 0)
          (performDel_eq engine attached key (outcomes 0))
  | delBatch key =>
      simp only [ShardedDB.call, ShardedDB.delBatch, shardCall]
      split
      · exact refused_follows attached
      · exact queue_follows engine attached (.delete key)
  | applyBatch => exact applyBatch_follows engine attached outcomes

end DbBench
