import DbBench.Proof.ShardedRefinement

namespace DbBench

open KeyValue Transition

/-- The reply of a `get` without a library failure. -/
def answer (call : Machine (ShardedDB × Disk) (Call × Outcomes) Reply Misuse)
    (state : ShardedDB × Disk) (key : Bytes) : Except Misuse Reply :=
  (call state (.get key, faultless)).map Prod.fst

/-- The batch that waits at one shard. -/
def pendingAt (state : ShardedDB × Disk) (idx : Nat) : List ByteWrite :=
  (state.1.dbs[idx]?.map DB.batch).getD []

/-- Attached shards show the map that the view holds. -/
theorem answer_eq (engine : Engine) {state : ShardedDB × Disk} (attached : Attached state.1 state.2)
    (key : Bytes) : answer (ShardedDB.call engine) state key =
      .ok (shown ((shardView state.1 state.2).flatten engine.index key)) := by
  obtain ⟨next, disk, step, _⟩ := call_follows engine attached (.get key, faultless)
  have called : ShardedDB.call engine state (.get key, faultless) =
      .ok ((shardCall engine (shardView state.1 state.2) (.get key, faultless)).1, next, disk) := step
  rw [answer, called]
  rfl

/-- Every state that a run reaches from attached shards has attached shards. -/
theorem run_attached (engine : Engine) {state final : ShardedDB × Disk}
    (attached : Attached state.1 state.2) {inputs : List (Call × Outcomes)} {replies : List Reply}
    (ran : run (ShardedDB.call engine) state inputs = .ok (replies, final)) :
    Attached final.1 final.2 := by
  apply run_invariant (ShardedDB.call engine) (fun state => Attached state.1 state.2) _ attached ran
  intro state input reply next kept step
  obtain ⟨object, disk, followed, after, _⟩ := call_follows engine kept input
  have same : (reply, next) = (_, object, disk) := Except.ok.inj (step.symm.trans followed)
  rw [(Prod.mk.inj same).2]
  exact after

/-- These outcomes make the selected writes fail without an effect. -/
def losing (faults : Nat → Bool) : Outcomes := fun idx => if faults idx then .lost else .done

theorem losing_eq_done (faults : Nat → Bool) (idx : Nat) :
    losing faults idx = .done ↔ faults idx = false := by
  cases chosen : faults idx <;> simp [losing, chosen]

/-- With a first failing shard the loop writes exactly the shards before it. -/
theorem written_losing {faults : Nat → Bool} {first : Nat} (fails : faults first = true)
    (before : ∀ idx < first, faults idx = false) (idx : Nat) :
    Written (losing faults) idx ↔ idx < first := by
  constructor
  · rintro ⟨prior, kept⟩
    by_contra above
    rcases Nat.lt_or_eq_of_le (Nat.le_of_not_lt above) with less | equal
    · have good := (losing_eq_done faults first).mp (prior first less)
      rw [fails] at good
      cases good
    · subst equal
      exact kept (by simp [losing, fails])
  · intro below
    have good := (losing_eq_done faults idx).mpr (before idx below)
    refine ⟨fun earlier less => (losing_eq_done faults earlier).mpr
      (before earlier (Nat.lt_trans less below)), ?_⟩
    rw [good]
    simp

/-- Either no shard fails or some shard fails first. -/
theorem first_failure (faults : Nat → Bool) :
    AllDone (losing faults) ∨ ∃ first < shardCount, faults first = true ∧
      ∀ idx < first, faults idx = false := by
  by_cases all : AllDone (losing faults)
  · exact .inl all
  · refine .inr ?_
    have some : ∃ idx, idx < shardCount ∧ faults idx = true := by
      by_contra none
      refine all fun idx inside => (losing_eq_done faults idx).mpr ?_
      by_contra failed
      exact none ⟨idx, inside, by simpa using failed⟩
    refine ⟨Nat.find some, (Nat.find_spec some).1, (Nat.find_spec some).2, fun idx below => ?_⟩
    by_contra failed
    exact Nat.find_min some below ⟨Nat.lt_trans below (Nat.find_spec some).1, by simpa using failed⟩

/-- These are the states that data operations reach after a successful `open` of a fresh object. -/
def Reachable (opening : ShardedDB → Bytes → Outcomes → Disk → Reply × ShardedDB × Disk)
    (call : Machine (ShardedDB × Disk) (Call × Outcomes) Reply Misuse)
    (state : ShardedDB × Disk) : Prop :=
  ∃ (dbname : Bytes) (outcomes : Outcomes) (disk next : Disk) (object : ShardedDB)
    (inputs : List (Call × Outcomes)) (replies : List Reply),
    opening .fresh dbname outcomes disk = (.flag true, object, next) ∧
      run call (object, next) inputs = .ok (replies, state)

theorem Reachable.attached {engine : Engine} {state : ShardedDB × Disk}
    (reachable : Reachable (ShardedDB.open engine) (ShardedDB.call engine) state) :
    Attached state.1 state.2 := by
  obtain ⟨_, _, _, _, _, _, _, opened, ran⟩ := reachable
  exact run_attached engine (open_attached engine opened).1 ran

/-- A failing `applyBatch` keeps every answer and the whole pending batch, and a successful one
shows every pending operation and empties the batch. -/
def AllOrNothing (opening : ShardedDB → Bytes → Outcomes → Disk → Reply × ShardedDB × Disk)
    (call : Machine (ShardedDB × Disk) (Call × Outcomes) Reply Misuse) (index : Bytes → Nat) : Prop :=
  ∀ state, Reachable opening call state → ∀ faults : Nat → Bool,
    ∃ (reply : Reply) (after : ShardedDB × Disk) (content : ByteStore),
      call state (.applyBatch, losing faults) = .ok (reply, after) ∧
      (∀ key, answer call state key = .ok (shown (content key))) ∧
      (reply = .flag false → (∀ key, answer call after key = answer call state key) ∧
        ∀ idx, pendingAt after idx = pendingAt state idx) ∧
      (reply = .flag true →
        (∀ key, answer call after key =
          .ok (shown (content.writeAll (pendingAt state (index key)) key))) ∧
        ∀ idx, pendingAt after idx = [])

/-- The shards before the first failing one apply their batches, the others keep their contents,
and the whole pending batch stays. -/
def AppliesPrefix (opening : ShardedDB → Bytes → Outcomes → Disk → Reply × ShardedDB × Disk)
    (call : Machine (ShardedDB × Disk) (Call × Outcomes) Reply Misuse) (index : Bytes → Nat) : Prop :=
  ∀ state, Reachable opening call state → ∀ faults : Nat → Bool,
    ∃ (reply : Reply) (after : ShardedDB × Disk) (content : ByteStore),
      call state (.applyBatch, losing faults) = .ok (reply, after) ∧
      (∀ key, answer call state key = .ok (shown (content key))) ∧
      (reply = .flag false ∨ reply = .flag true) ∧
      (reply = .flag false → ∃ first < shardCount, faults first = true ∧
        (∀ idx < first, faults idx = false) ∧
        (∀ idx, pendingAt after idx = pendingAt state idx) ∧
        (∀ key, index key < first → answer call after key =
          .ok (shown (content.writeAll (pendingAt state (index key)) key))) ∧
        (∀ key, first ≤ index key → answer call after key = answer call state key) ∧
        ((∀ key, answer call after key = answer call state key) ↔
          ∀ key, index key < first →
            content.writeAll (pendingAt state (index key)) key = content key)) ∧
      (reply = .flag true → (∀ idx < shardCount, faults idx = false) ∧
        (∀ key, answer call after key =
          .ok (shown (content.writeAll (pendingAt state (index key)) key))) ∧
        ∀ idx, pendingAt after idx = [])

/-- A read after a partial application sees the batch of its own shard when that shard was
written. -/
theorem flatten_apply_view (engine : Engine) (state : ShardedDB × Disk) (selected : Nat → Prop)
    [DecidablePred selected] (key : Bytes) :
    ((shardView state.1 state.2).apply selected).flatten engine.index key =
      if selected (engine.index key) then
        ((shardView state.1 state.2).flatten engine.index).writeAll
          (pendingAt state (engine.index key)) key
      else (shardView state.1 state.2).flatten engine.index key := by
  by_cases chosen : selected (engine.index key)
  · rw [if_pos chosen]
    simp only [Sharded.flatten, Sharded.apply, chosen, if_true, Store.writeAll_apply]
    rfl
  · rw [if_neg chosen]
    simp only [Sharded.flatten, Sharded.apply, chosen, if_false]

theorem appliesPrefix (engine : Engine) :
    AppliesPrefix (ShardedDB.open engine) (ShardedDB.call engine) engine.index := by
  intro state reachable faults
  have attached := reachable.attached
  obtain ⟨after, final, step, kept, _, view⟩ :=
    call_follows engine attached (.applyBatch, losing faults)
  have before := answer_eq engine attached
  have later := @answer_eq engine (after, final) kept
  have pending : ∀ idx, pendingAt (after, final) idx = (shardView after final).batches idx :=
    fun _ => rfl
  refine ⟨_, (after, final), _, step, before, ?_⟩
  simp only [later, before, pending, view, shardCall]
  rcases first_failure faults with all | ⟨first, inside, fails, good⟩
  · simp only [if_pos all]
    refine ⟨.inr trivial, fun impossible => by simp at impossible, fun _ => ⟨?_, ?_, fun _ => rfl⟩⟩
    · exact fun idx below => (losing_eq_done faults idx).mp (all idx below)
    · intro key
      change Except.ok (shown (((shardView state.1 state.2).apply _).flatten engine.index key)) = _
      rw [flatten_apply_view, if_pos (all.written engine key)]
  · have failing : ¬ AllDone (losing faults) := by
      intro all
      have done := (losing_eq_done faults first).mp (all first inside)
      rw [fails] at done
      cases done
    have reads : ∀ key, ((shardView state.1 state.2).apply (Written (losing faults))).flatten
        engine.index key = if engine.index key < first then
          ((shardView state.1 state.2).flatten engine.index).writeAll
            (pendingAt state (engine.index key)) key
        else (shardView state.1 state.2).flatten engine.index key := by
      intro key
      rw [flatten_apply_view]
      simp only [written_losing fails good]
    simp only [if_neg failing, reads]
    refine ⟨.inl trivial, fun _ => ⟨first, inside, fails, good, fun _ => rfl, ?_, ?_, ?_⟩,
      fun impossible => by simp at impossible⟩
    · intro key below
      rw [if_pos below]
    · intro key above
      rw [if_neg (Nat.not_lt.mpr above)]
    · constructor
      · intro same key below
        have equal := shown_injective (Except.ok.inj (same key))
        rwa [if_pos below] at equal
      · intro same key
        split
        · rename_i below
          rw [same key below]
        · rfl

/-- LevelDB and RocksDB apply a prefix of the shards when a write fails. -/
theorem applyBatch_applies_prefix :
    AppliesPrefix LevelDB.open LevelDB.call LevelDB.engine.index ∧
      AppliesPrefix RocksDB.open RocksDB.call RocksDB.engine.index := by
  rw [LevelDB.call_eq, RocksDB.call_eq]
  exact ⟨appliesPrefix LevelDB.engine, appliesPrefix RocksDB.engine⟩

/-- An operation waits at shard 0 and one at shard 12 of a database that was empty when it was opened. -/
def queued (opening : ShardedDB → Bytes → Outcomes → Disk → Reply × ShardedDB × Disk) :
    ShardedDB × Disk :=
  (((opening .fresh [100] faultless Disk.blank).2.1.addBatch 0 (.put [1] [7])).addBatch 12
      (.put [2] [8]),
    (opening .fresh [100] faultless Disk.blank).2.2)

/-- These calls queue the two operations. -/
def queuing : List (Call × Outcomes) :=
  [(.putBatch [1] [7], faultless), (.putBatch [2] [8], faultless)]

/-- A failure at shard 1 shows the operation of shard 0 and not the one of shard 12, and both of them
wait on. -/
theorem applyBatch_applies_prefix_queued :
    ∃ after, LevelDB.call (queued LevelDB.open)
        (.applyBatch, losing fun idx => idx == 1) = .ok (.flag false, after) ∧
      answer LevelDB.call after [1] = .ok (.lookup true (some [7])) ∧
      answer LevelDB.call after [2] = .ok (.lookup false none) ∧
      ∀ idx, pendingAt after idx = pendingAt (queued LevelDB.open) idx := by
  obtain ⟨reply, after, content, step, before, replies, failed, succeeded⟩ :=
    applyBatch_applies_prefix.1 (queued LevelDB.open)
      ⟨[100], faultless, Disk.blank, _, _, queuing, [.flag true, .flag true], rfl, rfl⟩
      fun idx => idx == 1
  have refused : reply = .flag false := by
    rcases replies with refused | accepted
    · exact refused
    · exact absurd ((succeeded accepted).1 1 (by decide)) (by decide)
  obtain ⟨first, _, fails, _, pending, shows, hides, _⟩ := failed refused
  have one : first = 1 := by simpa using fails
  subst refused one
  refine ⟨after, step, ?_, ?_, pending⟩
  · rw [shows [1] (by decide)]
    rfl
  · rw [hides [2] (by decide)]
    rfl

/-- An adapter that shows part of a failed batch is not all-or-nothing. -/
theorem not_allOrNothing {opening : ShardedDB → Bytes → Outcomes → Disk → Reply × ShardedDB × Disk}
    {call : Machine (ShardedDB × Disk) (Call × Outcomes) Reply Misuse} {index : Bytes → Nat}
    (state : ShardedDB × Disk) (reachable : Reachable opening call state) (faults : Nat → Bool)
    (key : Bytes) (value : Bytes) (before : answer call state key = .ok (.lookup false none))
    (partly : (call state (.applyBatch, losing faults)).map
      (fun result => (result.1, answer call result.2 key)) =
        .ok (.flag false, .ok (.lookup true (some value)))) :
    ¬ AllOrNothing opening call index := by
  intro claim
  obtain ⟨reply, after, _, step, _, failed, _⟩ := claim state reachable faults
  rw [step] at partly
  obtain ⟨refused, visible⟩ := Prod.mk.inj (Except.ok.inj partly)
  have same := (failed refused).1 key
  rw [before] at same
  cases visible.symm.trans same

/-- A failure at shard 1 leaves the write to shard 0 visible. -/
theorem applyBatch_not_all_or_nothing :
    ¬ AllOrNothing LevelDB.open LevelDB.call LevelDB.engine.index ∧
      ¬ AllOrNothing RocksDB.open RocksDB.call RocksDB.engine.index := by
  constructor
  · apply not_allOrNothing (queued LevelDB.open)
      ⟨[100], faultless, Disk.blank, _, _, queuing, [.flag true, .flag true], rfl, rfl⟩
      (fun idx => idx == 1) [1] [7] <;> rfl
  · apply not_allOrNothing (queued RocksDB.open)
      ⟨[100], faultless, Disk.blank, _, _, queuing, [.flag true, .flag true], rfl, rfl⟩
      (fun idx => idx == 1) [1] [7] <;> rfl

/-- After any number of failed attempts the batches still hold every pending operation, and the
next successful `applyBatch` shows the map of a reference run in which the failed attempts did
nothing and the whole batch was applied once. -/
def RetryConverges (opening : ShardedDB → Bytes → Outcomes → Disk → Reply × ShardedDB × Disk)
    (call : Machine (ShardedDB × Disk) (Call × Outcomes) Reply Misuse) (index : Bytes → Nat) : Prop :=
  ∀ (dbname : Bytes) (outcomes : Outcomes) (disk next : Disk) (object : ShardedDB),
    opening .fresh dbname outcomes disk = (.flag true, object, next) →
    ∀ (inputs : List (Call × Outcomes)) (last : Outcomes),
      ∃ (replies : List Reply) (state after : ShardedDB × Disk) (reply : Reply),
        run call (object, next) inputs = .ok (replies, state) ∧
        call state (.applyBatch, last) = .ok (reply, after) ∧
        let start : FlatStore := ⟨fun key => disk.files (shardPath dbname (index key)) key, []⟩
        List.Forall₂ SameUnlessRead replies (follow flatCall start inputs).1 ∧
        (∀ idx, pendingAt state idx =
          restrict index (follow flatCall start inputs).2.pending idx) ∧
        (reply = .flag true ↔ AllDone last) ∧
        (reply = .flag true → (∀ idx, pendingAt after idx = []) ∧
          ∀ key, answer call after key = .ok (shown
            ((follow flatCall start (inputs ++ [(.applyBatch, last)])).2.store key)))

theorem retryConverges (engine : Engine) :
    RetryConverges (ShardedDB.open engine) (ShardedDB.call engine) engine.index := by
  intro dbname outcomes disk next object opened inputs last
  have shows := open_shows engine opened
  obtain ⟨replies, state, ran, agree, attached, converging⟩ :=
    run_simulation (ShardedDB.call engine) flatCall SameUnlessRead (Approaches engine)
      (fun _ => True)
      (fun state flat input _ approaches => call_approaches engine state flat input approaches)
      inputs (fun _ _ => trivial) ⟨shows.1, shows.2.converging⟩
  obtain ⟨after, final, step, kept, _, view⟩ :=
    call_follows engine attached (.applyBatch, last)
  refine ⟨replies, state, (after, final), _, ran, step, agree, converging.batches, ?_, ?_⟩
  · by_cases all : AllDone last <;> simp [shardCall, all]
  · intro succeeded
    have all : AllDone last := by
      by_contra failed
      simp [shardCall, failed] at succeeded
    have committed := converging.commit (Written last) (all.written engine)
    simp only [shardCall, if_pos all] at view
    rw [← view] at committed
    refine ⟨committed.batches, fun key => ?_⟩
    rw [@answer_eq engine (after, final) kept, follow_snoc]
    simp only [flatCall, if_pos all]
    exact congrArg (fun store : ByteStore => Except.ok (shown (store key))) committed.store

/-- Retrying a failed `applyBatch` converges for LevelDB and for RocksDB. -/
theorem applyBatch_retry_converges :
    RetryConverges LevelDB.open LevelDB.call LevelDB.engine.index ∧
      RetryConverges RocksDB.open RocksDB.call RocksDB.engine.index := by
  rw [LevelDB.call_eq, RocksDB.call_eq]
  exact ⟨retryConverges LevelDB.engine, retryConverges RocksDB.engine⟩

/-- The law covers a run in which the first attempt fails at shard 1 and a direct write follows. -/
theorem applyBatch_retry_converges_queued :
    ∃ (replies : List Reply) (state after : ShardedDB × Disk) (reply : Reply),
      run LevelDB.call (LevelDB.open .fresh [100] faultless Disk.blank).2
        [(.putBatch [1] [7], faultless), (.applyBatch, losing fun idx => idx == 1),
          (.del [1], faultless)] = .ok (replies, state) ∧
      LevelDB.call state (.applyBatch, faultless) = .ok (reply, after) ∧
      answer LevelDB.call after [1] = .ok (.lookup true (some [7])) := by
  obtain ⟨replies, state, after, reply, ran, step, _, _, success, shows⟩ :=
    applyBatch_retry_converges.1 [100] faultless Disk.blank _ _ rfl
      [(.putBatch [1] [7], faultless), (.applyBatch, losing fun idx => idx == 1),
        (.del [1], faultless)] faultless
  refine ⟨replies, state, after, reply, ran, step, ?_⟩
  rw [(shows (success.mpr fun _ _ => rfl)).2 [1]]
  rfl

end DbBench
