import DbBench.Construction.ShardedThreads
import DbBench.Proof.ApplyBatch

namespace DbBench

open KeyValue Transition

/-- The status of the call's own library call, from that call on. -/
def Stage.own : Stage → Option Status
  | .ready => none
  | .performed own _ => some own
  | .returned _ own => own

/-- Every call that returned after a library call reports the success of its own library call,
and a `get` that returned true delivered a value. -/
def ReportsOwn {ι : Type} (threads : ShardedThreads ι) : Prop :=
  ∀ i reply own, threads.stage i = .returned reply (some own) →
    reply.ok = own.isOk ∧ ∀ value, reply = .lookup true value → value.isSome = true

/-- When a call reads the status of its shard, the latest library call on the shard has
succeeded or failed as its own did. -/
def UndisturbedAt {ι : Type} (engine : Engine) (calls : ι → ThreadCall)
    (threads : ShardedThreads ι) (i : ι) : Prop :=
  ∀ own value, threads.stage i = .performed own value →
    ∀ j other, threads.latest (engine.index (calls i).key) = some j →
      (threads.stage j).own = some other → other.isOk = own.isOk

/-- On attached shards the library call of a call stores its status in the shard of its key, and
a lookup that succeeds delivers a value. -/
theorem perform_eq (engine : Engine) {object : ShardedDB} {disk : Disk}
    (attached : Attached object disk) (call : ThreadCall) (outcome : Outcome) :
    ∃ status value after, object.perform engine call outcome disk =
        .ok (value, object.setStatus (engine.index call.key) status, after) ∧
      after.arena = disk.arena ∧
      (∀ key, call = .get key → status.isOk = true → value.isSome = true) := by
  cases call with
  | get key =>
      refine ⟨_, _, disk, performGet_eq engine attached key outcome, rfl, fun _ _ found => ?_⟩
      cases outcome with
      | done =>
          cases answer : (shardView object disk).flatten engine.index key with
          | some value => rfl
          | none => simp [readStatus, answer, Status.isOk] at found
      | lost => simp [readStatus, Status.isOk] at found
      | late => simp [readStatus, Status.isOk] at found
  | put key value =>
      refine ⟨writeStatus outcome, none,
        disk.written (shardPath object.dbname (engine.index key)) [.put key value] outcome, ?_,
        written_arena disk _ _ _, by rintro _ ⟨⟩⟩
      simp only [ShardedDB.perform, performPut_eq engine attached, bind, Except.bind, pure,
        Except.pure, ThreadCall.key]
  | del key =>
      refine ⟨writeStatus outcome, none,
        disk.written (shardPath object.dbname (engine.index key)) [.delete key] outcome, ?_,
        written_arena disk _ _ _, by rintro _ ⟨⟩⟩
      simp only [ShardedDB.perform, performDel_eq engine attached, bind, Except.bind, pure,
        Except.pure, ThreadCall.key]

theorem setStatus_self {object : ShardedDB} {idx : Nat} {entry : DB}
    (found : object.dbs[idx]? = some entry) (status : Status) :
    (object.setStatus idx status).dbs[idx]? = some {entry with status := status} := by
  simp [ShardedDB.setStatus, found]

theorem setStatus_of_ne (object : ShardedDB) {idx other : Nat} (status : Status)
    (different : other ≠ idx) : (object.setStatus idx status).dbs[other]? = object.dbs[other]? := by
  simp [ShardedDB.setStatus, Ne.symm different]

theorem answered_ok (call : ThreadCall) (ok : Bool) (value : Option Bytes) :
    (call.answered ok value).ok = ok := by
  cases call <;> rfl

section
variable {ι : Type}

/-- The shards are attached, and the status of a shard is that of its latest library call. -/
structure Traced (engine : Engine) (calls : ι → ThreadCall) (threads : ShardedThreads ι) : Prop where
  attached : Attached threads.object threads.disk
  latest : ∀ idx j, threads.latest idx = some j → ∃ entry, threads.object.dbs[idx]? = some entry ∧
    (threads.stage j).own = some entry.status
  reached : ∀ i own value, threads.stage i = .performed own value →
    (∃ j, threads.latest (engine.index (calls i).key) = some j) ∧
      ∀ key, calls i = .get key → own.isOk = true → value.isSome = true
  reports : ReportsOwn threads

theorem Traced.start (engine : Engine) (calls : ι → ThreadCall) {state : ShardedDB × Disk}
    (attached : Attached state.1 state.2) :
    Traced engine calls (ShardedThreads.start ι state) :=
  ⟨attached, nofun, nofun, nofun⟩

/-- A call that is still ready is not the latest caller of a shard. -/
theorem Traced.ne_of_ready {engine : Engine} {calls : ι → ThreadCall} {threads : ShardedThreads ι}
    (traced : Traced engine calls threads) {i j : ι} (ready : threads.stage i = .ready) {idx : Nat}
    (caller : threads.latest idx = some j) : j ≠ i := by
  rintro rfl
  obtain ⟨entry, _, own⟩ := traced.latest idx j caller
  rw [ready] at own
  cases own

variable [DecidableEq ι]

/-- A refused call leaves the traces of the others. -/
theorem Traced.refuse {engine : Engine} {calls : ι → ThreadCall} {threads : ShardedThreads ι}
    (traced : Traced engine calls threads) {i : ι} (ready : threads.stage i = .ready) :
    Traced engine calls
      {threads with stage := Function.update threads.stage i (.returned (.flag false) none)} := by
  refine ⟨traced.attached, fun idx j caller => ?_, fun j own value performed => ?_,
    fun j reply own returned => ?_⟩
  · simp only [Function.update_of_ne (traced.ne_of_ready ready caller)]
    exact traced.latest idx j caller
  · by_cases same : j = i
    · subst same
      simp at performed
    · simp only [Function.update_of_ne same] at performed
      exact traced.reached j own value performed
  · by_cases same : j = i
    · subst same
      simp at returned
    · simp only [Function.update_of_ne same] at returned
      exact traced.reports j reply own returned

/-- A library call makes its caller the latest one of the shard. -/
theorem Traced.perform {engine : Engine} {calls : ι → ThreadCall} {threads : ShardedThreads ι}
    (traced : Traced engine calls threads) {i : ι} (ready : threads.stage i = .ready)
    (status : Status) (value : Option Bytes) {after : Disk}
    (arena : after.arena = threads.disk.arena)
    (delivers : ∀ key, calls i = .get key → status.isOk = true → value.isSome = true) :
    Traced engine calls ⟨threads.object.setStatus (engine.index (calls i).key) status, after,
      Function.update threads.stage i (.performed status value),
      Function.update threads.latest (engine.index (calls i).key) (some i)⟩ := by
  refine ⟨(traced.attached.congr arena).setStatus _ _, fun idx j caller => ?_,
    fun j own given performed => ?_, fun j reply own returned => ?_⟩
  · by_cases here : idx = engine.index (calls i).key
    · subst here
      simp only [Function.update_self, Option.some.injEq] at caller
      subst caller
      obtain ⟨entry, found, _, _⟩ := traced.attached.entry engine (calls i).key
      exact ⟨_, setStatus_self found status, by simp [Stage.own]⟩
    · simp only [Function.update_of_ne here] at caller
      obtain ⟨entry, found, own⟩ := traced.latest idx j caller
      refine ⟨entry, (setStatus_of_ne _ _ here).trans found, ?_⟩
      simp only [Function.update_of_ne (traced.ne_of_ready ready caller)]
      exact own
  · by_cases same : j = i
    · subst same
      simp only [Function.update_self, Stage.performed.injEq] at performed
      obtain ⟨equal, equal'⟩ := performed
      subst equal equal'
      exact ⟨⟨j, Function.update_self _ _ _⟩, delivers⟩
    · simp only [Function.update_of_ne same] at performed
      obtain ⟨⟨caller, known⟩, gives⟩ := traced.reached j own given performed
      refine ⟨?_, gives⟩
      by_cases here : engine.index (calls j).key = engine.index (calls i).key
      · exact ⟨i, by rw [here]; exact Function.update_self _ _ _⟩
      · exact ⟨caller, (Function.update_of_ne here _ _).trans known⟩
  · by_cases same : j = i
    · subst same
      simp at returned
    · simp only [Function.update_of_ne same] at returned
      exact traced.reports j reply own returned

/-- A call reads the status of the latest library call on its shard. -/
theorem Traced.read_eq {engine : Engine} {calls : ι → ThreadCall} (outcomes : ι → Outcome)
    {threads : ShardedThreads ι} (traced : Traced engine calls threads) {i : ι} {own : Status}
    {value : Option Bytes} (performed : threads.stage i = .performed own value) :
    ∃ j other, threads.latest (engine.index (calls i).key) = some j ∧
      (threads.stage j).own = some other ∧
      ShardedDB.schedule engine calls outcomes threads i = .ok ((), {threads with
        stage := Function.update threads.stage i
          (.returned ((calls i).answered other.isOk value) (some own)) }) := by
  obtain ⟨⟨j, caller⟩, _⟩ := traced.reached i own value performed
  obtain ⟨entry, found, latest⟩ := traced.latest _ j caller
  refine ⟨j, entry.status, caller, latest, ?_⟩
  simp only [ShardedDB.schedule, performed, ShardedDB.statusOk, ShardedDB.entry, found, bind,
    Except.bind, pure, Except.pure]

/-- A read of a status that agrees with the call's own keeps every report right. -/
theorem Traced.read {engine : Engine} {calls : ι → ThreadCall} {threads : ShardedThreads ι}
    (traced : Traced engine calls threads) {i : ι} {own : Status} {value : Option Bytes}
    (performed : threads.stage i = .performed own value) {ok : Bool} (agrees : ok = own.isOk) :
    Traced engine calls {threads with
      stage := Function.update threads.stage i
        (.returned ((calls i).answered ok value) (some own)) } := by
  refine ⟨traced.attached, fun idx j caller => ?_, fun j other given other' => ?_,
    fun j reply other returned => ?_⟩
  · obtain ⟨entry, found, latest⟩ := traced.latest idx j caller
    refine ⟨entry, found, ?_⟩
    by_cases same : j = i
    · subst same
      rw [performed] at latest
      simpa [Stage.own] using latest
    · simp only [Function.update_of_ne same]
      exact latest
  · by_cases same : j = i
    · subst same
      simp at other'
    · simp only [Function.update_of_ne same] at other'
      exact traced.reached j other given other'
  · by_cases same : j = i
    · subst same
      simp only [Function.update_self, Stage.returned.injEq, Option.some.injEq] at returned
      obtain ⟨equal, equal'⟩ := returned
      subst equal equal'
      refine ⟨by rw [answered_ok, agrees], fun given found => ?_⟩
      have delivers := (traced.reached j own value performed).2
      cases call : calls j with
      | get key =>
          rw [call] at found
          obtain ⟨good, same⟩ := Reply.lookup.inj found
          rw [← same]
          exact delivers key call (agrees ▸ good)
      | put key value => simp [call, ThreadCall.answered] at found
      | del key => simp [call, ThreadCall.answered] at found
    · simp only [Function.update_of_ne same] at returned
      exact traced.reports j reply other returned

/-- A step that reads an agreeing status, or reads none, keeps the traces. -/
theorem schedule_traced (engine : Engine) (calls : ι → ThreadCall) (outcomes : ι → Outcome)
    (threads : ShardedThreads ι) (i : ι) (traced : Traced engine calls threads)
    (undisturbed : UndisturbedAt engine calls threads i) :
    Ends (Traced engine calls) (fun _ => False)
      (ShardedDB.schedule engine calls outcomes threads i) := by
  cases stage : threads.stage i with
  | ready =>
      cases refused : (calls i).refused with
      | true =>
          simp only [ShardedDB.schedule, stage, refused, if_true, pure, Except.pure]
          exact traced.refuse stage
      | false =>
          obtain ⟨status, value, after, ran, arena, delivers⟩ :=
            perform_eq engine traced.attached (calls i) (outcomes i)
          obtain ⟨entry, found, _, _⟩ := traced.attached.entry engine (calls i).key
          have stored := setStatus_self found status
          simp only [ShardedDB.schedule, stage, refused, ran, ShardedDB.entry, stored, bind,
            Except.bind, pure, Except.pure]
          exact traced.perform stage status value arena delivers
  | performed own value =>
      obtain ⟨j, other, caller, latest, step⟩ := traced.read_eq outcomes stage
      rw [step]
      exact traced.read stage (undisturbed own value stage j other caller latest)
  | returned reply own =>
      simp only [ShardedDB.schedule, stage, pure, Except.pure]
      exact traced

/-- A step that reads a status which disagrees with the call's own gives a wrong report. -/
theorem schedule_misreports (engine : Engine) (calls : ι → ThreadCall) (outcomes : ι → Outcome)
    (threads : ShardedThreads ι) (i : ι) (traced : Traced engine calls threads)
    (disturbed : ¬ UndisturbedAt engine calls threads i) :
    Ends (fun next => ¬ ReportsOwn next) (fun _ => ¬ False)
      (ShardedDB.schedule engine calls outcomes threads i) := by
  simp only [UndisturbedAt, Classical.not_forall] at disturbed
  obtain ⟨own, value, performed, j, other, caller, latest, different⟩ := disturbed
  obtain ⟨j', other', caller', latest', step⟩ := traced.read_eq outcomes performed
  rw [step]
  intro reports
  have same := (reports i _ own (Function.update_self _ _ _)).1
  rw [caller, Option.some.injEq] at caller'
  subst caller'
  rw [latest, Option.some.injEq] at latest'
  subst latest'
  rw [answered_ok] at same
  exact different same

end

/-- Every call of a schedule reports its own outcome, and none misuses the vector or a handle. -/
def ReportsThroughout {ι : Type} [DecidableEq ι] (engine : Engine) (calls : ι → ThreadCall)
    (outcomes : ι → Outcome) (state : ShardedDB × Disk) (schedule : List ι) : Prop :=
  Throughout (ShardedDB.schedule engine calls outcomes) ReportsOwn (fun _ => False)
    (ShardedThreads.start ι state) schedule

/-- From every reachable state and in every schedule, calls report their own outcomes. -/
def AlwaysReportsOwn (opening : ShardedDB → Bytes → Outcomes → Disk → Reply × ShardedDB × Disk)
    (call : Machine (ShardedDB × Disk) (Call × Outcomes) Reply Misuse) (engine : Engine) : Prop :=
  ∀ (ι : Type) [DecidableEq ι] (calls : ι → ThreadCall) (outcomes : ι → Outcome)
    (state : ShardedDB × Disk), Reachable opening call state → ∀ schedule : List ι,
    ReportsThroughout engine calls outcomes state schedule

/-- Every read of a status in the schedule is undisturbed. -/
def UndisturbedThroughout {ι : Type} [DecidableEq ι] (engine : Engine) (calls : ι → ThreadCall)
    (outcomes : ι → Outcome) (state : ShardedDB × Disk) (schedule : List ι) : Prop :=
  Along (ShardedDB.schedule engine calls outcomes) (UndisturbedAt engine calls)
    (ShardedThreads.start ι state) schedule

theorem reportsThroughout_iff (engine : Engine) {ι : Type} [DecidableEq ι]
    (calls : ι → ThreadCall) (outcomes : ι → Outcome) (schedule : List ι)
    {state : ShardedDB × Disk}
    (reachable : Reachable (ShardedDB.open engine) (ShardedDB.call engine) state) :
    ReportsThroughout engine calls outcomes state schedule ↔
      UndisturbedThroughout engine calls outcomes state schedule :=
  throughout_iff_along (ShardedDB.schedule engine calls outcomes)
    (fun _ traced => Traced.reports traced) (schedule_traced engine calls outcomes)
    (schedule_misreports engine calls outcomes)
    (Traced.start engine calls reachable.attached)

/-- Concurrent LevelDB calls and concurrent RocksDB calls report their own outcomes exactly when
no call reads the status of a library call that ended otherwise than its own. -/
theorem calls_report_own_iff {ι : Type} [DecidableEq ι] (calls : ι → ThreadCall)
    (outcomes : ι → Outcome) (schedule : List ι) (state : ShardedDB × Disk) :
    (Reachable LevelDB.open LevelDB.call state →
      (ReportsThroughout LevelDB.engine calls outcomes state schedule ↔
        UndisturbedThroughout LevelDB.engine calls outcomes state schedule)) ∧
      (Reachable RocksDB.open RocksDB.call state →
        (ReportsThroughout RocksDB.engine calls outcomes state schedule ↔
          UndisturbedThroughout RocksDB.engine calls outcomes state schedule)) := by
  rw [LevelDB.call_eq, RocksDB.call_eq]
  exact ⟨reportsThroughout_iff LevelDB.engine calls outcomes schedule,
    reportsThroughout_iff RocksDB.engine calls outcomes schedule⟩

/-- A `get` of an absent key and a `put` of another key of its shard. -/
def sameShard : Bool → ThreadCall
  | false => .get [1]
  | true => .put [14] [7]

/-- The database was empty when it was opened. -/
def openedBlank (opening : ShardedDB → Bytes → Outcomes → Disk → Reply × ShardedDB × Disk) :
    ShardedDB × Disk :=
  (opening .fresh [100] faultless Disk.blank).2

/-- A `get` of an absent key and a `put` in another shard. -/
def otherShard : Bool → ThreadCall
  | false => .get [1]
  | true => .put [2] [7]

/-- Two calls that overlap in different shards report their own outcomes. -/
theorem calls_report_own_iff_apart :
    ReportsThroughout LevelDB.engine otherShard (fun _ => .done) (openedBlank LevelDB.open)
      [false, true, false, true] := by
  refine ((calls_report_own_iff otherShard (fun _ => .done) [false, true, false, true]
    (openedBlank LevelDB.open)).1 ⟨[100], faultless, Disk.blank, _, _, [], [], rfl, rfl⟩).mpr ?_
  refine ⟨nofun, nofun, ?_, ?_, trivial⟩ <;>
  · intro own value performed j other caller latest
    cases performed
    cases caller
    cases latest
    rfl

/-- A `put` that reaches the shard between the two steps of a `get` makes the `get` of an absent
key return true. -/
theorem calls_misreport :
    ¬ AlwaysReportsOwn LevelDB.open LevelDB.call LevelDB.engine ∧
      ¬ AlwaysReportsOwn RocksDB.open RocksDB.call RocksDB.engine := by
  constructor
  · intro claim
    have reports := claim Bool sameShard (fun _ => .done) (openedBlank LevelDB.open)
      ⟨[100], faultless, Disk.blank, _, _, [], [], rfl, rfl⟩ [false, true, false]
    have wrong : true = false := (reports.2.2.2 false _ _ rfl).1
    cases wrong
  · intro claim
    have reports := claim Bool sameShard (fun _ => .done) (openedBlank RocksDB.open)
      ⟨[100], faultless, Disk.blank, _, _, [], [], rfl, rfl⟩ [false, true, false]
    have wrong : true = false := (reports.2.2.2 false _ _ rfl).1
    cases wrong

end DbBench
