import DbBench.Construction.RedisThreads
import DbBench.Proof.Interchange

namespace DbBench

open KeyValue Transition

/-- The operation is between `lock` and `unlock`. -/
def RedisPhase.inside : RedisPhase → Bool
  | .locked _ => true
  | .performed _ => true
  | _ => false

/-- The thread is in no operation. -/
def RedisPhase.outside : RedisPhase → Bool
  | .idle => true
  | .finished _ => true
  | _ => false

/-- A finished operation does not own the mutex, and whoever owns it is about to unlock it. -/
structure Released {ι : Type} (threads : RedisThreads ι) : Prop where
  finished : ∀ i, (threads.phase i).outside = true → threads.owner ≠ some i
  held : threads.object.mtx = true →
    ∃ i, threads.owner = some i ∧ (threads.phase i).inside = true

/-- The library call of this step does not throw. -/
def NoThrow {ι : Type} (threads : RedisThreads ι) : RedisStep ι → Prop
  | .issue _ _ => True
  | .advance i throws => (∃ operation, threads.phase i = .locked operation) → throws = false

/-- The mutex is taken exactly while its owner is between `lock` and `unlock`. -/
structure Guarded {ι : Type} (threads : RedisThreads ι) : Prop where
  client : threads.server.client threads.object.redis = .ok ()
  owner : ∀ i, threads.owner = some i ↔ (threads.phase i).inside = true
  mtx : threads.object.mtx = threads.owner.isSome

theorem Guarded.released {ι : Type} {threads : RedisThreads ι} (guarded : Guarded threads) :
    Released threads := by
  constructor
  · intro i outside owns
    have inside := (guarded.owner i).mp owns
    cases phase : threads.phase i <;> simp [phase, RedisPhase.outside, RedisPhase.inside] at outside inside
  · intro taken
    rw [guarded.mtx] at taken
    obtain ⟨i, owns⟩ := Option.isSome_iff_exists.mp taken
    exact ⟨i, owns, (guarded.owner i).mp owns⟩

/-- The mutex is taken and no thread is there to give it back. -/
def Stuck {ι : Type} (threads : RedisThreads ι) : Prop :=
  threads.object.mtx = true ∧ ∀ i, (threads.phase i).inside = false

theorem Stuck.not_released {ι : Type} {threads : RedisThreads ι} (stuck : Stuck threads) :
    ¬ Released threads := by
  intro released
  obtain ⟨i, _, inside⟩ := released.held stuck.1
  rw [stuck.2 i] at inside
  cases inside

/-- A library call keeps every client. -/
theorem RedisServer.perform_client (server : RedisServer) (operation : Operation)
    (redis : Option Nat) : (server.perform operation).2.client redis = server.client redis := by
  cases operation with
  | call request => cases request <;> rfl
  | clear => rfl

section
variable {ι : Type} [DecidableEq ι] {threads : RedisThreads ι}

/-- A step outside of the section keeps the owner. -/
theorem Guarded.setPhase (guarded : Guarded threads) {i : ι} {phase : RedisPhase}
    (outside : (threads.phase i).inside = false) (stays : phase.inside = false) :
    Guarded (threads.setPhase i phase) := by
  refine ⟨guarded.client, fun j => ?_, guarded.mtx⟩
  have before := guarded.owner j
  by_cases same : j = i
  · subst same
    simp only [RedisThreads.setPhase, Function.update_self, stays]
    rwa [outside] at before
  · simpa only [RedisThreads.setPhase, Function.update_of_ne same] using before

/-- A thread that locks a free mutex becomes its owner. -/
theorem Guarded.lock (guarded : Guarded threads) {i : ι} (operation : Operation) :
    Guarded (threads.lock i operation) := by
  cases taken : threads.object.mtx with
  | true =>
      have waits : threads.lock i operation = threads := by
        simp [RedisThreads.lock, RedisDB.lock, taken]
      rw [waits]
      exact guarded
  | false =>
      have free : threads.owner = none := by
        have same := guarded.mtx
        rw [taken] at same
        exact Option.not_isSome_iff_eq_none.mp (by rw [← same]; decide)
      have locks : threads.lock i operation =
          {threads with
            object := {threads.object with mtx := true}
            owner := some i }.setPhase i (.locked operation) := by
        simp [RedisThreads.lock, RedisDB.lock, taken]
      rw [locks]
      refine ⟨guarded.client, fun j => ?_, rfl⟩
      have before := guarded.owner j
      rw [free] at before
      by_cases same : j = i
      · subst same
        simp [RedisThreads.setPhase, RedisPhase.inside]
      · simp only [RedisThreads.setPhase, Function.update_of_ne same, Option.some.injEq, ← before]
        simp [Ne.symm same]

/-- A library call that returns leaves its thread inside the section. -/
theorem Guarded.perform (guarded : Guarded threads) {i : ι} {operation : Operation}
    (phase : threads.phase i = .locked operation) :
    ∃ next, threads.perform i operation false = .ok next ∧ Guarded next := by
  have inside : (threads.phase i).inside = true := by rw [phase]; rfl
  refine ⟨{threads with server := (threads.server.perform operation).2}.setPhase i
    (.performed (threads.server.perform operation).1), ?_, ?_, fun j => ?_, guarded.mtx⟩
  · simp [RedisThreads.perform, guarded.client, bind, Except.bind, pure, Except.pure]
  · exact (RedisServer.perform_client _ _ _).trans guarded.client
  · have before := guarded.owner j
    by_cases same : j = i
    · subst same
      rw [inside] at before
      simpa only [RedisThreads.setPhase, Function.update_self, RedisPhase.inside] using before
    · simpa only [RedisThreads.setPhase, Function.update_of_ne same] using before

/-- The owner gives the mutex back. -/
theorem Guarded.unlock (guarded : Guarded threads) {i : ι} {reply : Reply}
    (phase : threads.phase i = .performed reply) : Guarded (threads.unlock i reply) := by
  have owns : threads.owner = some i := (guarded.owner i).mpr (by rw [phase]; rfl)
  refine ⟨guarded.client, fun j => ?_, rfl⟩
  have before := guarded.owner j
  rw [owns] at before
  by_cases same : j = i
  · subst same
    simp [RedisThreads.unlock, RedisThreads.setPhase, RedisPhase.inside]
  · simp only [RedisThreads.unlock, RedisThreads.setPhase, Function.update_of_ne same, ← before,
      Option.some.injEq]
    simp [Ne.symm same]

/-- A step leaves everything as it is, moves a thread outside of the section, or takes one of the
three steps of the section. -/
inductive Moves (threads : RedisThreads ι) :
    RedisStep ι → Except Misuse (Unit × RedisThreads ι) → Prop where
  | stays (input : RedisStep ι) : Moves threads input (.ok ((), threads))
  | outside {i : ι} {phase : RedisPhase} (input : RedisStep ι)
      (before : (threads.phase i).inside = false) (after : phase.inside = false) :
      Moves threads input (.ok ((), threads.setPhase i phase))
  | locks (i : ι) (throws : Bool) (operation : Operation) :
      Moves threads (.advance i throws) (.ok ((), threads.lock i operation))
  | performs {i : ι} (throws : Bool) {operation : Operation}
      (phase : threads.phase i = .locked operation) : Moves threads (.advance i throws)
        ((threads.perform i operation throws).map fun next => ((), next))
  | unlocks {i : ι} (throws : Bool) {reply : Reply} (phase : threads.phase i = .performed reply) :
      Moves threads (.advance i throws) (.ok ((), threads.unlock i reply))

theorem schedule_moves (threads : RedisThreads ι) (input : RedisStep ι) :
    Moves threads input (RedisDB.schedule threads input) := by
  cases input with
  | issue i operation =>
      cases phase : threads.phase i <;> simp only [RedisDB.schedule, phase]
      · exact .outside _ (by rw [phase]; rfl) rfl
      · exact .stays _
      · exact .stays _
      · exact .stays _
      · exact .outside _ (by rw [phase]; rfl) rfl
  | advance i throws =>
      cases phase : threads.phase i with
      | idle =>
          simp only [RedisDB.schedule, phase]
          exact .stays _
      | called operation =>
          have outside : (threads.phase i).inside = false := by rw [phase]; rfl
          cases operation with
          | call request =>
              cases request <;> simp only [RedisDB.schedule, phase]
              case applyBatch => exact .outside _ outside rfl
              all_goals exact .locks i throws _
          | clear =>
              simp only [RedisDB.schedule, phase]
              exact .locks i throws .clear
      | locked operation =>
          simp only [RedisDB.schedule, phase]
          exact .performs throws phase
      | performed reply =>
          simp only [RedisDB.schedule, phase]
          exact .unlocks throws phase
      | finished reply =>
          simp only [RedisDB.schedule, phase]
          exact .stays _

/-- Every operation but `applyBatch` begins with `lock`. -/
theorem RedisDB.schedule_locks (throws : Bool) {i : ι} {operation : Operation}
    (phase : threads.phase i = .called operation) (locks : operation ≠ .call .applyBatch) :
    RedisDB.schedule threads (.advance i throws) = .ok ((), threads.lock i operation) := by
  cases operation with
  | call request =>
      cases request with
      | applyBatch => exact absurd rfl locks
      | _ => simp only [RedisDB.schedule, phase]
  | clear => simp only [RedisDB.schedule, phase]

/-- Every step whose library call does not throw keeps the mutex guarded. -/
theorem Guarded.step (guarded : Guarded threads) (input : RedisStep ι)
    (returns : NoThrow threads input) :
    Ends Guarded (fun _ => False) (RedisDB.schedule threads input) := by
  generalize result : RedisDB.schedule threads input = reached
  have moves := schedule_moves threads input
  rw [result] at moves
  cases moves with
  | stays => exact guarded
  | outside _ before after => exact guarded.setPhase before after
  | locks i throws operation => exact guarded.lock operation
  | performs throws phase =>
      have quiet : throws = false := returns ⟨_, phase⟩
      subst quiet
      obtain ⟨next, performed, kept⟩ := guarded.perform phase
      rw [performed]
      exact kept
  | unlocks throws phase => exact guarded.unlock phase

/-- A library call that throws finishes its operation with the mutex in its hands. -/
theorem Guarded.stuck (guarded : Guarded threads) {i : ι} {operation : Operation}
    (phase : threads.phase i = .locked operation) :
    ∃ next, threads.perform i operation true = .ok next ∧ Stuck next := by
  have owns : threads.owner = some i := (guarded.owner i).mpr (by rw [phase]; rfl)
  refine ⟨threads.setPhase i (.finished .threw), ?_, ?_, fun j => ?_⟩
  · simp [RedisThreads.perform, guarded.client, bind, Except.bind, pure, Except.pure]
  · have taken := guarded.mtx
    rw [owns] at taken
    exact taken
  · by_cases same : j = i
    · subst same
      simp [RedisThreads.setPhase, RedisPhase.inside]
    · simp only [RedisThreads.setPhase, Function.update_of_ne same]
      rw [← Bool.not_eq_true, ← guarded.owner j, owns]
      intro equal
      exact same (Option.some.inj equal).symm

/-- A step whose library call throws breaks the property at once. -/
theorem Guarded.throws (guarded : Guarded threads) (input : RedisStep ι)
    (throwing : ¬ NoThrow threads input) :
    Ends (fun next => ¬ Released next) (fun _ => ¬ False) (RedisDB.schedule threads input) := by
  cases input with
  | issue i operation => exact absurd trivial throwing
  | advance i throws =>
      simp only [NoThrow, not_forall] at throwing
      obtain ⟨⟨operation, phase⟩, raised⟩ := throwing
      have raised : throws = true := by simpa using raised
      subst raised
      obtain ⟨next, performed, stuck⟩ := guarded.stuck phase
      simp only [RedisDB.schedule, phase, performed, bind, Except.bind, pure, Except.pure, Ends]
      exact stuck.not_released

/-- Once the mutex is stuck, no later operation acquires it. -/
theorem Stuck.run {final : RedisThreads ι} {inputs : List (RedisStep ι)} {outputs : List Unit}
    (stuck : Stuck threads)
    (ran : Transition.run RedisDB.schedule threads inputs = .ok (outputs, final)) : Stuck final := by
  apply run_invariant RedisDB.schedule Stuck _ stuck ran
  intro state input output next stuck step
  obtain ⟨taken, left⟩ := stuck
  generalize result : RedisDB.schedule state input = reached at step
  have moves := schedule_moves state input
  rw [result] at moves
  cases moves with
  | stays =>
      cases step
      exact ⟨taken, left⟩
  | outside _ before after =>
      cases step
      refine ⟨taken, fun j => ?_⟩
      simp only [RedisThreads.setPhase, Function.update_apply]
      split
      · exact after
      · exact left j
  | locks i throws operation =>
      have waits : state.lock i operation = state := by
        simp [RedisThreads.lock, RedisDB.lock, taken]
      rw [waits] at step
      cases step
      exact ⟨taken, left⟩
  | @performs i throws operation phase =>
      have inside := left i
      rw [phase] at inside
      cases inside
  | @unlocks i throws reply phase =>
      have inside := left i
      rw [phase] at inside
      cases inside

/-- A free adapter with a live client performs its library call between `lock` and `unlock`. -/
theorem RedisDB.operate_eq {object : RedisDB} {server : RedisServer}
    (serving : Serving object server) {operation : Operation}
    (locks : operation ≠ .call .applyBatch) (throws : Bool) :
    RedisDB.operate (object, server) (operation, throws) = .ok
      (if throws then (.threw, {object with mtx := true}, server)
      else ((server.perform operation).1, object, (server.perform operation).2)) := by
  obtain ⟨isOpen, redis, mtx⟩ := object
  obtain ⟨free, client⟩ := serving
  simp only at free client
  subst free
  cases operation with
  | call request =>
      cases request with
      | get key =>
          cases throws <;> cases held : server.data key <;>
            simp [RedisDB.operate, RedisDB.call, RedisDB.get, RedisDB.lock, RedisDB.unlock, client,
              RedisServer.perform, shown, held, bind, Except.bind, pure, Except.pure]
      | applyBatch => exact absurd rfl locks
      | _ =>
          cases throws <;>
            simp [RedisDB.operate, RedisDB.call, RedisDB.putBatch, RedisDB.put, RedisDB.delBatch,
              RedisDB.del, RedisDB.lock, RedisDB.unlock, client, RedisServer.perform, bind,
              Except.bind, pure, Except.pure]
  | clear =>
      cases throws <;>
        simp [RedisDB.operate, RedisDB.clear, RedisDB.lock, RedisDB.unlock, client,
          RedisServer.perform, bind, Except.bind, pure, Except.pure]

/-- A thread inside the section finishes with the mutex unlocked, or taken after an exception. -/
theorem schedule_section (client : threads.server.client threads.object.redis = .ok ()) {i : ι}
    {operation : Operation} (phase : threads.phase i = .locked operation) (throws : Bool) :
    ∃ outputs final, Transition.run RedisDB.schedule threads [.advance i throws, .advance i false] =
        .ok (outputs, final) ∧
      final.object = (if throws then threads.object else threads.object.unlock) ∧
      final.server = (if throws then threads.server else (threads.server.perform operation).2) ∧
      final.phase i =
        .finished (if throws then .threw else (threads.server.perform operation).1) := by
  cases throws with
  | true =>
      refine ⟨[(), ()], threads.setPhase i (.finished .threw), ?_, rfl, rfl, ?_⟩
      · simp [Transition.run, RedisDB.schedule, phase, RedisThreads.perform, client,
          RedisThreads.setPhase, bind, Except.bind, pure, Except.pure]
      · simp [RedisThreads.setPhase]
  | false =>
      refine ⟨[(), ()], ({threads with server := (threads.server.perform operation).2}.setPhase i
        (.performed (threads.server.perform operation).1)).unlock i
          (threads.server.perform operation).1, ?_, rfl, rfl, ?_⟩
      · simp [Transition.run, RedisDB.schedule, phase, RedisThreads.perform, client,
          RedisThreads.setPhase, bind, Except.bind, pure, Except.pure]
      · simp [RedisThreads.unlock, RedisThreads.setPhase]

/-- One thread alone performs an operation as the sequential adapter does. -/
theorem schedule_sequential (serving : Serving threads.object threads.server) {i : ι}
    (idle : threads.phase i = .idle) {operation : Operation}
    (locks : operation ≠ .call .applyBatch) (throws : Bool) :
    ∃ reply object server outputs final,
      RedisDB.operate (threads.object, threads.server) (operation, throws) =
        .ok (reply, object, server) ∧
      Transition.run RedisDB.schedule threads [.issue i operation, .advance i false,
        .advance i throws, .advance i false] = .ok (outputs, final) ∧
      final.object = object ∧ final.server = server ∧ final.phase i = .finished reply := by
  have issued : RedisDB.schedule threads (.issue i operation) =
      .ok ((), threads.setPhase i (.called operation)) := by
    simp only [RedisDB.schedule, idle]
  have called : (threads.setPhase i (.called operation)).phase i = .called operation :=
    Function.update_self _ _ _
  have locked := RedisDB.schedule_locks false called locks
  generalize entered : (threads.setPhase i (.called operation)).lock i operation = next at locked
  have free := serving.free
  have within : next.object = {threads.object with mtx := true} ∧ next.server = threads.server ∧
      next.phase i = .locked operation := by
    rw [← entered]
    simp [RedisThreads.lock, RedisThreads.setPhase, RedisDB.lock, free]
  obtain ⟨object, server, phase⟩ := within
  have client : next.server.client next.object.redis = .ok () := by
    rw [server, object]
    exact serving.client
  obtain ⟨outputs, final, ran, after, stored, finished⟩ := schedule_section client phase throws
  have restored : {threads.object with mtx := false} = threads.object := by rw [← free]
  refine ⟨_, _, _, () :: () :: outputs, final, RedisDB.operate_eq serving locks throws, ?_, ?_, ?_,
    ?_⟩
  · rw [run_cons_of_ok _ issued, run_cons_of_ok _ locked, ran]
    rfl
  · rw [after, object]
    cases throws
    · exact restored
    · rfl
  · rw [stored, server]
    cases throws <;> rfl
  · rw [finished, server]
    cases throws <;> rfl

end

/-- The mutex is released after every operation of a run exactly when no library call of the run
throws. -/
theorem mutex_released_iff {ι : Type} [DecidableEq ι] (dbname : Bytes) (server : RedisServer)
    (inputs : List (RedisStep ι)) :
    Throughout RedisDB.schedule Released (fun _ => False)
        (RedisThreads.start ι (RedisDB.open .fresh dbname server).2) inputs ↔
      Along RedisDB.schedule NoThrow
        (RedisThreads.start ι (RedisDB.open .fresh dbname server).2) inputs := by
  have start : Guarded (RedisThreads.start ι (RedisDB.open .fresh dbname server).2) := by
    refine ⟨(RedisDB.open_serving dbname server).client, fun i => ?_, rfl⟩
    simp [RedisThreads.start, RedisPhase.inside]
  exact throughout_iff_along RedisDB.schedule (fun _ guarded => guarded.released)
    (fun _ input guarded returns => guarded.step input returns)
    (fun _ input guarded throwing => guarded.throws input throwing) start

/-- The library call of a `put` throws, and the finished `put` still owns the mutex. -/
theorem mutex_kept_after_throw :
    ¬ ∀ (server : RedisServer) (inputs : List (RedisStep Bool)),
      Throughout RedisDB.schedule Released (fun _ => False)
        (RedisThreads.start Bool (RedisDB.open .fresh [] server).2) inputs := by
  intro released
  have last := (released RedisServer.blank [.issue false (.call (.put [1] [7])),
    .advance false false, .advance false true]).2.2.2.good
  exact last.finished false rfl rfl

end DbBench
