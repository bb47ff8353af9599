import DbBench.Construction.LevelDB
import DbBench.Construction.RedisDB
import DbBench.Construction.RocksDB
import DbBench.Proof.OpenShards
import DbBench.Proof.ShardedSteps
import DbBench.Proof.TxnSpec

namespace DbBench

open KeyValue Transition

/-- An `open` counts when it returned true, and a `close` ends it. -/
def Action.opens (was : Bool) (reply : Reply) : Action → Bool
  | .opening _ => decide (reply = .flag true)
  | .closing => false
  | .call _ => was

/-- The latest lifecycle call was an `open` that returned true. -/
def lastOpened {Fault : Type} (inputs : List (Action × Fault)) (replies : List Reply) : Bool :=
  record (fun was input reply => input.1.opens was reply) false inputs replies

section
variable {Object World Fault : Type} (act : Machine (Object × World) (Action × Fault) Reply Misuse)
variable (opened : Object → Bool) (fresh : Object)

/-- An adapter tells the truth at the end of this run when `opened` answers that. -/
def TellsTruthAfter (world : World) (inputs : List (Action × Fault)) : Prop :=
  ∀ (replies : List Reply) (final : Object × World),
    run act (fresh, world) inputs = .ok (replies, final) →
    opened final.1 = lastOpened inputs replies

/-- An adapter tells the truth when it does so at the end of every run. -/
def TellsTruth : Prop :=
  ∀ (world : World) (inputs : List (Action × Fault)),
    TellsTruthAfter act opened fresh world inputs

/-- An adapter tells the truth at the end of this run exactly under this condition. -/
def TellsTruthIff (condition : List (Action × Fault) → List Reply → Prop) (world : World)
    (inputs : List (Action × Fault)) : Prop :=
  ∀ (replies : List Reply) (final : Object × World),
    run act (fresh, world) inputs = .ok (replies, final) →
    (opened final.1 = lastOpened inputs replies ↔ condition inputs replies)

end

/-- The database of the key holds the key. -/
def Visible (engine : Engine) (state : ShardedDB × Disk) (key : Bytes) : Prop :=
  ∃ entry path, state.1.dbs[engine.index key]? = some entry ∧
    state.2.pathOf entry.db = .ok path ∧ (state.2.files path key).isSome = true

/-- The library does the work of a `get`, `put` or `del`, and a `get` asks for a key that is
there. -/
def Works (engine : Engine) (state : ShardedDB × Disk) (request : Call) (outcome : Outcome) :
    Prop :=
  outcome = .done ∧ ∀ key, request = .get key → Visible engine state key

/-- The operation is a `get`, `put` or `del` that reaches the library of the shard. -/
def Action.Reaches (index : Bytes → Nat) (idx : Nat) : Action → Prop
  | .call request => ∃ key, request.statusKey = some key ∧ index key = idx
  | _ => False

/-- The latest operation that reached the library of the shard did not work there. -/
def ShardFails (engine : Engine) (state : ShardedDB × Disk) (inputs : List (Action × Outcomes))
    (idx : Nat) : Prop :=
  ∃ before request outcomes after, inputs = before ++ (.call request, outcomes) :: after ∧
    Action.Reaches engine.index idx (.call request) ∧
    (∀ input ∈ after, ¬ input.1.Reaches engine.index idx) ∧
    ∃ replies reached, run (ShardedDB.act engine) state before = .ok (replies, reached) ∧
      ¬ Works engine reached request (outcomes 0)

/-- After an `open` that returned true no shard fails, and before it, after a failed one and after
`close` some shard does. -/
def ShardsAgree (engine : Engine) (disk : Disk) (inputs : List (Action × Outcomes))
    (replies : List Reply) : Prop :=
  (lastOpened inputs replies = true ∧ ∀ idx, ¬ ShardFails engine (.fresh, disk) inputs idx) ∨
    (lastOpened inputs replies = false ∧ ∃ idx, ShardFails engine (.fresh, disk) inputs idx)

/-- A `get`, `put` or `del` that reaches the library marks its shard as failing or sound. -/
def Action.marks (index : Bytes → Nat) (failing : Nat → Bool) (reply : Reply) : Action → Nat → Bool
  | .call request =>
      match request.statusKey with
      | some key => Function.update failing (index key) (!reply.ok)
      | none => failing
  | _ => failing

/-- The latest `get`, `put` or `del` on the shard that reached the library returned false. -/
def failingShards {Fault : Type} (index : Bytes → Nat) (inputs : List (Action × Fault))
    (replies : List Reply) : Nat → Bool :=
  record (fun failing input reply => input.1.marks index failing reply) (fun _ => false) inputs
    replies

/-- The statuses of the entries are the recorded ones, and only entries fail. -/
structure Marked (dbs : List DB) (failing : Nat → Bool) : Prop where
  status : ∀ idx entry, dbs[idx]? = some entry → entry.status.isOk = !failing idx
  inside : ∀ idx, failing idx = true → idx < dbs.length

/-- `opened` asks whether no shard fails. -/
theorem Marked.opened {object : ShardedDB} {failing : Nat → Bool}
    (marked : Marked object.dbs failing) :
    object.opened = true ↔ ∀ idx, failing idx = false := by
  simp only [ShardedDB.opened, List.all_eq_true]
  constructor
  · intro sound idx
    rw [← Bool.not_eq_true]
    intro fails
    have inside := marked.inside idx fails
    have entry := marked.status idx _ (List.getElem?_eq_getElem inside)
    rw [sound _ (List.getElem_mem inside), fails] at entry
    cases entry
  · intro sound entry member
    obtain ⟨idx, found⟩ := List.getElem?_of_mem member
    rw [marked.status idx entry found, sound idx]
    rfl

/-- `open` adds entries with sound statuses only. -/
theorem Marked.append {dbs added : List DB} {failing : Nat → Bool} (marked : Marked dbs failing)
    (sound : ∀ entry ∈ added, entry.status = .ok) : Marked (dbs ++ added) failing := by
  refine ⟨fun idx entry found => ?_, fun idx fails => ?_⟩
  · by_cases old : idx < dbs.length
    · rw [List.getElem?_append_left old] at found
      exact marked.status idx entry found
    · rw [List.getElem?_append_right (Nat.le_of_not_lt old)] at found
      have quiet : failing idx = false := by
        rw [← Bool.not_eq_true]
        exact fun fails => old (marked.inside idx fails)
      rw [sound entry (List.mem_of_getElem? found), quiet]
      rfl
  · rw [List.length_append]
    exact Nat.lt_add_right _ (marked.inside idx fails)

/-- A change to one entry marks that entry. -/
theorem Marked.modify {dbs : List DB} {failing : Nat → Bool} (marked : Marked dbs failing)
    (idx : Nat) (change : DB → DB) (fails : Bool) (inside : idx < dbs.length)
    (status : ∀ entry, dbs[idx]? = some entry → (change entry).status.isOk = !fails) :
    Marked (dbs.modify idx change) (Function.update failing idx fails) := by
  refine ⟨fun other entry found => ?_, fun other failed => ?_⟩
  · rw [List.getElem?_modify] at found
    obtain ⟨before, held, equal⟩ := Option.map_eq_some_iff.mp found
    by_cases same : idx = other
    · subst same
      rw [← equal, if_pos rfl, Function.update_self]
      exact status before held
    · rw [← equal, if_neg same, Function.update_of_ne (Ne.symm same)]
      exact marked.status other before held
  · rw [List.length_modify]
    by_cases same : other = idx
    · rw [same]
      exact inside
    · rw [Function.update_of_ne same] at failed
      exact marked.inside other failed

theorem Changes.marked {engine : Engine} {object next : ShardedDB} {request : Call} {reply : Reply}
    {failing : Nat → Bool} (changes : Changes engine object request reply next)
    (marked : Marked object.dbs failing) :
    Marked next.dbs (Action.marks engine.index failing reply (.call request)) := by
  have kept : request.statusKey = none →
      Action.marks engine.index failing reply (.call request) = failing := by
    intro assigns
    simp only [Action.marks, assigns]
  cases changes with
  | status key status assigns inside reports =>
      simp only [Action.marks, assigns]
      exact marked.modify _ _ _ inside fun entry _ => by simp [reports]
  | nothing assigns =>
      rw [kept assigns]
      exact marked
  | batch idx op assigns =>
      rw [kept assigns]
      refine ⟨fun other entry found => ?_, fun other fails => ?_⟩
      · simp only [ShardedDB.addBatch, List.getElem?_modify] at found
        obtain ⟨before, held, equal⟩ := Option.map_eq_some_iff.mp found
        rw [← marked.status other before held, ← equal]
        split <;> rfl
      · simpa [ShardedDB.addBatch] using marked.inside other fails
  | clear assigns =>
      rw [kept assigns]
      refine ⟨fun other entry found => ?_, fun other fails => ?_⟩
      · simp only [ShardedDB.clearBatches, List.getElem?_map] at found
        obtain ⟨before, held, equal⟩ := Option.map_eq_some_iff.mp found
        rw [← marked.status other before held, ← equal]
      · simpa [ShardedDB.clearBatches] using marked.inside other fails

theorem act_marked (engine : Engine) (state : ShardedDB × Disk) (failing : Nat → Bool)
    (input : Action × Outcomes) (reply : Reply) (next : ShardedDB × Disk)
    (marked : Marked state.1.dbs failing)
    (step : ShardedDB.act engine state input = .ok (reply, next)) :
    Marked next.1.dbs (input.1.marks engine.index failing reply) := by
  obtain ⟨object, disk⟩ := state
  rcases input with ⟨action, outcomes⟩
  cases action with
  | opening dbname =>
      obtain ⟨ok, added, after, ran, facts, _, _⟩ :=
        openShards_spec engine dbname outcomes shardCount 0 object.dbs disk
      simp only [ShardedDB.act, ShardedDB.open, ran] at step
      cases step
      exact marked.append facts.status
  | closing =>
      obtain ⟨after, _, equal⟩ := (bind_eq_ok _ _ _).mp step
      cases equal
      exact marked
  | call request => exact (call_changes step).2.marked marked

/-- The status of a library read tells whether it worked. -/
theorem get_works {engine : Engine} {object next : ShardedDB} {disk after : Disk} {key : Bytes}
    {outcome : Outcome} {reply : Reply}
    (ran : object.get engine key outcome disk = .ok (reply, next, after)) :
    reply.ok = true ↔ Works engine (object, disk) (.get key) outcome := by
  obtain ⟨⟨value, changed, later⟩, performed, read⟩ := (bind_eq_ok _ _ _).mp ran
  obtain ⟨entry, held, called⟩ := (bind_eq_ok _ _ _).mp performed
  obtain ⟨⟨status, found⟩, asked, assigned⟩ := (bind_eq_ok _ _ _).mp called
  obtain ⟨path, leads, answered⟩ := (bind_eq_ok _ _ _).mp asked
  cases assigned
  obtain ⟨ok, said, equal⟩ := (bind_eq_ok _ _ _).mp read
  cases equal
  have visible : Visible engine (object, disk) key ↔ (disk.files path key).isSome = true := by
    constructor
    · rintro ⟨other, path', held', leads', there⟩
      rw [entry_eq_ok] at held
      rw [held] at held'
      cases held'
      rw [leads] at leads'
      cases leads'
      exact there
    · intro there
      exact ⟨entry, path, entry_eq_ok.mp held, leads, there⟩
  have works : Works engine (object, disk) (.get key) outcome ↔
      outcome = .done ∧ (disk.files path key).isSome = true := by
    unfold Works
    rw [← visible]
    constructor
    · exact fun ⟨done, asks⟩ => ⟨done, asks key rfl⟩
    · rintro ⟨done, there⟩
      refine ⟨done, fun other same => ?_⟩
      cases same
      exact there
  show ok = true ↔ _
  rw [works, statusOk_after said]
  cases outcome with
  | done =>
      dsimp only at answered
      cases there : disk.files path key with
      | none =>
          rw [there] at answered
          cases answered
          simp [Status.isOk]
      | some bytes =>
          rw [there] at answered
          cases answered
          simp [Status.isOk]
  | lost | late =>
      cases answered
      simp [Status.isOk]

/-- The status of a library write tells whether it worked. -/
theorem write_works {object next : ShardedDB} {disk after : Disk} {idx : Nat}
    {batch : List ByteWrite} {outcome : Outcome} {reply : Reply}
    (ran : (do
      let (object, disk) ← (do
        let entry ← object.entry idx
        let (status, disk) ← disk.write entry.db batch outcome
        pure (object.setStatus idx status, disk))
      let ok ← object.statusOk idx
      pure (Reply.flag ok, object, disk) : Except Misuse _) = .ok (reply, next, after)) :
    reply.ok = true ↔ outcome = .done := by
  obtain ⟨⟨changed, later⟩, performed, read⟩ := (bind_eq_ok _ _ _).mp ran
  obtain ⟨entry, held, called⟩ := (bind_eq_ok _ _ _).mp performed
  obtain ⟨⟨status, middle⟩, wrote, assigned⟩ := (bind_eq_ok _ _ _).mp called
  obtain ⟨path, leads, answered⟩ := (bind_eq_ok _ _ _).mp wrote
  cases assigned
  obtain ⟨ok, said, equal⟩ := (bind_eq_ok _ _ _).mp read
  cases equal
  show ok = true ↔ _
  rw [statusOk_after said]
  cases outcome with
  | done =>
      cases answered
      simp [Status.isOk]
  | lost | late =>
      cases answered
      simp [Status.isOk]

/-- An operation that reaches the library of its shard returns whether it worked there. -/
theorem call_works {engine : Engine} {state next : ShardedDB × Disk} {request : Call}
    {outcomes : Outcomes} {reply : Reply} {key : Bytes} (reaches : request.statusKey = some key)
    (ran : ShardedDB.call engine state (request, outcomes) = .ok (reply, next)) :
    reply.ok = true ↔ Works engine state request (outcomes 0) := by
  obtain ⟨object, disk⟩ := state
  cases request with
  | get key => exact get_works ran
  | put key value =>
      simp only [ShardedDB.call, ShardedDB.put] at ran
      by_cases empty : key.isEmpty = true
      · simp only [Call.statusKey, if_pos empty] at reaches
        cases reaches
      · rw [if_neg empty] at ran
        exact (write_works ran).trans ⟨fun done => ⟨done, fun _ get => by cases get⟩, And.left⟩
  | del key =>
      simp only [ShardedDB.call, ShardedDB.del] at ran
      by_cases empty : key.isEmpty = true
      · simp only [Call.statusKey, if_pos empty] at reaches
        cases reaches
      · rw [if_neg empty] at ran
        exact (write_works ran).trans ⟨fun done => ⟨done, fun _ get => by cases get⟩, And.left⟩
  | putBatch key value => cases reaches
  | delBatch key => cases reaches
  | applyBatch => cases reaches

/-- The mark of a shard changes only when an operation reaches it. -/
theorem marks_iff {engine : Engine} {state next : ShardedDB × Disk} {action : Action}
    {outcomes : Outcomes} {reply : Reply}
    (step : ShardedDB.act engine state (action, outcomes) = .ok (reply, next))
    (failing : Nat → Bool) (idx : Nat) :
    action.marks engine.index failing reply idx = true ↔
      (∃ request, action = .call request ∧ action.Reaches engine.index idx ∧
        ¬ Works engine state request (outcomes 0)) ∨
        (¬ action.Reaches engine.index idx ∧ failing idx = true) := by
  cases action with
  | opening dbname => simp [Action.marks, Action.Reaches]
  | closing => simp [Action.marks, Action.Reaches]
  | call request =>
      cases assigns : request.statusKey with
      | none => simp [Action.marks, Action.Reaches, assigns]
      | some key =>
          have works := call_works assigns step
          by_cases here : engine.index key = idx
          · subst here
            simp [Action.marks, Action.Reaches, assigns, ← works]
          · have elsewhere : idx ≠ engine.index key := fun same => here same.symm
            simp [Action.marks, Action.Reaches, assigns, here, Function.update_of_ne elsewhere]

/-- The recorded marks are the failing shards. -/
theorem failing_iff {engine : Engine} {state final : ShardedDB × Disk}
    {inputs : List (Action × Outcomes)} {replies : List Reply}
    (ran : run (ShardedDB.act engine) state inputs = .ok (replies, final)) (failing : Nat → Bool)
    (idx : Nat) :
    record (fun failing (input : Action × Outcomes) reply =>
        input.1.marks engine.index failing reply) failing inputs replies idx = true ↔
      ShardFails engine state inputs idx ∨
        ((∀ input ∈ inputs, ¬ input.1.Reaches engine.index idx) ∧ failing idx = true) := by
  induction inputs generalizing state replies failing with
  | nil =>
      cases ran
      simp [record, ShardFails]
  | cons input rest ih =>
      obtain ⟨reply, next, tail, step, later, equal⟩ := (run_cons_eq_ok _ _ _ _ _ _).mp ran
      obtain ⟨action, outcomes⟩ := input
      subst equal
      have fails : ShardFails engine state ((action, outcomes) :: rest) idx ↔
          ShardFails engine next rest idx ∨
            ((∃ request, action = .call request ∧ action.Reaches engine.index idx ∧
              ¬ Works engine state request (outcomes 0)) ∧
              ∀ input ∈ rest, ¬ input.1.Reaches engine.index idx) := by
        constructor
        · rintro ⟨before, request, outcomes', after, split, reaches, quiet, replies', reached,
            ran', breaks⟩
          cases before with
          | nil =>
              cases split
              cases ran'
              exact Or.inr ⟨⟨request, rfl, reaches, breaks⟩, quiet⟩
          | cons first before =>
              cases split
              obtain ⟨reply', next', tail', step', later', _⟩ :=
                (run_cons_eq_ok _ _ _ _ _ _).mp ran'
              rw [step] at step'
              cases step'
              exact Or.inl ⟨before, request, outcomes', after, rfl, reaches, quiet, tail', reached,
                later', breaks⟩
        · rintro (⟨before, request, outcomes', after, split, reaches, quiet, replies', reached,
            ran', breaks⟩ | ⟨⟨request, same, reaches, breaks⟩, quiet⟩)
          · refine ⟨(action, outcomes) :: before, request, outcomes', after, by rw [split]; rfl,
              reaches, quiet, reply :: replies', reached, ?_, breaks⟩
            rw [run_cons_of_ok _ step, ran']
            rfl
          · subst same
            exact ⟨[], request, outcomes, rest, rfl, reaches, quiet, [], state, rfl, breaks⟩
      have regroup (A B C D E : Prop) : A ∨ B ∧ (C ∨ D ∧ E) ↔ (A ∨ C ∧ B) ∨ (D ∧ B) ∧ E := by
        tauto
      rw [record, ih later, marks_iff step, fails]
      simp only [List.forall_mem_cons]
      exact regroup _ _ _ _ _

theorem sharded_tellsTruthIff (engine : Engine) (disk : Disk) (inputs : List (Action × Outcomes)) :
    TellsTruthIff (ShardedDB.act engine) ShardedDB.opened .fresh (ShardsAgree engine disk) disk
      inputs := by
  intro replies final ran
  have marked : Marked final.1.dbs (failingShards engine.index inputs replies) :=
    run_recorded (ShardedDB.act engine) (fun state failing => Marked state.1.dbs failing) _
      (act_marked engine) ⟨by simp [ShardedDB.fresh], nofun⟩ ran
  have fails (idx : Nat) : failingShards engine.index inputs replies idx = true ↔
      ShardFails engine (.fresh, disk) inputs idx := by
    rw [failingShards, failing_iff ran]
    simp
  have opened : ShardedDB.opened final.1 = true ↔
      ∀ idx, ¬ ShardFails engine (.fresh, disk) inputs idx := by
    rw [marked.opened]
    refine forall_congr' fun idx => ?_
    rw [← fails, Bool.not_eq_true]
  unfold ShardsAgree
  rw [← opened, ← not_forall_not, ← opened, Bool.not_eq_true]
  cases ShardedDB.opened final.1 <;> cases lastOpened inputs replies <;> simp

/-- Some `open` returned true and no `close` came after it. -/
def Action.stands (was : Bool) (reply : Reply) : Action → Bool
  | .opening _ => was || decide (reply = .flag true)
  | .closing => false
  | .call _ => was

def standing {Fault : Type} (inputs : List (Action × Fault)) (replies : List Reply) : Bool :=
  record (fun was input reply => input.1.stands was reply) false inputs replies

/-- A failed `open` came to no object that was still open. -/
def NoOpenOverOpen {Fault : Type} (inputs : List (Action × Fault)) (replies : List Reply) : Prop :=
  standing inputs replies = true → lastOpened inputs replies = true

/-- `open` raises the flag when it returns true and leaves it alone otherwise. -/
theorem LMDB.open_isOpen {object next : LMDB} {mdb after : Mdb} {dbname : Bytes}
    {faults : MdbFaults} {reply : Reply}
    (ran : object.open dbname faults mdb = .ok (reply, next, after)) :
    (reply = .flag true ∧ next.isOpen = true) ∨
      (reply = .flag false ∧ next.isOpen = object.isOpen) := by
  simp only [LMDB.open] at ran
  obtain ⟨⟨rc, entered⟩, _, later⟩ := (bind_eq_ok _ _ _).mp ran
  by_cases success : rc = .success
  · simp only [success, if_true] at later
    obtain ⟨⟨_, begun, middle⟩, _, later⟩ := (bind_eq_ok _ _ _).mp later
    obtain ⟨⟨_, dbi⟩, _, equal⟩ := (bind_eq_ok _ _ _).mp later
    cases equal
    exact .inl ⟨rfl, rfl⟩
  · simp only [success, if_false] at later
    cases later
    exact .inr ⟨rfl, rfl⟩

theorem LMDB.close_isOpen {object next : LMDB} {mdb after : Mdb} {faults : MdbFaults}
    {reply : Reply} (ran : object.close faults mdb = .ok (reply, next, after)) :
    next.isOpen = false := by
  simp only [LMDB.close] at ran
  cases isOpen : object.isOpen with
  | false =>
      simp only [isOpen] at ran
      cases ran
      exact isOpen
  | true =>
      simp only [isOpen, if_true] at ran
      obtain ⟨_, _, later⟩ := (bind_eq_ok _ _ _).mp ran
      obtain ⟨_, _, later⟩ := (bind_eq_ok _ _ _).mp later
      obtain ⟨_, _, equal⟩ := (bind_eq_ok _ _ _).mp later
      cases equal
      rfl

/-- No data operation touches the flag. -/
theorem LMDB.call_isOpen {object next : LMDB} {mdb after : Mdb} {input : Call × MdbFaults}
    {reply : Reply} (ran : LMDB.call (object, mdb) input = .ok (reply, next, after)) :
    next.isOpen = object.isOpen := by
  by_cases applies : input.1 = .applyBatch
  · obtain ⟨request, faults⟩ := input
    simp only at applies
    subst applies
    simp only [LMDB.call, LMDB.applyBatch] at ran
    obtain ⟨⟨rc, committed⟩, _, later⟩ := (bind_eq_ok _ _ _).mp ran
    by_cases success : rc = .success
    · simp only [success, if_true] at later
      obtain ⟨_, _, equal⟩ := (bind_eq_ok _ _ _).mp later
      cases equal
      rfl
    · simp only [success, if_false] at later
      cases later
      rfl
  · rcases mdb.txn_cases object.txn with dead | ⟨handle, txn, points, held⟩
    · rw [LMDB.call_dead dead] at ran
      cases ran
    · rw [LMDB.call_eq points held input applies] at ran
      cases ran
      rfl

theorem lmdb_act_stands (state : LMDB × Mdb) (was : Bool) (input : Action × MdbFaults)
    (reply : Reply) (next : LMDB × Mdb) (same : state.1.isOpen = was)
    (step : LMDB.act state input = .ok (reply, next)) :
    next.1.isOpen = input.1.stands was reply := by
  obtain ⟨object, mdb⟩ := state
  obtain ⟨after, final⟩ := next
  rcases input with ⟨action, faults⟩
  simp only at same
  subst same
  cases action with
  | opening dbname =>
      rcases LMDB.open_isOpen step with ⟨answer, isOpen⟩ | ⟨answer, isOpen⟩
      · simp [isOpen, answer, Action.stands]
      · simp [isOpen, answer, Action.stands]
  | closing => exact LMDB.close_isOpen step
  | call request => exact LMDB.call_isOpen step

theorem stands_of_opens {before after : Bool} (implies : before = true → after = true)
    (reply : Reply) (action : Action) (opens : action.opens before reply = true) :
    action.stands after reply = true := by
  cases action with
  | opening dbname =>
      simp only [Action.opens] at opens
      simp [Action.stands, opens]
  | closing => cases opens
  | call request => exact implies opens

/-- An `open` that returned true and is the latest lifecycle call has no `close` after it. -/
theorem record_stands_of_opens {Fault : Type} (inputs : List (Action × Fault))
    (replies : List Reply) {before after : Bool} (implies : before = true → after = true) :
    record (fun was (input : Action × Fault) reply => input.1.opens was reply) before inputs
        replies = true →
      record (fun was (input : Action × Fault) reply => input.1.stands was reply) after inputs
        replies = true := by
  induction inputs generalizing replies before after with
  | nil => exact implies
  | cons input rest ih =>
      cases replies with
      | nil => exact implies
      | cons reply replies => exact ih replies (stands_of_opens implies reply input.1)

theorem lmdb_tellsTruthIff (mdb : Mdb) (inputs : List (Action × MdbFaults)) :
    TellsTruthIff LMDB.act LMDB.opened .fresh NoOpenOverOpen mdb inputs := by
  intro replies final ran
  have flag : final.1.isOpen = standing inputs replies :=
    run_recorded LMDB.act (fun state was => state.1.isOpen = was) _ lmdb_act_stands rfl ran
  rw [LMDB.opened, flag, NoOpenOverOpen, Bool.eq_iff_iff]
  exact ⟨Iff.mp, fun implies => ⟨implies, record_stands_of_opens inputs replies id⟩⟩

/-- An operation keeps the flag and the client pointer of the object, and every client. -/
def KeepsClient (object next : RedisDB) (server after : RedisServer) : Prop :=
  next.isOpen = object.isOpen ∧ next.redis = object.redis ∧ after.clients = server.clients

theorem RedisDB.lock_keeps {object locked : RedisDB} (taken : object.lock = .ok locked) :
    locked.isOpen = object.isOpen ∧ locked.redis = object.redis := by
  rw [RedisDB.lock] at taken
  split at taken
  · cases taken
  · cases taken
    exact ⟨rfl, rfl⟩

theorem RedisDB.get_keeps {object next : RedisDB} {server after : RedisServer} {key : Bytes}
    {throws : Bool} {reply : Reply}
    (ran : object.get key throws server = .ok (reply, next, after)) :
    KeepsClient object next server after := by
  obtain ⟨locked, taken, later⟩ := (bind_eq_ok _ _ _).mp ran
  obtain ⟨_, _, later⟩ := (bind_eq_ok _ _ _).mp later
  obtain ⟨flag, pointer⟩ := RedisDB.lock_keeps taken
  cases throws with
  | true =>
      cases later
      exact ⟨flag, pointer, rfl⟩
  | false =>
      simp only [RedisDB.unlock, Bool.false_eq_true, if_false] at later
      split at later <;>
      · cases later
        exact ⟨flag, pointer, rfl⟩

theorem RedisDB.put_keeps {object next : RedisDB} {server after : RedisServer} {key value : Bytes}
    {throws : Bool} {reply : Reply}
    (ran : object.put key value throws server = .ok (reply, next, after)) :
    KeepsClient object next server after := by
  obtain ⟨locked, taken, later⟩ := (bind_eq_ok _ _ _).mp ran
  obtain ⟨_, _, later⟩ := (bind_eq_ok _ _ _).mp later
  obtain ⟨flag, pointer⟩ := RedisDB.lock_keeps taken
  cases throws <;>
  · cases later
    exact ⟨flag, pointer, rfl⟩

theorem RedisDB.del_keeps {object next : RedisDB} {server after : RedisServer} {key : Bytes}
    {throws : Bool} {reply : Reply}
    (ran : object.del key throws server = .ok (reply, next, after)) :
    KeepsClient object next server after := by
  obtain ⟨locked, taken, later⟩ := (bind_eq_ok _ _ _).mp ran
  obtain ⟨_, _, later⟩ := (bind_eq_ok _ _ _).mp later
  obtain ⟨flag, pointer⟩ := RedisDB.lock_keeps taken
  cases throws <;>
  · cases later
    exact ⟨flag, pointer, rfl⟩

theorem RedisDB.call_keeps {object next : RedisDB} {server after : RedisServer}
    {input : Call × Bool} {reply : Reply}
    (ran : RedisDB.call (object, server) input = .ok (reply, next, after)) :
    KeepsClient object next server after := by
  rcases input with ⟨request, throws⟩
  cases request with
  | get key => exact RedisDB.get_keeps ran
  | put key value => exact RedisDB.put_keeps ran
  | putBatch key value => exact RedisDB.put_keeps ran
  | del key => exact RedisDB.del_keeps ran
  | delBatch key => exact RedisDB.del_keeps ran
  | applyBatch =>
      cases ran
      exact ⟨rfl, rfl, rfl⟩

theorem RedisDB.close_isOpen {object next : RedisDB} {server after : RedisServer} {reply : Reply}
    (ran : object.close server = .ok (reply, next, after)) : next.isOpen = false := by
  cases points : object.redis with
  | none =>
      simp only [RedisDB.close, points] at ran
      cases ran
      rfl
  | some handle =>
      simp only [RedisDB.close, points] at ran
      obtain ⟨_, _, equal⟩ := (bind_eq_ok _ _ _).mp ran
      cases equal
      rfl

theorem redis_tellsTruth : TellsTruth RedisDB.act RedisDB.opened .fresh := by
  intro server inputs replies final ran
  refine run_recorded RedisDB.act (fun state was => state.1.isOpen = was) _ ?_ rfl ran
  intro state was input reply next same step
  obtain ⟨object, server⟩ := state
  obtain ⟨after, later⟩ := next
  rcases input with ⟨action, throws⟩
  simp only at same
  subst same
  cases action with
  | opening dbname =>
      cases step
      rfl
  | closing => exact RedisDB.close_isOpen step
  | call request => exact (RedisDB.call_keeps step).1

/-- Redis always tells the truth. LevelDB and RocksDB do after an `open` that returned true when the
latest operation of every shard worked, and otherwise when the latest operation of some shard did
not. LMDB does unless a failed `open` came to an object that was still open. -/
theorem opened_tells_truth_iff (disk : Disk) (sharded : List (Action × Outcomes)) (mdb : Mdb)
    (lmdb : List (Action × MdbFaults)) (server : RedisServer) (redis : List (Action × Bool)) :
    TellsTruthIff LevelDB.act LevelDB.opened .fresh (ShardsAgree LevelDB.engine disk) disk
        sharded ∧
      TellsTruthIff RocksDB.act RocksDB.opened .fresh (ShardsAgree RocksDB.engine disk) disk
        sharded ∧
      TellsTruthIff LMDB.act LMDB.opened .fresh NoOpenOverOpen mdb lmdb ∧
      TellsTruthAfter RedisDB.act RedisDB.opened .fresh server redis := by
  rw [LevelDB.act_eq, RocksDB.act_eq]
  exact ⟨sharded_tellsTruthIff LevelDB.engine disk sharded,
    sharded_tellsTruthIff RocksDB.engine disk sharded, lmdb_tellsTruthIff mdb lmdb,
    redis_tellsTruth server redis⟩

/-- LevelDB tells the truth after an `open` and a `put` that returned true. -/
theorem opened_tells_truth_iff_put :
    ∃ (replies : List Reply) (final : ShardedDB × Disk),
      run LevelDB.act (.fresh, Disk.blank)
        [(.opening [100], faultless), (.call (.put [1] [7]), faultless)] = .ok (replies, final) ∧
      LevelDB.opened final.1 = lastOpened
        [(Action.opening [100], faultless), (.call (.put [1] [7]), faultless)] replies := by
  refine ⟨_, _, rfl, ((opened_tells_truth_iff Disk.blank
    [(.opening [100], faultless), (.call (.put [1] [7]), faultless)] Mdb.blank []
    RedisServer.blank []).1 _ _ rfl).mpr ?_⟩
  refine Or.inl ⟨rfl, ?_⟩
  rintro idx ⟨before, request, outcomes, after, split, _, _, _, _, _, breaks⟩
  rcases before with _ | ⟨first, _ | ⟨second, _ | ⟨third, before⟩⟩⟩ <;> cases split
  exact breaks ⟨rfl, nofun⟩

/-- A `get` of an absent key makes LevelDB and RocksDB deny their `open`, and a failed `open` of
an object that is still open leaves LMDB claiming it. -/
theorem opened_lies :
    ¬ TellsTruth LevelDB.act LevelDB.opened .fresh ∧
      ¬ TellsTruth RocksDB.act RocksDB.opened .fresh ∧
      ¬ TellsTruth LMDB.act LMDB.opened .fresh := by
  refine ⟨fun claim => ?_, fun claim => ?_, fun claim => ?_⟩
  · have wrong : false = true := claim Disk.blank
      [(.opening [100], faultless), (.call (.get [1]), faultless)] _ _ rfl
    cases wrong
  · have wrong : false = true := claim Disk.blank
      [(.opening [100], faultless), (.call (.get [1]), faultless)] _ _ rfl
    cases wrong
  · have wrong : true = false := claim Mdb.blank
      [(.opening [100], MdbFaults.none),
        (.opening [101], {MdbFaults.none with envOpen := true})] _ _ rfl
    cases wrong

end DbBench
