import DbBench.Construction.LMDBThreads
import DbBench.Library.Serial
import DbBench.Proof.TxnSpec

namespace DbBench

open KeyValue Transition

/-- The call has set `_key` and its library call has not read it yet. -/
def Phase.usesKey : Phase → Bool
  | .keyed => true
  | .filled => true
  | .locked => true
  | _ => false

/-- The call has set `_data` for its library call, or has received it and not copied it yet. -/
def usesData : ThreadCall → Phase → Bool
  | .put _ _, .filled => true
  | .put _ _, .locked => true
  | _, .fetched true => true
  | _, _ => false

section

variable {ι : Type} {calls : ι → ThreadCall}

/-- Each other call that uses `_key` or `_data` reads the same bytes there as before the step. -/
def KeepsBuffers [DecidableEq ι] (remains : Remains ι) (calls : ι → ThreadCall)
    (threads : Threads ι) (i : ι) : Prop :=
  let next := threads.step remains calls i
  ∀ j ≠ i,
    ((threads.phase j).usesKey = true → next.keyBytes calls = threads.keyBytes calls) ∧
      (usesData (calls j) (threads.phase j) = true →
        next.dataBytes calls = threads.dataBytes calls)

/-- The reply of a call is decided from its library call on. -/
def Phase.reply (data : Option Bytes) : Phase → Option Reply
  | .fetched true => data.map fun value => .lookup true (some value)
  | .fetched false => some (.lookup false none)
  | .performed ok => some (.flag ok)
  | .returned reply => some reply
  | _ => none

/-- The buffers hold what the call has put there. -/
structure Attends (calls : ι → ThreadCall) (threads : Threads ι) (i : ι) : Prop where
  key : (threads.phase i).usesKey = true → threads.keyBytes calls = some (calls i).key
  data : usesData (calls i) (threads.phase i) = true →
    ∃ value, threads.dataBytes calls = some value ∧
      ∀ own, (calls i).value? = some own → value = own

/-- A call that uses no buffer attends to none. -/
theorem Attends.of_unused {threads : Threads ι} {i : ι}
    (key : (threads.phase i).usesKey = false)
    (data : usesData (calls i) (threads.phase i) = false) : Attends calls threads i := by
  constructor
  · intro uses
    rw [key] at uses
    cases uses
  · intro uses
    rw [data] at uses
    cases uses

/-- The sequential reference answers the calls without library failures. -/
def sequential (dbi : Option Nat) : Reference Txn ThreadCall Reply := fun txn call =>
  txnCall dbi txn (call.request, MdbFaults.none)

/-- A lookup that returns 0 delivers a value. -/
theorem Txn.get_found {txn : Txn} {dbi : Option Nat} {key : Bytes} {access : Access}
    (found : (txn.get dbi key access).1 = .success) :
    ∃ value, (txn.get dbi key access).2.1 = some value := by
  revert found
  fun_cases Txn.get txn dbi key access <;> simp

variable [DecidableEq ι] {remains : Remains ι} {threads : Threads ι} {i : ι}

/-- A call that does not return keeps the strings of all callers. -/
theorem running_update {phase : Phase}
    (running : phase.running = (threads.phase i).running) (j : ι) :
    (Function.update threads.phase i phase j).running = (threads.phase j).running := by
  by_cases same : j = i
  · rw [same, Function.update_self, running]
  · rw [Function.update_of_ne same]

/-- What is behind `_key` stays when the pointer does and the call does not return. -/
theorem Threads.keyBytes_update (members : Members ι) {phase : Phase}
    (key : members.key = threads.members.key)
    (running : phase.running = (threads.phase i).running) :
    Threads.keyBytes calls ⟨members, Function.update threads.phase i phase⟩ =
      threads.keyBytes calls := by
  unfold Threads.keyBytes
  rw [key]
  cases threads.members.key with
  | none => rfl
  | some j => simp only [running_update running]

theorem Threads.dataBytes_update (members : Members ι) {phase : Phase}
    (data : members.data = threads.members.data)
    (updates : members.updates = threads.members.updates)
    (running : phase.running = (threads.phase i).running) :
    Threads.dataBytes calls ⟨members, Function.update threads.phase i phase⟩ =
      threads.dataBytes calls := by
  unfold Threads.dataBytes
  rw [data, updates]
  cases threads.members.data with
  | unset => rfl
  | argument j => simp only [running_update running]
  | page value updates => rfl

/-- A step of a call stays before its library call, is that call, or stays after it. Only the
library call answers and changes the transaction, as the reference does. -/
structure Advances (calls : ι → ThreadCall) (threads : Threads ι) (i : ι)
    (next : Threads ι) : Prop where
  attends : Attends calls next i
  dbi : next.members.dbi = threads.members.dbi
  stage : ((threads.phase i).reply (threads.dataBytes calls) = none ∧
      (next.phase i).reply (next.dataBytes calls) = none ∧
      next.members.txn = threads.members.txn) ∨
    ((threads.phase i).reply (threads.dataBytes calls) = none ∧
      (next.phase i).reply (next.dataBytes calls) =
        some (sequential threads.members.dbi threads.members.txn (calls i)).1 ∧
      next.members.txn = (sequential threads.members.dbi threads.members.txn (calls i)).2) ∨
    (((threads.phase i).reply (threads.dataBytes calls)).isSome = true ∧
      (next.phase i).reply (next.dataBytes calls) =
        (threads.phase i).reply (threads.dataBytes calls) ∧
      next.members.txn = threads.members.txn)

theorem Threads.step_eq {members : Members ι} {phase : Phase}
    (advance : LMDB.advance remains calls threads i = (members, phase)) :
    threads.step remains calls i = ⟨members, Function.update threads.phase i phase⟩ := by
  rw [Threads.step, advance]

/-- A call that waits or has returned stays in its stage. -/
theorem Advances.stays (attends : Attends calls threads i)
    (stays : LMDB.advance remains calls threads i = (threads.members, threads.phase i)) :
    Advances calls threads i (threads.step remains calls i) := by
  have same : threads.step remains calls i = threads := by
    rw [Threads.step_eq stays, Function.update_eq_self]
  rw [same]
  refine ⟨attends, rfl, ?_⟩
  cases decided : (threads.phase i).reply (threads.dataBytes calls) with
  | none => exact .inl ⟨rfl, rfl, rfl⟩
  | some reply => exact .inr (.inr ⟨rfl, rfl, rfl⟩)

/-- The call sets `_key`. -/
theorem Advances.setsKey (ready : threads.phase i = .ready)
    (sets : LMDB.advance remains calls threads i =
      ({threads.members with key := some i}, .keyed)) :
    Advances calls threads i (threads.step remains calls i) := by
  rw [Threads.step_eq sets]
  refine ⟨⟨fun _ => ?_, fun uses => ?_⟩, rfl, .inl ⟨?_, ?_, rfl⟩⟩
  · simp [Threads.keyBytes, Phase.running]
  · dsimp only at uses
    rw [Function.update_self] at uses
    cases call : calls i <;> rw [call] at uses <;> cases uses
  · rw [ready]
    rfl
  · dsimp only
    rw [Function.update_self]
    rfl

/-- The call locks the mutex. -/
theorem Advances.locks (attends : Attends calls threads i)
    (waits : threads.phase i = .keyed ∨ threads.phase i = .filled)
    (same : usesData (calls i) .locked = usesData (calls i) (threads.phase i))
    (locks : LMDB.advance remains calls threads i =
      ({threads.members with mtx := true}, .locked)) :
    Advances calls threads i (threads.step remains calls i) := by
  rw [Threads.step_eq locks]
  have running : Phase.locked.running = (threads.phase i).running := by
    rcases waits with waits | waits <;> rw [waits] <;> rfl
  have uses : (threads.phase i).usesKey = true := by
    rcases waits with waits | waits <;> rw [waits] <;> rfl
  have open' : (threads.phase i).reply (threads.dataBytes calls) = none := by
    rcases waits with waits | waits <;> rw [waits] <;> rfl
  refine ⟨⟨fun _ => ?_, fun uses => ?_⟩, rfl, .inl ⟨open', ?_, rfl⟩⟩
  · rw [Threads.keyBytes_update {threads.members with mtx := true} rfl running]
    exact attends.key uses
  · dsimp only at uses
    rw [Function.update_self, same] at uses
    obtain ⟨value, holds, own⟩ := attends.data uses
    exact ⟨value, (Threads.dataBytes_update {threads.members with mtx := true} rfl rfl running).trans
      holds, own⟩
  · dsimp only
    rw [Function.update_self]
    rfl

/-- The library call of a `put` or a `del` answers as the reference does. -/
theorem Advances.performs (txn : Txn) (updates : Nat) (ok : Bool)
    (undecided : (threads.phase i).reply (threads.dataBytes calls) = none)
    (performs : LMDB.advance remains calls threads i =
      ({threads.members with txn := txn, updates := updates}, .performed ok))
    (answers : sequential threads.members.dbi threads.members.txn (calls i) = (.flag ok, txn)) :
    Advances calls threads i (threads.step remains calls i) := by
  rw [Threads.step_eq performs]
  refine ⟨.of_unused ?_ ?_, rfl, .inr (.inl ⟨undecided, ?_, ?_⟩)⟩
  · dsimp only
    rw [Function.update_self]
    rfl
  · dsimp only
    rw [Function.update_self]
    cases calls i <;> rfl
  · dsimp only
    rw [Function.update_self, answers]
    rfl
  · rw [answers]

/-- The call returns what has been decided. -/
theorem Advances.returns (members : Members ι) (reply : Reply)
    (decided : (threads.phase i).reply (threads.dataBytes calls) = some reply)
    (returns : LMDB.advance remains calls threads i = (members, .returned reply))
    (txn : members.txn = threads.members.txn) (dbi : members.dbi = threads.members.dbi) :
    Advances calls threads i (threads.step remains calls i) := by
  rw [Threads.step_eq returns]
  refine ⟨.of_unused ?_ ?_, dbi, .inr (.inr ⟨?_, ?_, txn⟩)⟩
  · dsimp only
    rw [Function.update_self]
    rfl
  · dsimp only
    rw [Function.update_self]
    cases calls i <;> rfl
  · rw [decided]
    rfl
  · dsimp only
    rw [Function.update_self, decided]
    rfl

theorem get_advances {key : Bytes} (call : calls i = .get key)
    (attends : Attends calls threads i) :
    Advances calls threads i (threads.step remains calls i) := by
  cases phase : threads.phase i with
  | ready => exact .setsKey phase (by simp only [LMDB.advance, call, phase])
  | keyed =>
      have own : threads.keyBytes calls = some key := by
        rw [attends.key (by rw [phase]; rfl), call]
        rfl
      have undecided : (threads.phase i).reply (threads.dataBytes calls) = none := by
        rw [phase]
        rfl
      by_cases found : (threads.members.txn.get threads.members.dbi key .done).1 = .success
      · obtain ⟨value, delivers⟩ := Txn.get_found found
        have fetches : LMDB.advance remains calls threads i =
            ({threads.members with
              data := .page value threads.members.updates
              txn := (threads.members.txn.get threads.members.dbi key .done).2.2},
              .fetched true) := by
          simp [LMDB.advance, call, phase, own, found, delivers]
        rw [Threads.step_eq fetches]
        refine ⟨⟨fun uses => ?_, fun _ => ⟨value, ?_, ?_⟩⟩, rfl, .inr (.inl ⟨undecided, ?_, ?_⟩)⟩
        · dsimp only at uses
          rw [Function.update_self] at uses
          cases uses
        · simp [Threads.dataBytes]
        · intro own' known
          rw [call] at known
          cases known
        · simp [Threads.dataBytes, Phase.reply, sequential, txnCall, call, ThreadCall.request,
            MdbFaults.none, found, delivers]
        · simp [sequential, txnCall, call, ThreadCall.request, MdbFaults.none]
      · have fetches : ∃ data, LMDB.advance remains calls threads i =
            ({threads.members with
              data := data
              txn := (threads.members.txn.get threads.members.dbi key .done).2.2},
              .fetched false) := by
          simp [LMDB.advance, call, phase, own, found]
        obtain ⟨data, fetches⟩ := fetches
        rw [Threads.step_eq fetches]
        refine ⟨.of_unused ?_ ?_, rfl, .inr (.inl ⟨undecided, ?_, ?_⟩)⟩
        · dsimp only
          rw [Function.update_self]
          rfl
        · dsimp only
          rw [Function.update_self, call]
          rfl
        · simp [Phase.reply, sequential, txnCall, call, ThreadCall.request, MdbFaults.none, found]
        · simp [sequential, txnCall, call, ThreadCall.request, MdbFaults.none]
  | filled => exact .stays attends (by simp only [LMDB.advance, call, phase])
  | locked => exact .stays attends (by simp only [LMDB.advance, call, phase])
  | fetched found =>
      cases found with
      | true =>
          obtain ⟨value, holds, _⟩ := attends.data (by rw [call, phase]; rfl)
          refine .returns threads.members (.lookup true (some value)) ?_
            (by simp [LMDB.advance, call, phase, holds]) rfl rfl
          rw [phase, holds]
          rfl
      | false =>
          refine .returns threads.members (.lookup false none) ?_
            (by simp only [LMDB.advance, call, phase]) rfl rfl
          rw [phase]
          rfl
  | performed ok => exact .stays attends (by simp only [LMDB.advance, call, phase])
  | returned reply => exact .stays attends (by simp only [LMDB.advance, call, phase])

theorem put_advances {key value : Bytes} (call : calls i = .put key value)
    (attends : Attends calls threads i) :
    Advances calls threads i (threads.step remains calls i) := by
  cases phase : threads.phase i with
  | ready => exact .setsKey phase (by simp only [LMDB.advance, call, phase])
  | keyed =>
      have fills : LMDB.advance remains calls threads i =
          ({threads.members with data := .argument i}, .filled) := by
        simp only [LMDB.advance, call, phase]
      have running : Phase.filled.running = (threads.phase i).running := by
        rw [phase]
        rfl
      rw [Threads.step_eq fills]
      refine ⟨⟨fun _ => ?_, fun _ => ⟨value, ?_, ?_⟩⟩, rfl, .inl ⟨?_, ?_, rfl⟩⟩
      · rw [Threads.keyBytes_update {threads.members with data := .argument i} rfl running]
        exact attends.key (by rw [phase]; rfl)
      · simp [Threads.dataBytes, Phase.running, call, ThreadCall.value?]
      · intro own known
        rw [call] at known
        cases known
        rfl
      · rw [phase]
        rfl
      · dsimp only
        rw [Function.update_self]
        rfl
  | filled =>
      cases waits : threads.members.mtx with
      | true => exact .stays attends (by simp [LMDB.advance, call, phase, waits])
      | false =>
          refine .locks attends (Or.inr phase) ?_ (by simp [LMDB.advance, call, phase, waits])
          rw [call, phase]
          rfl
  | locked =>
      have ownKey := attends.key (by rw [phase]; rfl)
      obtain ⟨bytes, holds, own⟩ := attends.data (by rw [call, phase]; rfl)
      rw [own value (by rw [call]; rfl)] at holds
      refine .performs (threads.members.txn.put threads.members.dbi key value .done).2
        (threads.members.updates + 1)
        ((threads.members.txn.put threads.members.dbi key value .done).1 = .success)
        (by rw [phase]; rfl) ?_ ?_
      · simp [LMDB.advance, call, phase, ownKey, holds, ThreadCall.key]
      · simp [sequential, txnCall, call, ThreadCall.request, MdbFaults.none]
  | fetched found => exact .stays attends (by cases found <;> simp only [LMDB.advance, call, phase])
  | performed ok =>
      refine .returns {threads.members with mtx := false} (.flag ok) ?_
        (by simp only [LMDB.advance, call, phase]) rfl rfl
      rw [phase]
      rfl
  | returned reply => exact .stays attends (by simp only [LMDB.advance, call, phase])

theorem del_advances {key : Bytes} (call : calls i = .del key)
    (attends : Attends calls threads i) :
    Advances calls threads i (threads.step remains calls i) := by
  cases phase : threads.phase i with
  | ready => exact .setsKey phase (by simp only [LMDB.advance, call, phase])
  | keyed =>
      cases waits : threads.members.mtx with
      | true => exact .stays attends (by simp [LMDB.advance, call, phase, waits])
      | false =>
          refine .locks attends (Or.inl phase) ?_ (by simp [LMDB.advance, call, phase, waits])
          rw [call, phase]
          rfl
  | filled => exact .stays attends (by simp only [LMDB.advance, call, phase])
  | locked =>
      have ownKey := attends.key (by rw [phase]; rfl)
      refine .performs (threads.members.txn.del threads.members.dbi key .done).2
        (if (threads.members.txn.del threads.members.dbi key .done).1 = .notFound
          then threads.members.updates else threads.members.updates + 1)
        ((threads.members.txn.del threads.members.dbi key .done).1 ≠ .notFound)
        (by rw [phase]; rfl) ?_ ?_
      · simp [LMDB.advance, call, phase, ownKey, ThreadCall.key]
      · simp [sequential, txnCall, call, ThreadCall.request, MdbFaults.none]
  | fetched found => exact .stays attends (by cases found <;> simp only [LMDB.advance, call, phase])
  | performed ok =>
      refine .returns {threads.members with mtx := false} (.flag ok) ?_
        (by simp only [LMDB.advance, call, phase]) rfl rfl
      rw [phase]
      rfl
  | returned reply => exact .stays attends (by simp only [LMDB.advance, call, phase])

/-- One step of a call whose buffers are its own. -/
theorem advances (attends : Attends calls threads i) :
    Advances calls threads i (threads.step remains calls i) := by
  cases call : calls i with
  | get key => exact get_advances call attends
  | put key value => exact put_advances call attends
  | del key => exact del_advances call attends

end

section
variable {ι : Type} [DecidableEq ι]

/-- The log orders the calls as they took effect. Every decided reply stands in it, and the
buffers of every call that uses them are its own. -/
structure Orderly (calls : ι → ThreadCall) (start : Members ι) (threads : Threads ι)
    (schedule : List ι) (log : List (ι × Reply)) : Prop where
  serial : Serial (sequential start.dbi) calls start.txn log threads.members.txn
  within : (log.map Prod.fst).Sublist schedule
  dbi : threads.members.dbi = start.dbi
  attends : ∀ j, Attends calls threads j
  decided : ∀ j reply,
    (threads.phase j).reply (threads.dataBytes calls) = some reply → (j, reply) ∈ log
  pending : ∀ j, (threads.phase j).reply (threads.dataBytes calls) = none →
    j ∉ log.map Prod.fst

omit [DecidableEq ι] in
theorem Orderly.start (calls : ι → ThreadCall) (members : Members ι) :
    Orderly calls members (Threads.start ι members) [] [] := by
  refine ⟨Serial.start _ _ _, List.Sublist.refl [], rfl, fun j => ?_, nofun,
    fun _ _ => List.not_mem_nil⟩
  refine .of_unused rfl ?_
  show usesData (calls j) .ready = false
  cases calls j <;> rfl

/-- A call that has received `_data` keeps its reply as long as the bytes stay. -/
theorem Phase.reply_congr {data data' : Option Bytes} {phase : Phase}
    (same : phase = .fetched true → data' = data) : phase.reply data' = phase.reply data := by
  cases phase with
  | fetched found =>
      cases found with
      | true => rw [same rfl]
      | false => rfl
  | ready => rfl
  | keyed => rfl
  | filled => rfl
  | locked => rfl
  | performed ok => rfl
  | returned reply => rfl

/-- A step that keeps the buffers of the others leaves them as they were. -/
theorem KeepsBuffers.others {remains : Remains ι} {calls : ι → ThreadCall} {threads : Threads ι}
    {i j : ι} (keeps : KeepsBuffers remains calls threads i) (other : j ≠ i)
    (attends : Attends calls threads j) :
    let next := threads.step remains calls i
    Attends calls next j ∧
      (next.phase j).reply (next.dataBytes calls) =
        (threads.phase j).reply (threads.dataBytes calls) := by
  obtain ⟨key, data⟩ := keeps j other
  have phase : (threads.step remains calls i).phase j = threads.phase j :=
    Function.update_of_ne other _ _
  refine ⟨⟨fun used => ?_, fun used => ?_⟩, ?_⟩
  · rw [phase] at used
    rw [key used]
    exact attends.key used
  · rw [phase] at used
    rw [data used]
    exact attends.data used
  · rw [phase]
    refine Phase.reply_congr fun fetched => data ?_
    rw [fetched]
    cases calls j <;> rfl

/-- Every step that keeps the buffers of the others extends the order. -/
theorem schedule_orderly (remains : Remains ι) (calls : ι → ThreadCall) (start : Members ι)
    (threads : Threads ι) (past : List ι) (i : ι) (output : Unit) (next : Threads ι)
    (orderly : ∃ log, Orderly calls start threads past log)
    (keeps : KeepsBuffers remains calls threads i)
    (step : LMDB.schedule remains calls threads i = .ok (output, next)) :
    ∃ log, Orderly calls start next (past ++ [i]) log := by
  obtain ⟨log, orderly⟩ := orderly
  have own := @advances _ calls _ remains _ _ (orderly.attends i)
  have others := fun j (other : j ≠ i) => keeps.others other (orderly.attends j)
  cases step
  generalize threads.step remains calls i = next at own others
  have attends : ∀ j, Attends calls next j := by
    intro j
    by_cases same : j = i
    · exact same ▸ own.attends
    · exact (others j same).1
  have dbi := own.dbi.trans orderly.dbi
  -- The replies of the other calls stay as they are, so only the stage of this call counts.
  rcases own.stage with ⟨before, after, txn⟩ | ⟨before, after, txn⟩ | ⟨before, after, txn⟩
  · refine ⟨log, ⟨by rw [txn]; exact orderly.serial,
      orderly.within.trans (List.sublist_append_left past [i]), dbi, attends, ?_, ?_⟩⟩
    · intro j reply decided
      by_cases same : j = i
      · rw [same, after] at decided
        cases decided
      · rw [(others j same).2] at decided
        exact orderly.decided j reply decided
    · intro j pending
      by_cases same : j = i
      · rw [same]
        exact orderly.pending i before
      · rw [(others j same).2] at pending
        exact orderly.pending j pending
  · have fresh := orderly.pending i before
    rw [orderly.dbi] at after txn
    refine ⟨log ++ [(i, (sequential start.dbi threads.members.txn (calls i)).1)],
      ⟨by rw [txn]; exact orderly.serial.commit fresh, ?_, dbi, attends, ?_, ?_⟩⟩
    · rw [List.map_append]
      exact orderly.within.append (List.Sublist.refl [i])
    · intro j reply decided
      by_cases same : j = i
      · rw [same, after] at decided
        cases decided
        rw [same]
        exact List.mem_append_right _ List.mem_cons_self
      · rw [(others j same).2] at decided
        exact List.mem_append_left _ (orderly.decided j reply decided)
    · intro j pending
      by_cases same : j = i
      · rw [same, after] at pending
        cases pending
      · rw [(others j same).2] at pending
        simpa [same] using orderly.pending j pending
  · refine ⟨log, ⟨by rw [txn]; exact orderly.serial,
      orderly.within.trans (List.sublist_append_left past [i]), dbi, attends, ?_, ?_⟩⟩
    · intro j reply decided
      by_cases same : j = i
      · rw [same, after] at decided
        rw [same]
        exact orderly.decided i reply decided
      · rw [(others j same).2] at decided
        exact orderly.decided j reply decided
    · intro j pending
      by_cases same : j = i
      · rw [same, after] at pending
        rw [pending] at before
        cases before
      · rw [(others j same).2] at pending
        exact orderly.pending j pending

end

/-- The outcome of a schedule is that of the calls in some sequential order, which lies within
the schedule: every returned call answers as in that order, and the transaction is the one
that the order leaves. -/
def Serializable {ι : Type} (calls : ι → ThreadCall) (start : Members ι) (schedule : List ι)
    (final : Threads ι) : Prop :=
  ∃ log : List (ι × Reply), (log.map Prod.fst).Sublist schedule ∧
    Serial (sequential start.dbi) calls start.txn log final.members.txn ∧
    ∀ i reply, final.phase i = .returned reply → (i, reply) ∈ log

/-- Every schedule of concurrent calls has such an outcome. -/
def AlwaysSerializable : Prop :=
  ∀ (ι : Type) [DecidableEq ι] (remains : Remains ι) (calls : ι → ThreadCall)
    (start : Members ι) (schedule : List ι) (outputs : List Unit) (final : Threads ι),
    run (LMDB.schedule remains calls) (Threads.start ι start) schedule = .ok (outputs, final) →
    Serializable calls start schedule final

/-- Concurrent calls that keep each other's buffers act on their own keys and values, in the
order of their library calls. -/
theorem lmdb_calls_serialize {ι : Type} [DecidableEq ι] {remains : Remains ι}
    {calls : ι → ThreadCall} {start : Members ι} {schedule : List ι} {outputs : List Unit}
    {final : Threads ι}
    (keeps : Along (LMDB.schedule remains calls) (KeepsBuffers remains calls)
      (Threads.start ι start) schedule)
    (ran : run (LMDB.schedule remains calls) (Threads.start ι start) schedule =
      .ok (outputs, final)) :
    Serializable calls start schedule final := by
  have recorded := record_inputs schedule outputs [] (run_length _ ran)
  obtain ⟨log, orderly⟩ := run_along (LMDB.schedule remains calls) (KeepsBuffers remains calls)
    (fun threads past => ∃ log, Orderly calls start threads past log) _
    (schedule_orderly remains calls start) keeps ⟨[], Orderly.start calls start⟩ ran
  rw [recorded] at orderly
  refine ⟨log, orderly.within, orderly.serial, fun i reply returned => ?_⟩
  exact orderly.decided i reply (by rw [returned]; rfl)

/-- The members of an object with an empty store before the first call. -/
def Members.blank (ι : Type) : Members ι :=
  ⟨none, .unset, false, some mainDbi, ⟨0, Store.empty, false⟩, 0⟩

/-- Memory that is no longer valid reads as empty. -/
def Remains.empty (ι : Type) : Remains ι := ⟨fun _ => [], fun _ => []⟩

/-- A `put` and a `get` of one key. -/
def sameKey : Bool → ThreadCall
  | false => .put [97] [49]
  | true => .get [97]

/-- The `get` sets `_key` to the same bytes between the steps of the `put`. -/
def overlap : List Bool := [false, true, false, false, false, true, true, false]

/-- The law covers two calls that overlap on one key. -/
theorem lmdb_calls_serialize_overlap :
    ∃ (outputs : List Unit) (final : Threads Bool) (log : List (Bool × Reply)),
      run (LMDB.schedule (Remains.empty Bool) sameKey)
        (Threads.start Bool (Members.blank Bool)) overlap = .ok (outputs, final) ∧
      Serial (sequential (some mainDbi)) sameKey (Members.blank Bool).txn log final.members.txn ∧
      (true, .lookup true (some [49])) ∈ log := by
  have along : Along (LMDB.schedule (Remains.empty Bool) sameKey)
      (KeepsBuffers (Remains.empty Bool) sameKey)
      (Threads.start Bool (Members.blank Bool)) overlap := by
    have one (j : Bool) (other : j ≠ true) : j = false := by
      cases j with
      | false => rfl
      | true => exact absurd rfl other
    have two (j : Bool) (other : j ≠ false) : j = true := by
      cases j with
      | true => rfl
      | false => exact absurd rfl other
    refine ⟨?_, ?_, ?_, ?_, ?_, ?_, ?_, ?_, trivial⟩ <;> intro j other
    · rw [two j other]
      exact ⟨nofun, nofun⟩
    · rw [one j other]
      exact ⟨fun _ => rfl, nofun⟩
    · rw [two j other]
      exact ⟨fun _ => rfl, nofun⟩
    · rw [two j other]
      exact ⟨fun _ => rfl, nofun⟩
    · rw [two j other]
      exact ⟨fun _ => rfl, nofun⟩
    · rw [one j other]
      exact ⟨nofun, nofun⟩
    · rw [one j other]
      exact ⟨nofun, nofun⟩
    · rw [two j other]
      exact ⟨nofun, nofun⟩
  obtain ⟨log, _, serial, returned⟩ := lmdb_calls_serialize along rfl
  exact ⟨_, _, log, rfl, serial, returned true _ rfl⟩

/-- Two calls that store different values under different keys. -/
def otherKey : Bool → ThreadCall
  | false => .put [97] [49]
  | true => .put [98] [50]

/-- Every sequential order of the two calls that contains the first one stores its value. -/
theorem otherKey_stores {log : List (Bool × Reply)} {txn : Txn}
    (serial : Serial (sequential (some mainDbi)) otherKey (Members.blank Bool).txn log txn)
    (member : false ∈ log.map Prod.fst) : txn.view [97] = some [49] := by
  have distinct := serial.distinct
  rw [serial.store]
  rcases log with _ | ⟨⟨first, _⟩, _ | ⟨⟨second, _⟩, _ | ⟨⟨third, _⟩, rest⟩⟩⟩
  · simp at member
  · cases first with
    | false => rfl
    | true => simp at member
  · cases first <;> cases second <;> first | rfl | simp at member distinct
  · cases first <;> cases second <;> cases third <;> simp at distinct

/-- When the second call sets `_key` before the first one locks the mutex, the first value is
stored under the second key. -/
theorem lmdb_calls_misplace : ¬ AlwaysSerializable := by
  intro claim
  obtain ⟨log, _, serial, returned⟩ := claim Bool (Remains.empty Bool) otherKey
    (Members.blank Bool) [false, true, false, false, false, false] _ _ rfl
  have stored := otherKey_stores serial
    (List.mem_map_of_mem (f := Prod.fst) (returned false (.flag true) rfl))
  exact absurd stored (by decide)

end DbBench
