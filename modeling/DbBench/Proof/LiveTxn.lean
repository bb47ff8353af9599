import DbBench.Proof.TxnSpec

namespace DbBench

open KeyValue Transition

/-- An open object points to a transaction that was begun and not yet committed. -/
def HoldsTxn (state : LMDB × Mdb) : Prop :=
  state.1.isOpen = true → ∃ handle, state.1.txn = some handle ∧ state.2.txns.Live handle

/-- These steps keep the transaction. A data operation needs an open object. An `open` that
opens an environment needs its transaction, unless the object still holds one. `applyBatch`
needs its commit and, in an open environment, its next transaction. -/
def KeepsTxn : LMDB × Mdb → Action × MdbFaults → Prop
  | (object, _), (.opening _, faults) =>
      faults.envCreate = false → faults.envOpen = false → faults.txnBegin = true →
        object.isOpen = true
  | _, (.closing, _) => True
  | (object, mdb), (.call request, faults) =>
      object.isOpen = true ∧ (request = .applyBatch → faults.commit = false ∧
        (∀ handle txn, mdb.txn object.txn = .ok (handle, txn) → txn.failed = false) ∧
        (faults.txnBegin = true → ∀ env path, mdb.env object.env ≠ .ok (env, .opened path)))

/-- The flag tells whether the transaction pointer leads to a live transaction. That transaction
lies in an open environment, and `open` takes every environment past its creation. -/
structure TxnTracked (object : LMDB) (mdb : Mdb) : Prop where
  closed : object.isOpen = false → mdb.txn object.txn = .error .txn
  live : object.isOpen = true → ∃ handle txn path, object.txn = some handle ∧
    mdb.txns.cells handle = some txn ∧ mdb.envs.cells txn.env = some (.opened path)
  settled : ∀ env, object.env = some env → mdb.envs.cells env ≠ some .created

/-- The tracked property of a state. -/
def Tracked (state : LMDB × Mdb) : Prop := TxnTracked state.1 state.2

theorem Tracked.holds {state : LMDB × Mdb} (tracked : Tracked state) : HoldsTxn state := by
  intro isOpen
  obtain ⟨handle, txn, path, points, held, _⟩ := tracked.live isOpen
  exact ⟨handle, points, by simp [Arena.Live, held]⟩

/-- A fresh object holds nothing. -/
theorem Tracked.fresh (mdb : Mdb) : Tracked (LMDB.fresh, mdb) :=
  ⟨fun _ => rfl, nofun, nofun⟩

/-- A pointer to a freed transaction leads nowhere. -/
theorem Mdb.txn_released {mdb : Mdb} {handle : Nat} {files : Bytes → ByteStore}
    {envs : Arena Env} :
    Mdb.txn ⟨files, envs, mdb.txns.release handle⟩ (some handle) = .error .txn := by
  simp [Mdb.txn]

/-- `mdb_dbi_open` on a live transaction returns a code. -/
theorem Mdb.dbiOpen_live {mdb : Mdb} {handle : Nat} {txn : Txn}
    (held : mdb.txns.cells handle = some txn) (fault : Bool) :
    ∃ rc dbi, mdb.dbiOpen (some handle) fault = .ok (rc, dbi) := by
  by_cases failed : txn.failed = true
  · exact ⟨.badTxn, none, by
      simp [Mdb.dbiOpen, Mdb.txn_of_cells held, failed, bind, Except.bind, pure, Except.pure]⟩
  · cases fault with
    | true => exact ⟨.eio, none, by
        simp [Mdb.dbiOpen, Mdb.txn_of_cells held, failed, bind, Except.bind, pure, Except.pure]⟩
    | false => exact ⟨.success, some mainDbi, by
        simp [Mdb.dbiOpen, Mdb.txn_of_cells held, failed, bind, Except.bind, pure, Except.pure]⟩

theorem open_keepsTxn {object : LMDB} {mdb : Mdb} (tracked : TxnTracked object mdb)
    (dbname : Bytes) (faults : MdbFaults)
    (meets : KeepsTxn (object, mdb) (.opening dbname, faults)) :
    Ends Tracked (· ≠ .txn) (object.open dbname faults mdb) := by
  -- The cases follow the library calls of `open` in their order.
  cases created : faults.envCreate with
  | true =>
      rcases object.open_uncreated dbname faults mdb created tracked.settled with failed | refused
      · rw [failed]
        exact (by decide : Misuse.env ≠ .txn)
      · rw [refused]
        exact ⟨tracked.closed, tracked.live, tracked.settled⟩
  | false =>
      cases opens : faults.envOpen with
      | true =>
          rw [object.open_spoils dbname faults mdb created opens]
          refine ⟨tracked.closed, fun isOpen => ?_, fun env points => ?_⟩
          · obtain ⟨handle, txn, path, points, held, inside⟩ := tracked.live isOpen
            exact ⟨handle, txn, path, points, held, mdb.enter_of_live .spoiled inside⟩
          · cases points
            simp
      | false =>
          cases begins : faults.txnBegin with
          | true =>
              obtain ⟨handle, txn, path, points, held, inside⟩ :=
                tracked.live (meets created opens begins)
              have entered : (mdb.enter (.opened dbname)).txns.cells handle = some txn := held
              obtain ⟨rc, dbi, selected⟩ := Mdb.dbiOpen_live entered faults.dbiOpen
              simp only [object.open_unbegun dbname faults mdb created opens begins, points,
                selected, bind, Except.bind, pure, Except.pure]
              refine ⟨by rintro ⟨⟩, fun _ => ⟨handle, txn, path, rfl, held,
                mdb.enter_of_live (.opened dbname) inside⟩, fun env leads => ?_⟩
              cases leads
              simp
          | false =>
              rw [object.open_begun dbname faults mdb created opens begins]
              refine ⟨by rintro ⟨⟩, fun _ => ⟨mdb.txns.next, _, dbname, rfl,
                Arena.create_cells_self mdb.txns _, mdb.enter_self _⟩, fun env points => ?_⟩
              cases points
              simp

theorem close_keepsTxn {object : LMDB} {mdb : Mdb} (tracked : TxnTracked object mdb)
    (faults : MdbFaults) : Ends Tracked (· ≠ .txn) (object.close faults mdb) := by
  cases isOpen : object.isOpen with
  | false =>
      simp only [LMDB.close, isOpen]
      exact tracked
  | true =>
      obtain ⟨handle, txn, path, points, held, inside⟩ := tracked.live isOpen
      rcases mdb.env_cases object.env with missing | ⟨env, state, leads, live⟩
      · simp only [LMDB.close, isOpen, Mdb.dbiClose, missing, bind, Except.bind]
        exact (by decide : Misuse.env ≠ .txn)
      · obtain ⟨files, closed⟩ :=
          LMDB.close_frees isOpen points held inside leads live faults
        rw [closed]
        refine ⟨fun _ => ?_, by rintro ⟨⟩, fun other same => ?_⟩
        · simp only [points]
          exact Mdb.txn_released
        · simp only [leads, Option.some.injEq] at same
          subst same
          simp

/-- An access keeps the transaction live. -/
theorem TxnTracked.setTxn {object : LMDB} {mdb : Mdb} {handle : Nat} {txn next : Txn} {path : Bytes}
    (tracked : TxnTracked object mdb) (isOpen : object.isOpen = true)
    (points : object.txn = some handle) (held : mdb.txns.cells handle = some txn)
    (inside : mdb.envs.cells txn.env = some (.opened path)) (same : next.env = txn.env) :
    TxnTracked object (mdb.setTxn handle next) := by
  refine ⟨fun closed => ?_, fun _ => ⟨handle, next, path, points, by simp [Mdb.setTxn, held], ?_⟩,
    tracked.settled⟩
  · simp [isOpen] at closed
  · rw [same]
    exact inside

theorem applyBatch_keepsTxn {object : LMDB} {mdb : Mdb} (tracked : TxnTracked object mdb)
    (faults : MdbFaults) (meets : KeepsTxn (object, mdb) (.call .applyBatch, faults)) :
    Ends Tracked (· ≠ .txn) (object.applyBatch faults mdb) := by
  obtain ⟨isOpen, apply⟩ := meets
  obtain ⟨commits, sound, begins⟩ := apply rfl
  obtain ⟨handle, txn, path, points, held, inside⟩ := tracked.live isOpen
  have good : txn.failed = false := sound handle txn (by rw [points, Mdb.txn_of_cells held])
  rw [LMDB.applyBatch_committed points held inside good commits]
  generalize published : mdb.published handle path txn.view = after
  have envs : after.envs = mdb.envs := by rw [← published, Mdb.published]
  rcases mdb.env_cases object.env with missing | ⟨env, state, leads, live⟩
  · have gone : after.env object.env = .error .env := by
      rw [← published]
      exact missing
    simp only [Mdb.txnBegin, gone, bind, Except.bind]
    exact (by decide : Misuse.env ≠ .txn)
  · have found : after.env object.env = .ok (env, state) := by
      rw [leads, Mdb.env_of_cells (envs ▸ live)]
    cases state with
    | created => exact absurd live (tracked.settled env leads)
    | spoiled =>
        simp only [Mdb.txnBegin, found, bind, Except.bind]
        exact (by decide : Misuse.env ≠ .txn)
    | opened name =>
        have begun : faults.txnBegin = false := by
          rw [← Bool.not_eq_true]
          intro fails
          exact begins fails env name (by rw [leads, Mdb.env_of_cells live])
        simp only [Mdb.txnBegin, found, begun, bind, Except.bind, pure, Except.pure]
        refine ⟨fun closed => ?_, fun _ => ⟨after.txns.next, _, name, rfl,
          Arena.create_cells_self after.txns _, ?_⟩, ?_⟩
        · simp [isOpen] at closed
        · rw [envs]
          exact live
        · rw [envs]
          exact tracked.settled

/-- A step that meets the condition keeps the transaction tracked. -/
theorem act_keepsTxn (state : LMDB × Mdb) (input : Action × MdbFaults) (tracked : Tracked state)
    (meets : KeepsTxn state input) : Ends Tracked (· ≠ .txn) (LMDB.act state input) := by
  obtain ⟨object, mdb⟩ := state
  rcases input with ⟨action, faults⟩
  cases action with
  | opening dbname => exact open_keepsTxn tracked dbname faults meets
  | closing => exact close_keepsTxn tracked faults
  | call request =>
      by_cases applies : request = .applyBatch
      · subst applies
        exact applyBatch_keepsTxn tracked faults meets
      · obtain ⟨handle, txn, path, points, held, inside⟩ := tracked.live meets.1
        change Ends Tracked (· ≠ .txn) (LMDB.call (object, mdb) (request, faults))
        rw [LMDB.call_eq points held (request, faults) applies]
        exact tracked.setTxn meets.1 points held inside
          (txnCall_env object.dbi txn (request, faults))

/-- A data operation that breaks the condition on an open object is an `applyBatch` that loses
the transaction. -/
theorem applyBatch_breaksTxn {object : LMDB} {mdb : Mdb} (tracked : TxnTracked object mdb)
    (isOpen : object.isOpen = true) (faults : MdbFaults)
    (breaks : ¬ KeepsTxn (object, mdb) (.call .applyBatch, faults)) :
    Ends (fun next => ¬ HoldsTxn next) (fun fault => ¬ fault ≠ .txn)
      (object.applyBatch faults mdb) := by
  obtain ⟨handle, txn, path, points, held, inside⟩ := tracked.live isOpen
  by_cases refused : txn.failed = true ∨ faults.commit = true
  · rw [LMDB.applyBatch_refused points held inside refused]
    intro holds
    obtain ⟨other, same, live⟩ := holds isOpen
    simp only [points, Option.some.injEq] at same
    subst same
    simp [Arena.Live] at live
  · obtain ⟨failed, commit⟩ := not_or.mp refused
    have sound : txn.failed = false := by simpa using failed
    have commits : faults.commit = false := by simpa using commit
    have unbegun : faults.txnBegin = true ∧
        ∃ env name, mdb.env object.env = .ok (env, .opened name) := by
      by_contra fine
      refine breaks ⟨isOpen, fun _ => ⟨commits, fun other state found => ?_,
        fun fails env name opened => fine ⟨fails, env, name, opened⟩⟩⟩
      rw [points, Mdb.txn_of_cells held] at found
      cases found
      exact sound
    obtain ⟨fails, env, name, opened⟩ := unbegun
    rw [LMDB.applyBatch_committed points held inside sound commits]
    have found : (mdb.published handle path txn.view).env object.env = .ok (env, .opened name) :=
      opened
    simp only [Mdb.txnBegin, found, fails, bind, Except.bind, pure, Except.pure]
    intro holds
    obtain ⟨other, same, live⟩ := holds isOpen
    simp only [points, Option.none_or, Option.some.injEq] at same
    subst same
    simp [Arena.Live, Mdb.published] at live

/-- A step that breaks the condition leaves an open object without a live transaction, or issues
a library call on a dead one. -/
theorem act_breaksTxn (state : LMDB × Mdb) (input : Action × MdbFaults) (tracked : Tracked state)
    (breaks : ¬ KeepsTxn state input) :
    Ends (fun next => ¬ HoldsTxn next) (fun fault => ¬ fault ≠ .txn) (LMDB.act state input) := by
  obtain ⟨object, mdb⟩ := state
  rcases input with ⟨action, faults⟩
  cases action with
  | opening dbname =>
      simp only [KeepsTxn, Classical.not_imp, Bool.not_eq_true] at breaks
      obtain ⟨created, opens, fails, closed⟩ := breaks
      have dead : (mdb.enter (.opened dbname)).dbiOpen object.txn faults.dbiOpen = .error .txn := by
        have gone : (mdb.enter (.opened dbname)).txn object.txn = .error .txn := tracked.closed closed
        rw [Mdb.dbiOpen, gone]
        rfl
      simp only [LMDB.act, object.open_unbegun dbname faults mdb created opens fails, dead, bind,
        Except.bind]
      exact fun other => other rfl
  | closing => exact absurd trivial breaks
  | call request =>
      cases isOpen : object.isOpen with
      | false =>
          simp only [LMDB.act, LMDB.call_dead (tracked.closed isOpen) (request, faults)]
          exact fun other => other rfl
      | true =>
          by_cases applies : request = .applyBatch
          · subst applies
            exact applyBatch_breaksTxn tracked isOpen faults breaks
          · exact absurd ⟨isOpen, fun same => absurd same applies⟩ breaks

/-- An open object holds a live transaction, and no library call meets a dead one, throughout
exactly the runs whose steps keep the transaction. -/
theorem lmdb_holds_txn_iff (mdb : Mdb) (inputs : List (Action × MdbFaults)) :
    Throughout LMDB.act HoldsTxn (· ≠ .txn) (LMDB.fresh, mdb) inputs ↔
      Along LMDB.act KeepsTxn (LMDB.fresh, mdb) inputs :=
  throughout_iff_along LMDB.act (fun _ => Tracked.holds) act_keepsTxn act_breaksTxn
    (Tracked.fresh mdb)

/-- After the commit of a written transaction has failed, the object stays open and the next `get`
reads a freed transaction. -/
theorem lmdb_loses_txn : ¬ ∀ (mdb : Mdb) (inputs : List (Action × MdbFaults)),
    Throughout LMDB.act HoldsTxn (· ≠ .txn) (LMDB.fresh, mdb) inputs := by
  intro claim
  have held := claim Mdb.blank [(.opening [100], MdbFaults.none),
    (.call (.put [97] [49]), MdbFaults.none),
    (.call .applyBatch, {MdbFaults.none with commit := true}), (.call (.get [97]), MdbFaults.none)]
  exact held.2.2.2.2 rfl

end DbBench
