import DbBench.Construction.LMDB

namespace DbBench

open KeyValue Transition

/-- This reference answers from one transaction. A successful `applyBatch` leaves its view. -/
def txnCall (dbi : Option Nat) : Reference Txn (Call × MdbFaults) Reply
  | txn, (.get key, faults) =>
      let (rc, value, next) := txn.get dbi key faults.access
      (if rc = .success then .lookup true value else .lookup false none, next)
  | txn, (.put key value, faults) =>
      let (rc, next) := txn.put dbi key value faults.access
      (.flag (rc = .success), next)
  | txn, (.putBatch key value, faults) =>
      let (rc, next) := txn.put dbi key value faults.access
      (.flag (rc = .success), next)
  | txn, (.del key, faults) =>
      let (rc, next) := txn.del dbi key faults.access
      (.flag (rc ≠ .notFound), next)
  | txn, (.delBatch key, faults) =>
      let (rc, next) := txn.del dbi key faults.access
      (.flag (rc ≠ .notFound), next)
  | txn, (.applyBatch, _) => (.flag true, txn)

/-- The members lead to a live environment and to a live transaction in it. -/
structure Begun (object : LMDB) (mdb : Mdb) (path : Bytes) (txn : Txn) : Prop where
  env : object.env = some txn.env
  opened : mdb.envs.cells txn.env = some (.opened path)
  begun : ∃ handle, object.txn = some handle ∧ mdb.txns.cells handle = some txn

/-- The member leads to the transaction itself. -/
theorem Begun.held {object : LMDB} {mdb : Mdb} {path : Bytes} {txn : Txn} {handle : Nat}
    (begun : Begun object mdb path txn) (points : object.txn = some handle) :
    mdb.txns.cells handle = some txn := by
  obtain ⟨other, leads, held⟩ := begun.begun
  have same : other = handle := Option.some.inj (leads.symm.trans points)
  rwa [← same]

/-- Both library calls of `applyBatch` return 0. -/
def Commits (txn : Txn) (faults : MdbFaults) : Prop :=
  txn.failed = false ∧ faults.commit = false ∧ faults.txnBegin = false

theorem Mdb.txn_of_cells {mdb : Mdb} {handle : Nat} {txn : Txn}
    (held : mdb.txns.cells handle = some txn) : mdb.txn (some handle) = .ok (handle, txn) := by
  rw [Mdb.txn, held]

/-- A transaction pointer leads to a live transaction or nowhere. -/
theorem Mdb.txn_cases (mdb : Mdb) (txn : Option Nat) :
    mdb.txn txn = .error .txn ∨
      ∃ handle state, txn = some handle ∧ mdb.txns.cells handle = some state := by
  cases txn with
  | none => exact .inl rfl
  | some handle =>
      cases held : mdb.txns.cells handle with
      | none => exact .inl (by rw [Mdb.txn, held])
      | some state => exact .inr ⟨handle, state, rfl, held⟩

theorem Mdb.env_of_cells {mdb : Mdb} {handle : Nat} {env : Env}
    (held : mdb.envs.cells handle = some env) : mdb.env (some handle) = .ok (handle, env) := by
  rw [Mdb.env, held]

/-- An access stays in the environment of its transaction. -/
theorem Txn.get_env (txn : Txn) (dbi : Option Nat) (key : Bytes) (access : Access) :
    (txn.get dbi key access).2.2.env = txn.env := by
  fun_cases Txn.get txn dbi key access <;> rfl

theorem Txn.put_env (txn : Txn) (dbi : Option Nat) (key value : Bytes) (access : Access) :
    (txn.put dbi key value access).2.env = txn.env := by
  fun_cases Txn.put txn dbi key value access <;> rfl

theorem Txn.del_env (txn : Txn) (dbi : Option Nat) (key : Bytes) (access : Access) :
    (txn.del dbi key access).2.env = txn.env := by
  fun_cases Txn.del txn dbi key access <;> rfl

theorem txnCall_env (dbi : Option Nat) (txn : Txn) (input : Call × MdbFaults) :
    (txnCall dbi txn input).2.env = txn.env := by
  rcases input with ⟨request, faults⟩
  cases request with
  | get key => exact txn.get_env dbi key faults.access
  | put key value => exact txn.put_env dbi key value faults.access
  | putBatch key value => exact txn.put_env dbi key value faults.access
  | del key => exact txn.del_env dbi key faults.access
  | delBatch key => exact txn.del_env dbi key faults.access
  | applyBatch => rfl

/-- An access replaces the transaction and keeps the object. -/
theorem Begun.setTxn {object : LMDB} {mdb : Mdb} {path : Bytes} {txn next : Txn} {handle : Nat}
    (begun : Begun object mdb path txn) (points : object.txn = some handle)
    (held : mdb.txns.cells handle = some txn) (same : next.env = txn.env) :
    Begun object (mdb.setTxn handle next) path next := by
  refine ⟨?_, ?_, handle, points, ?_⟩
  · rw [same]
    exact begun.env
  · rw [same]
    exact begun.opened
  · simp [Mdb.setTxn, held]

/-- The object holds a sound transaction with this view. -/
def LmdbShows (state : LMDB × Mdb) (view : ByteStore) : Prop :=
  state.1.dbi = some mainDbi ∧ ∃ env path, Begun state.1 state.2 path ⟨env, view, false⟩

/-- On a live transaction every operation but `applyBatch` keeps the object and replaces the
transaction as the reference does. -/
theorem LMDB.call_eq {object : LMDB} {mdb : Mdb} {handle : Nat} {txn : Txn}
    (points : object.txn = some handle) (held : mdb.txns.cells handle = some txn)
    (input : Call × MdbFaults) (data : input.1 ≠ .applyBatch) :
    LMDB.call (object, mdb) input = .ok ((txnCall object.dbi txn input).1, object,
      mdb.setTxn handle (txnCall object.dbi txn input).2) := by
  rcases input with ⟨request, faults⟩
  have found := Mdb.txn_of_cells held
  cases request with
  | get key =>
      simp only [LMDB.call, LMDB.get, Mdb.get, points, found, bind, Except.bind, pure, Except.pure,
        txnCall]
      split <;> rfl
  | put key value =>
      simp only [LMDB.call, LMDB.put, Mdb.put, points, found, bind, Except.bind, pure, Except.pure,
        txnCall]
  | putBatch key value =>
      simp only [LMDB.call, LMDB.putBatch, Mdb.put, points, found, bind, Except.bind, pure,
        Except.pure, txnCall]
  | del key =>
      simp only [LMDB.call, LMDB.del, Mdb.del, points, found, bind, Except.bind, pure, Except.pure,
        txnCall]
  | delBatch key =>
      simp only [LMDB.call, LMDB.delBatch, Mdb.del, points, found, bind, Except.bind, pure,
        Except.pure, txnCall]
  | applyBatch => exact absurd rfl data

/-- Without a live transaction every operation misuses the transaction pointer. -/
theorem LMDB.call_dead {object : LMDB} {mdb : Mdb} (dead : mdb.txn object.txn = .error .txn)
    (input : Call × MdbFaults) : LMDB.call (object, mdb) input = .error .txn := by
  rcases input with ⟨request, faults⟩
  cases request with
  | get key => simp only [LMDB.call, LMDB.get, Mdb.get, dead, bind, Except.bind]
  | put key value => simp only [LMDB.call, LMDB.put, Mdb.put, dead, bind, Except.bind]
  | putBatch key value => simp only [LMDB.call, LMDB.putBatch, Mdb.put, dead, bind, Except.bind]
  | del key => simp only [LMDB.call, LMDB.del, Mdb.del, dead, bind, Except.bind]
  | delBatch key => simp only [LMDB.call, LMDB.delBatch, Mdb.del, dead, bind, Except.bind]
  | applyBatch => simp only [LMDB.call, LMDB.applyBatch, Mdb.txnCommit, dead, bind, Except.bind]

/-- The transaction is freed and its view is published. -/
def Mdb.published (mdb : Mdb) (handle : Nat) (path : Bytes) (view : ByteStore) : Mdb :=
  { mdb with
    files := Function.update mdb.files path view
    txns := mdb.txns.release handle }

/-- A commit that does not return 0 frees the transaction all the same, and `applyBatch` then
keeps the pointer to it. -/
theorem LMDB.applyBatch_refused {object : LMDB} {mdb : Mdb} {handle : Nat} {txn : Txn} {path : Bytes}
    (points : object.txn = some handle) (held : mdb.txns.cells handle = some txn)
    (opened : mdb.envs.cells txn.env = some (.opened path)) {faults : MdbFaults}
    (refused : txn.failed = true ∨ faults.commit = true) :
    object.applyBatch faults mdb =
      .ok (.flag false, object, {mdb with txns := mdb.txns.release handle}) := by
  by_cases failed : txn.failed = true
  · simp [LMDB.applyBatch, Mdb.txnCommit, points, Mdb.txn_of_cells held, Mdb.env_of_cells opened,
      failed, bind, Except.bind, pure, Except.pure]
  · simp [LMDB.applyBatch, Mdb.txnCommit, points, Mdb.txn_of_cells held, Mdb.env_of_cells opened,
      failed, refused.resolve_left failed, bind, Except.bind, pure, Except.pure]

/-- After a commit that returns 0, `applyBatch` begins the next transaction in the environment
that the object points to. -/
theorem LMDB.applyBatch_committed {object : LMDB} {mdb : Mdb} {handle : Nat} {txn : Txn}
    {path : Bytes} (points : object.txn = some handle)
    (held : mdb.txns.cells handle = some txn)
    (opened : mdb.envs.cells txn.env = some (.opened path)) {faults : MdbFaults}
    (sound : txn.failed = false) (commits : faults.commit = false) :
    object.applyBatch faults mdb = (do
      let (rc, begun, mdb) ←
        (mdb.published handle path txn.view).txnBegin object.env faults.txnBegin
      pure (.flag (rc = .success), {object with txn := begun.or object.txn}, mdb)) := by
  have commit : mdb.txnCommit object.txn faults.commit =
      .ok (.success, mdb.published handle path txn.view) := by
    simp [Mdb.txnCommit, points, Mdb.txn_of_cells held, Mdb.env_of_cells opened, sound, commits,
      Mdb.published, bind, Except.bind, pure, Except.pure]
  simp only [LMDB.applyBatch, commit, bind, Except.bind, if_true]

/-- A step answers as the reference does on the transaction. It keeps the environment, the
database and the name of the object. -/
def FollowsTxn (path : Bytes) (object : LMDB) (result : Except Misuse (Reply × LMDB × Mdb))
    (expected : Reply × Txn) : Prop :=
  ∃ next mdb, result = .ok (expected.1, next, mdb) ∧ Begun next mdb path expected.2 ∧
    next.dbi = object.dbi ∧ next.dbname = object.dbname

/-- A successful `applyBatch` publishes the view and begins a transaction that sees it again. -/
theorem LMDB.applyBatch_renews {object : LMDB} {mdb : Mdb} {handle : Nat} {path : Bytes} {txn : Txn}
    (begun : Begun object mdb path txn) (points : object.txn = some handle)
    (held : mdb.txns.cells handle = some txn) {faults : MdbFaults} (commits : Commits txn faults) :
    object.applyBatch faults mdb = .ok (.flag true, {object with txn := some mdb.txns.next},
      { mdb.published handle path txn.view with
        txns := (mdb.txns.release handle).create txn }) := by
  obtain ⟨sound, committed, begins⟩ := commits
  rw [LMDB.applyBatch_committed points held begun.opened sound committed]
  have env : (mdb.published handle path txn.view).env object.env =
      .ok (txn.env, .opened path) := by
    rw [begun.env]
    exact Mdb.env_of_cells begun.opened
  have view : (mdb.published handle path txn.view).files path = txn.view :=
    Function.update_self _ _ _
  have same : (⟨txn.env, txn.view, false⟩ : Txn) = txn := by rw [← sound]
  simp only [Mdb.txnBegin, env, begins, view, same, bind, Except.bind, pure, Except.pure,
    Bool.false_eq_true, if_false]
  rfl

theorem LMDB.applyBatch_follows {object : LMDB} {mdb : Mdb} {path : Bytes} {txn : Txn}
    (begun : Begun object mdb path txn) (faults : MdbFaults) (commits : Commits txn faults) :
    FollowsTxn path object (object.applyBatch faults mdb)
      (txnCall object.dbi txn (.applyBatch, faults)) := by
  obtain ⟨handle, points, held⟩ := begun.begun
  exact ⟨_, _, LMDB.applyBatch_renews begun points held commits, ⟨begun.env, begun.opened,
    mdb.txns.next, rfl, Arena.create_cells_self (mdb.txns.release handle) txn⟩, rfl, rfl⟩

/-- Every data operation on a live transaction follows the reference. For `applyBatch` its two
library calls must return 0. -/
theorem LMDB.call_follows {object : LMDB} {mdb : Mdb} {path : Bytes} {txn : Txn}
    (begun : Begun object mdb path txn) (input : Call × MdbFaults)
    (commits : input.1 = .applyBatch → Commits txn input.2) :
    FollowsTxn path object (LMDB.call (object, mdb) input) (txnCall object.dbi txn input) := by
  by_cases applies : input.1 = .applyBatch
  · obtain ⟨request, faults⟩ := input
    simp only at applies
    subst applies
    exact LMDB.applyBatch_follows begun faults (commits rfl)
  · obtain ⟨handle, points, held⟩ := begun.begun
    exact ⟨object, mdb.setTxn handle (txnCall object.dbi txn input).2,
      LMDB.call_eq points held input applies,
      begun.setTxn points held (txnCall_env object.dbi txn input), rfl, rfl⟩

/-- This environment was created and then opened, or its open failed. -/
def Mdb.enter (mdb : Mdb) (env : Env) : Mdb :=
  {mdb with envs := (mdb.envs.create .created).modify mdb.envs.next fun _ => env}

@[simp] theorem Mdb.enter_txns (mdb : Mdb) (env : Env) : (mdb.enter env).txns = mdb.txns := rfl

@[simp] theorem Mdb.enter_self (mdb : Mdb) (env : Env) :
    (mdb.enter env).envs.cells mdb.envs.next = some env := by
  simp [Mdb.enter]

/-- The new environment leaves the live ones as they were. -/
theorem Mdb.enter_of_live (mdb : Mdb) (env : Env) {handle : Nat} {held : Env}
    (live : mdb.envs.cells handle = some held) : (mdb.enter env).envs.cells handle = some held := by
  rw [Mdb.enter, Arena.modify_cells_of_ne _ _ _ (Nat.ne_of_lt (Arena.lt_next_of_cells live)),
    Arena.create_cells_of_live _ _ live]

/-- When its first three library calls succeed, `open` begins a transaction on the contents of
the path. -/
theorem LMDB.open_begun (object : LMDB) (dbname : Bytes) (faults : MdbFaults) (mdb : Mdb)
    (created : faults.envCreate = false) (opens : faults.envOpen = false)
    (begins : faults.txnBegin = false) :
    object.open dbname faults mdb = .ok (.flag true,
      ⟨dbname, some mdb.envs.next, if faults.dbiOpen then object.dbi else some mainDbi,
        some mdb.txns.next, true⟩,
      {mdb.enter (.opened dbname) with
        txns := mdb.txns.create ⟨mdb.envs.next, mdb.files dbname, false⟩ }) := by
  cases closed : faults.dbiOpen <;>
    simp [LMDB.open, Mdb.envCreate, Mdb.envOpen, Mdb.txnBegin, Mdb.dbiOpen, Mdb.env, Mdb.txn,
      Mdb.enter, created, opens, begins, closed, bind, Except.bind, pure, Except.pure]

/-- A failing `mdb_env_open` leaves the object with an environment that may only be closed. -/
theorem LMDB.open_spoils (object : LMDB) (dbname : Bytes) (faults : MdbFaults) (mdb : Mdb)
    (created : faults.envCreate = false) (fails : faults.envOpen = true) :
    object.open dbname faults mdb = .ok (.flag false,
      {object with
        dbname := dbname
        env := some mdb.envs.next }, mdb.enter .spoiled) := by
  simp [LMDB.open, Mdb.envCreate, Mdb.envOpen, Mdb.env, Mdb.enter, created, fails, bind,
    Except.bind, pure, Except.pure]

/-- A failing `mdb_txn_begin` leaves the object with the transaction pointer that it had. -/
theorem LMDB.open_unbegun (object : LMDB) (dbname : Bytes) (faults : MdbFaults) (mdb : Mdb)
    (created : faults.envCreate = false) (opens : faults.envOpen = false)
    (fails : faults.txnBegin = true) :
    object.open dbname faults mdb = (do
      let (_, dbi) ← (mdb.enter (.opened dbname)).dbiOpen object.txn faults.dbiOpen
      pure (.flag true, ⟨dbname, some mdb.envs.next, dbi.or object.dbi, object.txn, true⟩,
        mdb.enter (.opened dbname))) := by
  simp [LMDB.open, Mdb.envCreate, Mdb.envOpen, Mdb.txnBegin, Mdb.env, Mdb.enter, created, opens,
    fails, bind, Except.bind, pure, Except.pure]

/-- A failing `mdb_env_create` leaves the environment pointer as it was. An open environment
refuses the second `mdb_env_open`. -/
theorem LMDB.open_uncreated (object : LMDB) (dbname : Bytes) (faults : MdbFaults) (mdb : Mdb)
    (fails : faults.envCreate = true)
    (settled : ∀ env, object.env = some env → mdb.envs.cells env ≠ some .created) :
    object.open dbname faults mdb = .error .env ∨
      object.open dbname faults mdb = .ok (.flag false, {object with dbname := dbname}, mdb) := by
  cases points : object.env with
  | none =>
      simp [LMDB.open, Mdb.envCreate, Mdb.envOpen, Mdb.env, points, fails, bind, Except.bind]
  | some env =>
      cases held : mdb.envs.cells env with
      | none =>
          simp [LMDB.open, Mdb.envCreate, Mdb.envOpen, Mdb.env, points, held, fails, bind,
            Except.bind]
      | some state =>
          cases state with
          | created => exact absurd held (settled env points)
          | opened path =>
              simp [LMDB.open, Mdb.envCreate, Mdb.envOpen, Mdb.env, points, held, fails, bind,
                Except.bind, pure, Except.pure]
          | spoiled =>
              simp [LMDB.open, Mdb.envCreate, Mdb.envOpen, Mdb.env, points, held, fails, bind,
                Except.bind]

/-- When `open` of a fresh object returned true, its first three library calls succeeded. -/
theorem LMDB.open_fresh_eq {dbname : Bytes} {faults : MdbFaults} {mdb after : Mdb} {object : LMDB}
    (opened : LMDB.fresh.open dbname faults mdb = .ok (.flag true, object, after)) :
    object = ⟨dbname, some mdb.envs.next, if faults.dbiOpen then none else some mainDbi,
        some mdb.txns.next, true⟩ ∧
      after = {mdb.enter (.opened dbname) with
        txns := mdb.txns.create ⟨mdb.envs.next, mdb.files dbname, false⟩ } := by
  have created : faults.envCreate = false := by
    rw [← Bool.not_eq_true]
    intro failed
    simp [LMDB.open, LMDB.fresh, Mdb.envCreate, Mdb.envOpen, Mdb.env, failed, bind,
      Except.bind] at opened
  have opens : faults.envOpen = false := by
    rw [← Bool.not_eq_true]
    intro failed
    simp [LMDB.open, LMDB.fresh, Mdb.envCreate, Mdb.envOpen, Mdb.env, created, failed, bind,
      Except.bind, pure, Except.pure] at opened
  have begins : faults.txnBegin = false := by
    rw [← Bool.not_eq_true]
    intro failed
    simp [LMDB.open, LMDB.fresh, Mdb.envCreate, Mdb.envOpen, Mdb.env, Mdb.txnBegin, Mdb.dbiOpen,
      Mdb.txn, created, opens, failed, bind, Except.bind, pure, Except.pure] at opened
  have same : (Reply.flag true, _, _) = (.flag true, object, after) :=
    Except.ok.inj
      ((LMDB.fresh.open_begun dbname faults mdb created opens begins).symm.trans opened)
  cases same
  exact ⟨rfl, rfl⟩

/-- A fresh object whose `open` returned true holds a transaction on the contents of the path. -/
theorem LMDB.open_fresh {dbname : Bytes} {faults : MdbFaults} {mdb after : Mdb} {object : LMDB}
    (opened : LMDB.fresh.open dbname faults mdb = .ok (.flag true, object, after)) :
    ∃ env, Begun object after dbname ⟨env, mdb.files dbname, false⟩ ∧
      object.dbi = (if faults.dbiOpen then none else some mainDbi) := by
  obtain ⟨rfl, rfl⟩ := LMDB.open_fresh_eq opened
  exact ⟨mdb.envs.next, ⟨rfl, mdb.enter_self (.opened dbname), mdb.txns.next, rfl,
    Arena.create_cells_self mdb.txns _⟩, rfl⟩

/-- A commit frees its transaction whatever it returns. -/
theorem Mdb.txnCommit_frees {mdb : Mdb} {handle : Nat} {txn : Txn} {path : Bytes}
    (held : mdb.txns.cells handle = some txn)
    (opened : mdb.envs.cells txn.env = some (.opened path)) (fault : Bool) :
    ∃ rc files, mdb.txnCommit (some handle) fault =
      .ok (rc, {mdb with
        files := files
        txns := mdb.txns.release handle }) := by
  by_cases failed : txn.failed = true
  · exact ⟨.badTxn, mdb.files, by
      simp [Mdb.txnCommit, Mdb.txn_of_cells held, Mdb.env_of_cells opened, failed, bind,
        Except.bind, pure, Except.pure]⟩
  · cases fault with
    | true => exact ⟨.eio, mdb.files, by
        simp [Mdb.txnCommit, Mdb.txn_of_cells held, Mdb.env_of_cells opened, failed, bind,
          Except.bind, pure, Except.pure]⟩
    | false => exact ⟨.success, Function.update mdb.files path txn.view, by
        simp [Mdb.txnCommit, Mdb.txn_of_cells held, Mdb.env_of_cells opened, failed, bind,
          Except.bind, pure, Except.pure]⟩

/-- An environment pointer leads to a live environment or nowhere. -/
theorem Mdb.env_cases (mdb : Mdb) (env : Option Nat) :
    mdb.env env = .error .env ∨
      ∃ handle state, env = some handle ∧ mdb.envs.cells handle = some state := by
  cases env with
  | none => exact .inl rfl
  | some handle =>
      cases held : mdb.envs.cells handle with
      | none => exact .inl (by rw [Mdb.env, held])
      | some state => exact .inr ⟨handle, state, rfl, held⟩

/-- `close` on an open object frees the transaction and the environment. -/
theorem LMDB.close_frees {object : LMDB} {mdb : Mdb} {handle env : Nat} {txn : Txn} {state : Env}
    {path : Bytes} (isOpen : object.isOpen = true) (points : object.txn = some handle)
    (held : mdb.txns.cells handle = some txn)
    (opened : mdb.envs.cells txn.env = some (.opened path)) (leads : object.env = some env)
    (live : mdb.envs.cells env = some state) (faults : MdbFaults) :
    ∃ files, object.close faults mdb = .ok (.unit, {object with isOpen := false},
      ⟨files, mdb.envs.release env, mdb.txns.release handle⟩) := by
  obtain ⟨rc, files, commit⟩ := Mdb.txnCommit_frees held opened faults.commit
  refine ⟨files, ?_⟩
  simp [LMDB.close, isOpen, points, leads, commit, Mdb.dbiClose, Mdb.envClose,
    Mdb.env, live, bind, Except.bind, pure, Except.pure]

end DbBench
