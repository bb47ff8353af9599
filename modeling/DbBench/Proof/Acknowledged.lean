import DbBench.Proof.TxnSpec

namespace DbBench

open KeyValue Transition

/-- A write takes effect in the view exactly when it returns 0. -/
theorem Txn.put_view (txn : Txn) (dbi : Option Nat) (key value : Bytes) (access : Access) :
    (txn.put dbi key value access).2.view =
      if (txn.put dbi key value access).1 = .success then txn.view.write (.put key value)
      else txn.view := by
  fun_cases Txn.put txn dbi key value access <;> rfl

theorem Txn.del_view (txn : Txn) (dbi : Option Nat) (key : Bytes) (access : Access) :
    (txn.del dbi key access).2.view =
      if (txn.del dbi key access).1 = .success then txn.view.write (.delete key)
      else txn.view := by
  fun_cases Txn.del txn dbi key access <;> rfl

theorem Txn.get_view (txn : Txn) (dbi : Option Nat) (key : Bytes) (access : Access) :
    (txn.get dbi key access).2.2.view = txn.view := by
  fun_cases Txn.get txn dbi key access <;> rfl

/-- A write of the empty key never returns 0. -/
theorem Txn.put_nonempty {txn : Txn} {dbi : Option Nat} {key value : Bytes} {access : Access}
    (stored : (txn.put dbi key value access).1 = .success) : key ≠ [] := by
  rintro rfl
  revert stored
  fun_cases Txn.put txn dbi [] value access <;> simp_all

/-- The library looks at the access only after it has accepted the key. -/
def Spoils (accepted : Prop) (access : Access) : Prop := accepted ∧ access = .exhausted

/-- These steps keep the shared transaction sound and acknowledge no deletion that failed. -/
def Careful (view : ByteStore) : Call × MdbFaults → Prop
  | (.get key, faults) => ¬ Spoils (key ≠ []) faults.access
  | (.put key _, faults) => ¬ Spoils (key ≠ [] ∧ key.length ≤ maxKeySize) faults.access
  | (.putBatch key _, faults) => ¬ Spoils (key ≠ [] ∧ key.length ≤ maxKeySize) faults.access
  | (.del key, faults) =>
      ¬ Spoils (key ≠ []) faults.access ∧ (faults.access = .refused → view key = none)
  | (.delBatch key, faults) => ¬ Spoils (key ≠ []) faults.access
  | (.applyBatch, faults) => faults.commit = false ∧ faults.txnBegin = false

/-- The step is careful in the view of the member transaction. -/
def CarefulAt (state : LMDB × Mdb) (input : Call × MdbFaults) : Prop :=
  ∀ handle txn, state.2.txn state.1.txn = .ok (handle, txn) → Careful txn.view input

theorem Txn.get_sound {txn : Txn} {dbi : Option Nat} {key : Bytes} {access : Access}
    (sound : txn.failed = false) (careful : ¬ Spoils (key ≠ []) access) :
    (txn.get dbi key access).2.2.failed = false := by
  fun_cases Txn.get txn dbi key access <;> simp_all [Spoils]

theorem Txn.put_sound {txn : Txn} {dbi : Option Nat} {key value : Bytes} {access : Access}
    (sound : txn.failed = false)
    (careful : ¬ Spoils (key ≠ [] ∧ key.length ≤ maxKeySize) access) :
    (txn.put dbi key value access).2.failed = false := by
  fun_cases Txn.put txn dbi key value access <;> simp_all [Spoils]

theorem Txn.del_sound {txn : Txn} {dbi : Option Nat} {key : Bytes} {access : Access}
    (sound : txn.failed = false) (careful : ¬ Spoils (key ≠ []) access) :
    (txn.del dbi key access).2.failed = false := by
  fun_cases Txn.del txn dbi key access <;> simp_all [Spoils]

/-- A careful deletion that answers anything but `MDB_NOTFOUND` leaves the key absent. -/
theorem Txn.del_acknowledged {txn : Txn} {key : Bytes} {access : Access}
    (sound : txn.failed = false) (quiet : txn.view [] = none)
    (careful : ¬ Spoils (key ≠ []) access) (refused : access = .refused → txn.view key = none) :
    (txn.del (some mainDbi) key access).2.view =
      if (txn.del (some mainDbi) key access).1 ≠ .notFound then txn.view.write (.delete key)
      else txn.view := by
  by_cases empty : key = []
  · subst empty
    simp [Txn.del, sound, Store.write_delete_absent _ quiet]
  · cases access with
    | done => cases held : txn.view key <;> simp [Txn.del, sound, empty, held]
    | refused => simp [Txn.del, sound, empty, Store.write_delete_absent _ (refused rfl)]
    | exhausted => exact absurd ⟨empty, rfl⟩ careful

/-- The direct write that a call asks for. -/
def Call.single : Call → List ByteWrite
  | .put key value => [.put key value]
  | .del key => [.delete key]
  | _ => []

/-- The direct writes that returned true, in their order. -/
def acknowledged (inputs : List (Call × MdbFaults)) (replies : List Reply) : List ByteWrite :=
  record (fun ops input reply => if reply = .flag true then ops ++ input.1.single else ops) []
    inputs replies

/-- A call touches this key by no batch operation. -/
def Call.SparesKey (key : Bytes) : Call → Prop
  | .putBatch other _ => other ≠ key
  | .delBatch other => other ≠ key
  | _ => True

/-- A sound transaction is its environment with its view. -/
theorem Txn.eq_of_sound {txn : Txn} {env : Nat} (same : txn.env = env)
    (sound : txn.failed = false) : txn = ⟨env, txn.view, false⟩ := by
  rw [← same, ← sound]

/-- A write that is refused for the empty key stores nothing there. -/
theorem Txn.put_quiet {txn : Txn} (dbi : Option Nat) (key value : Bytes) (access : Access)
    (quiet : txn.view [] = none) : (txn.put dbi key value access).2.view [] = none := by
  rw [Txn.put_view]
  split
  · rename_i stored
    rw [Store.write_of_ne _ _ (Txn.put_nonempty stored), quiet]
  · exact quiet

theorem Txn.del_quiet {txn : Txn} (dbi : Option Nat) (key : Bytes) (access : Access)
    (quiet : txn.view [] = none) : (txn.del dbi key access).2.view [] = none := by
  rw [Txn.del_view]
  split
  · by_cases empty : key = []
    · subst empty
      exact Store.write_self _ (.delete [])
    · exact (Store.write_of_ne _ (.delete key) empty).trans quiet
  · exact quiet

/-- A careful step keeps a sound transaction sound. -/
theorem txnCall_sound {dbi : Option Nat} {txn : Txn} {input : Call × MdbFaults}
    (sound : txn.failed = false) (careful : Careful txn.view input) :
    (txnCall dbi txn input).2.failed = false := by
  rcases input with ⟨request, faults⟩
  cases request with
  | get key => exact Txn.get_sound sound careful
  | put key value => exact Txn.put_sound sound careful
  | putBatch key value => exact Txn.put_sound sound careful
  | del key => exact Txn.del_sound sound careful.1
  | delBatch key => exact Txn.del_sound sound careful
  | applyBatch => exact sound

/-- No step stores the empty key. -/
theorem txnCall_quiet {dbi : Option Nat} {txn : Txn} (input : Call × MdbFaults)
    (quiet : txn.view [] = none) : (txnCall dbi txn input).2.view [] = none := by
  rcases input with ⟨request, faults⟩
  cases request with
  | get key => exact (congrFun (txn.get_view dbi key faults.access) []).trans quiet
  | put key value => exact Txn.put_quiet dbi key value faults.access quiet
  | putBatch key value => exact Txn.put_quiet dbi key value faults.access quiet
  | del key => exact Txn.del_quiet dbi key faults.access quiet
  | delBatch key => exact Txn.del_quiet dbi key faults.access quiet
  | applyBatch => exact quiet

/-- A key that a careful step spares has the answer of the acknowledged write. -/
theorem txnCall_answers {txn : Txn} {input : Call × MdbFaults} (sound : txn.failed = false)
    (quiet : txn.view [] = none) (careful : Careful txn.view input) {key : Bytes}
    (spares : input.1.SparesKey key) :
    (txnCall (some mainDbi) txn input).2.view key =
      if (txnCall (some mainDbi) txn input).1 = .flag true then
        txn.view.writeAll input.1.single key
      else txn.view key := by
  rcases input with ⟨request, faults⟩
  have silent : ∀ reply : Reply, txn.view key =
      if reply = .flag true then txn.view.writeAll [] key else txn.view key := by
    intro reply
    split <;> rfl
  cases request with
  | get other =>
      refine Eq.trans ?_ (silent _)
      simp only [txnCall, Txn.get_view]
  | put other value =>
      simp only [txnCall, Txn.put_view, Reply.flag.injEq, decide_eq_true_eq]
      split <;> rfl
  | putBatch other value =>
      refine Eq.trans ?_ (silent _)
      simp only [txnCall, Txn.put_view]
      split
      · exact Store.write_of_ne txn.view (.put other value) spares
      · rfl
  | del other =>
      simp only [txnCall, Txn.del_acknowledged sound quiet careful.1 careful.2, Reply.flag.injEq,
        decide_eq_true_eq]
      split <;> rfl
  | delBatch other =>
      refine Eq.trans ?_ (silent _)
      simp only [txnCall, Txn.del_view]
      split
      · exact Store.write_of_ne txn.view (.delete other) spares
      · rfl
  | applyBatch => exact silent _

/-- A careful `applyBatch` commits and begins again. -/
theorem Careful.commits {view : ByteStore} {input : Call × MdbFaults} (careful : Careful view input)
    (env : Nat) (applies : input.1 = .applyBatch) : Commits ⟨env, view, false⟩ input.2 := by
  obtain ⟨request, faults⟩ := input
  simp only at applies
  subst applies
  exact ⟨rfl, careful⟩

/-- The object holds a sound transaction that shows the acknowledged writes at one key. -/
def ShowsAt (key : Bytes) (start : ByteStore) (state : LMDB × Mdb) (ops : List ByteWrite) : Prop :=
  ∃ view, LmdbShows state view ∧ view [] = none ∧ view key = start.writeAll ops key

/-- Equal answers at a key stay equal under the same writes. -/
theorem writeAll_congr_at {first second : ByteStore} {key : Bytes} (same : first key = second key)
    (ops : List ByteWrite) : first.writeAll ops key = second.writeAll ops key := by
  rw [Store.writeAll_apply, Store.writeAll_apply, same]

theorem careful_step (key : Bytes) (start : ByteStore) (state : LMDB × Mdb)
    (ops : List ByteWrite) (input : Call × MdbFaults) (reply : Reply) (next : LMDB × Mdb)
    (shows : ShowsAt key start state ops)
    (meets : CarefulAt state input ∧ input.1.SparesKey key)
    (step : LMDB.call state input = .ok (reply, next)) :
    ShowsAt key start next (if reply = .flag true then ops ++ input.1.single else ops) := by
  obtain ⟨object, mdb⟩ := state
  obtain ⟨view, ⟨main, env, path, begun⟩, quiet, sees⟩ := shows
  simp only at main begun
  obtain ⟨handle, points, held⟩ := begun.begun
  have careful : Careful view input :=
    meets.1 handle ⟨env, view, false⟩ (by rw [points, Mdb.txn_of_cells held])
  obtain ⟨object', mdb', taken, kept, dbi, _⟩ :=
    LMDB.call_follows begun input (careful.commits env)
  rw [main] at taken kept
  have same : (reply, next) = (_, object', mdb') := Except.ok.inj (step.symm.trans taken)
  cases same
  generalize whole : (⟨env, view, false⟩ : Txn) = txn at *
  have sound : txn.failed = false := by rw [← whole]
  have equal := Txn.eq_of_sound
    ((txnCall_env (some mainDbi) txn input).trans (congrArg Txn.env whole.symm))
    (txnCall_sound sound (whole ▸ careful))
  rw [equal] at kept
  refine ⟨_, ⟨dbi.trans main, env, path, kept⟩, txnCall_quiet input (whole ▸ quiet), ?_⟩
  rw [txnCall_answers sound (whole ▸ quiet) (whole ▸ careful) meets.2, ← whole]
  split
  · rw [Store.writeAll_append]
    exact writeAll_congr_at sees input.1.single
  · exact sees

/-- The reply of a `get` whose own library call meets no failure. -/
def stored (state : LMDB × Mdb) (key : Bytes) : Except Misuse Reply :=
  (LMDB.call state (.get key, MdbFaults.none)).map Prod.fst

/-- A sound transaction answers from its view. -/
theorem stored_eq {state : LMDB × Mdb} {view : ByteStore} (shows : LmdbShows state view)
    (quiet : view [] = none) (key : Bytes) : stored state key = .ok (shown (view key)) := by
  obtain ⟨object, mdb⟩ := state
  obtain ⟨main, env, path, begun⟩ := shows
  simp only at main begun
  obtain ⟨next, after, taken, _⟩ :=
    LMDB.call_follows begun (.get key, MdbFaults.none) (by simp)
  rw [stored, taken, main]
  by_cases empty : key = []
  · subst empty
    simp [Except.map, txnCall, Txn.get, quiet, shown]
  · cases held : view key <;> simp [Except.map, txnCall, Txn.get, MdbFaults.none, empty, held, shown]

/-- After a run, `get` answers the last acknowledged `put` or `del` of the key, or what the store
held before. -/
def AnswersAcknowledged (contents : ByteStore) (inputs : List (Call × MdbFaults))
    (replies : List Reply) (final : LMDB × Mdb) (key : Bytes) : Prop :=
  stored final key = .ok (shown ((lastWrite (acknowledged inputs replies) key).getD (contents key)))

/-- After every run on an opened store, `get` answers so for every key that no batch operation
touches. No store holds the empty key. -/
def KeepsAcknowledged : Prop :=
  ∀ (dbname : Bytes) (faults : MdbFaults) (mdb opened : Mdb) (object : LMDB),
    mdb.files dbname [] = none →
    LMDB.open .fresh dbname faults mdb = .ok (.flag true, object, opened) →
    ∀ (inputs : List (Call × MdbFaults)) (replies : List Reply) (final : LMDB × Mdb),
      run LMDB.call (object, opened) inputs = .ok (replies, final) →
      ∀ key, (∀ input ∈ inputs, input.1.SparesKey key) →
        AnswersAcknowledged (mdb.files dbname) inputs replies final key

/-- Acknowledged single writes stay in every run whose steps are careful. -/
theorem lmdb_keeps_acknowledged {dbname : Bytes} {faults : MdbFaults} {mdb opened : Mdb}
    {object : LMDB} (quiet : mdb.files dbname [] = none)
    (opening : LMDB.open .fresh dbname faults mdb = .ok (.flag true, object, opened))
    (usable : faults.dbiOpen = false) {inputs : List (Call × MdbFaults)} {replies : List Reply}
    {final : LMDB × Mdb} (careful : Along LMDB.call CarefulAt (object, opened) inputs)
    (ran : run LMDB.call (object, opened) inputs = .ok (replies, final)) {key : Bytes}
    (spares : ∀ input ∈ inputs, input.1.SparesKey key) :
    AnswersAcknowledged (mdb.files dbname) inputs replies final key := by
  obtain ⟨env, begun, dbi⟩ := LMDB.open_fresh opening
  rw [usable] at dbi
  have start : ShowsAt key (mdb.files dbname) (object, opened) [] :=
    ⟨mdb.files dbname, ⟨dbi, env, dbname, begun⟩, quiet, rfl⟩
  obtain ⟨view, shows, silent, sees⟩ := run_along LMDB.call _ (ShowsAt key (mdb.files dbname)) _
    (careful_step key (mdb.files dbname)) (careful.and_inputs spares) start ran
  rw [AnswersAcknowledged, stored_eq shows silent, sees, Store.writeAll_apply]
  rfl

/-- An access fails in this way and no other library call fails. -/
def MdbFaults.during (access : Access) : MdbFaults := {MdbFaults.none with access := access}

/-- This run meets failures that leave the transaction sound. -/
def carefulRun : List (Call × MdbFaults) :=
  [(.put [97] [49], MdbFaults.none), (.put [98] [50], MdbFaults.during .refused),
    (.del [99], MdbFaults.during .refused), (.applyBatch, MdbFaults.none)]

/-- The acknowledged write of a careful run is still there at its end. -/
theorem lmdb_keeps_acknowledged_carefulRun :
    ∃ (object : LMDB) (opened : Mdb) (replies : List Reply) (final : LMDB × Mdb),
      LMDB.open .fresh [100] MdbFaults.none Mdb.blank = .ok (.flag true, object, opened) ∧
      run LMDB.call (object, opened) carefulRun = .ok (replies, final) ∧
      stored final [97] = .ok (.lookup true (some [49])) := by
  refine ⟨_, _, _, _, rfl, rfl, ?_⟩
  refine @lmdb_keeps_acknowledged [100] MdbFaults.none Mdb.blank _ _ rfl rfl rfl carefulRun _ _ ?_ rfl
    [97] (by simp [carefulRun, Call.SparesKey])
  refine ⟨?_, ?_, ?_, ?_, trivial⟩
  · exact fun _ _ _ => by simp [Careful, Spoils, MdbFaults.none]
  · exact fun _ _ _ => by simp [Careful, Spoils, MdbFaults.during]
  · intro handle txn held
    cases held
    exact ⟨by simp [Spoils, MdbFaults.during], fun _ => rfl⟩
  · exact fun _ _ _ => ⟨rfl, rfl⟩

/-- This value does not fit into the map of 1 MiB that `open` leaves as it is. -/
def largeValue : Bytes := List.replicate 2000000 120

/-- After one `put` has found the map full, an acknowledged write of another key is gone. -/
theorem lmdb_loses_acknowledged : ¬ KeepsAcknowledged := by
  intro claim
  have kept := claim [100] MdbFaults.none Mdb.blank _ _ rfl rfl
    [(.put [97] [49], MdbFaults.none), (.put [98] largeValue, MdbFaults.during .exhausted)] _ _ rfl
    [97] (by simp [Call.SparesKey])
  have same : false = true := (Reply.lookup.inj (Except.ok.inj kept)).1
  cases same

end DbBench
