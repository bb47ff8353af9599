import DbBench.Proof.OpenShards
import DbBench.Proof.ShardedSteps
import DbBench.Spec.Protocol

namespace DbBench

open KeyValue Transition

/-- The key whose shard a call reaches. -/
def Call.accessKey : Call → Option Bytes
  | .get key => some key
  | .put key _ => if key.isEmpty then none else some key
  | .putBatch key _ => if key.isEmpty then none else some key
  | .del key => if key.isEmpty then none else some key
  | .delBatch key => if key.isEmpty then none else some key
  | .applyBatch => none

/-- The entry points to a live database that the latest `open` made for its own name. -/
def Current (state : (ShardedDB × Disk) × Watch) (entry : DB) : Prop :=
  ∃ handle shard, entry.db = some handle ∧ state.2.since ≤ handle ∧
    state.1.2.pathOf entry.db = .ok (shardPath state.1.1.dbname shard)

/-- A call is issued on the entry at the index of its key, and `applyBatch` on every entry. -/
def shardIssued (engine : Engine) (state : (ShardedDB × Disk) × Watch) (request : Call) : Prop :=
  (∀ key, request.accessKey = some key →
    ∃ entry, state.1.1.dbs[engine.index key]? = some entry ∧ Current state entry) ∧
    (request = .applyBatch → ∀ entry ∈ state.1.1.dbs, Current state entry)

/-- No `close` meets an entry that an earlier one has deleted, a key's index lies beyond the
entries that earlier calls of `open` left, and `applyBatch` finds no such entry. -/
def ShardsFresh (engine : Engine) (state : (ShardedDB × Disk) × Watch) (input : Action × Outcomes) :
    Prop :=
  match input.1 with
  | .opening _ => True
  | .closing => ∀ entry ∈ state.1.1.dbs, ∃ path, state.1.2.pathOf entry.db = .ok path
  | .call request =>
      (∀ key, request.accessKey = some key →
        state.1.1.dbs.length ≤ engine.index key + shardCount) ∧
        (request = .applyBatch → state.1.1.dbs.length ≤ shardCount)

/-- These are the two pointers of an entry. -/
def DB.pointers (entry : DB) : Option Nat × Option Nat := (entry.db, entry.blockCache)

theorem handles_pointers (dbs : List DB) :
    handles dbs = (dbs.map DB.pointers).flatMap fun pair => pair.1.toList ++ pair.2.toList := by
  rw [List.flatMap_map]
  rfl

/-- A data operation keeps the pointers of every entry. -/
theorem Changes.pointers {engine : Engine} {object next : ShardedDB} {request : Call}
    {reply : Reply} (changes : Changes engine object request reply next) :
    next.dbs.map DB.pointers = object.dbs.map DB.pointers ∧ next.dbname = object.dbname := by
  have modified : ∀ (idx : Nat) (change : DB → DB), (∀ entry, (change entry).pointers = entry.pointers) →
      (object.dbs.modify idx change).map DB.pointers = object.dbs.map DB.pointers := by
    intro idx change keeps
    apply List.ext_getElem?
    intro other
    rw [List.getElem?_map, List.getElem?_modify, List.getElem?_map, Option.map_eq_map,
      Option.map_map]
    congr 1
    funext entry
    by_cases same : idx = other <;> simp [same, keeps]
  cases changes with
  | status key status => exact ⟨modified _ _ fun _ => rfl, rfl⟩
  | nothing => exact ⟨rfl, rfl⟩
  | batch idx op => exact ⟨modified _ _ fun _ => rfl, rfl⟩
  | clear =>
      refine ⟨?_, rfl⟩
      simp only [ShardedDB.clearBatches, List.map_map]
      rfl

/-- Every identity that the vector points to was given out once. The database and the cache of an
entry are live together, or the database is deleted. The entries of the latest `open` come last
and are live. -/
structure Held (dbname : Bytes) (pairs : List (Option Nat × Option Nat)) (arena : Arena Resource)
    (watch : Watch) : Prop where
  bounded : ∀ handle ∈ pairs.flatMap (fun pair => pair.1.toList ++ pair.2.toList),
    handle < arena.next
  distinct : (pairs.flatMap fun pair => pair.1.toList ++ pair.2.toList).Nodup
  whole : ∀ pair ∈ pairs, ∃ handle, pair.1 = some handle ∧ (arena.cells handle = none ∨
    ((∃ path, arena.cells handle = some (.db path)) ∧
      ∀ cache, pair.2 = some cache → arena.cells cache = some .cache))
  latest : watch.opened = true → ∃ stale added, pairs = stale ++ added ∧
    added.length = shardCount ∧ (∀ pair ∈ stale, ∀ handle, pair.1 = some handle →
      handle < watch.since) ∧
    ∀ offset pair, added[offset]? = some pair → ∃ handle, pair.1 = some handle ∧
      watch.since ≤ handle ∧ arena.cells handle = some (.db (shardPath dbname offset))

/-- The invariant of an object under the eyes of the observer. -/
def HeldState (state : (ShardedDB × Disk) × Watch) : Prop :=
  Held state.1.1.dbname (state.1.1.dbs.map DB.pointers) state.1.2.arena state.2

theorem HeldState.fresh (disk : Disk) : HeldState ((ShardedDB.fresh, disk), Watch.none) :=
  ⟨by simp [ShardedDB.fresh], by simp [ShardedDB.fresh], by simp [ShardedDB.fresh], nofun⟩

/-- The path of a live database. -/
theorem pathOf_of_cells {disk : Disk} {handle : Nat} {path : Bytes}
    (held : disk.arena.cells handle = some (.db path)) : disk.pathOf (some handle) = .ok path := by
  simp [Disk.pathOf, held]

theorem cells_of_pathOf {disk : Disk} {handle : Nat} {path : Bytes}
    (live : disk.pathOf (some handle) = .ok path) :
    disk.arena.cells handle = some (.db path) := by
  cases held : disk.arena.cells handle with
  | none => simp [Disk.pathOf, held] at live
  | some resource =>
      cases resource with
      | db other =>
          simp only [Disk.pathOf, held, Except.ok.injEq] at live
          rw [live]
      | cache => simp [Disk.pathOf, held] at live

theorem handle_of_pathOf {disk : Disk} {db : Option Nat} {path : Bytes}
    (live : disk.pathOf db = .ok path) :
    ∃ handle, db = some handle ∧ disk.arena.cells handle = some (.db path) := by
  cases db with
  | none => cases live
  | some handle => exact ⟨handle, rfl, cells_of_pathOf live⟩

/-- `open` adds entries with new identities behind the old ones. -/
theorem Held.opening {dbs added : List DB} {disk next : Disk} {old dbname : Bytes} {watch : Watch}
    {ok : Bool} (held : Held old (dbs.map DB.pointers) disk.arena watch)
    (facts : Added dbname 0 disk next added) (success : ok = true → added.length = shardCount) :
    Held dbname ((dbs ++ added).map DB.pointers) next.arena ⟨ok, disk.arena.next⟩ := by
  have oldBounded := held.bounded
  have oldDistinct := held.distinct
  rw [← handles_pointers] at oldBounded oldDistinct
  refine ⟨?_, ?_, fun pair member => ?_, fun opened => ?_⟩
  · rw [← handles_pointers, handles_append]
    intro handle member
    rcases List.mem_append.mp member with earlier | later
    · have below := oldBounded handle earlier
      have frontier := facts.grown.frontier
      omega
    · exact (facts.fresh handle later).2
  · rw [← handles_pointers, handles_append, List.nodup_append']
    refine ⟨oldDistinct, facts.distinct, fun handle earlier later => ?_⟩
    have below := oldBounded handle earlier
    have above := (facts.fresh handle later).1
    omega
  · rw [List.map_append] at member
    rcases List.mem_append.mp member with earlier | later
    · obtain ⟨handle, points, state⟩ := held.whole pair earlier
      have below : ∀ other ∈ pair.1.toList ++ pair.2.toList, other < disk.arena.next :=
        fun other inside => held.bounded other (List.mem_flatMap.mpr ⟨pair, earlier, inside⟩)
      have same : next.arena.cells handle = disk.arena.cells handle :=
        facts.grown.same handle (below handle (by simp [points]))
      refine ⟨handle, points, ?_⟩
      rw [same]
      refine state.imp_right fun live => ⟨live.1, fun cache leads => ?_⟩
      rw [facts.grown.same cache (below cache (by simp [leads]))]
      exact live.2 cache leads
    · obtain ⟨entry, inside, equal⟩ := List.mem_map.mp later
      obtain ⟨offset, found⟩ := List.getElem?_of_mem inside
      obtain ⟨handle, points, live⟩ := handle_of_pathOf (facts.paths offset entry found)
      subst equal
      exact ⟨handle, points, .inr ⟨⟨_, live⟩, facts.caches entry inside⟩⟩
  · refine ⟨dbs.map DB.pointers, added.map DB.pointers, List.map_append, ?_, ?_, ?_⟩
    · rw [List.length_map]
      exact success opened
    · intro pair member handle points
      exact held.bounded handle (List.mem_flatMap.mpr ⟨pair, member, by simp [points]⟩)
    · intro offset pair found
      rw [List.getElem?_map] at found
      obtain ⟨entry, here, equal⟩ := Option.map_eq_some_iff.mp found
      subst equal
      obtain ⟨handle, points, live⟩ := handle_of_pathOf (facts.paths offset entry here)
      rw [Nat.zero_add] at live
      refine ⟨handle, points, (facts.fresh handle ?_).1, live⟩
      exact List.mem_flatMap.mpr ⟨entry, List.mem_of_getElem? here, by simp [DB.handles, points]⟩

/-- One round of `close` deletes a live database with its live cache and nothing else. -/
theorem closeShards_round {entry : DB} {disk : Disk} {path : Bytes} (rest : List DB)
    (distinct : entry.handles.Nodup) (live : disk.pathOf entry.db = .ok path)
    (cached : ∀ cache, entry.blockCache = some cache → disk.arena.cells cache = some .cache) :
    ∃ middle, closeShards (entry :: rest) disk = closeShards rest middle ∧
      middle.arena.next = disk.arena.next ∧
      (∀ handle ∈ entry.handles, middle.arena.cells handle = none) ∧
      ∀ handle, handle ∉ entry.handles →
        middle.arena.cells handle = disk.arena.cells handle := by
  obtain ⟨handle, points, held⟩ := handle_of_pathOf live
  have deleted : disk.deleteDB handle = .ok {disk with arena := disk.arena.release handle} := by
    rw [Disk.deleteDB, held]
  cases leads : entry.blockCache with
  | none =>
      refine ⟨{disk with arena := disk.arena.release handle}, ?_, rfl, ?_, ?_⟩
      · simp only [closeShards, points, leads, deleted, bind, Except.bind, pure, Except.pure]
      · intro other member
        have same : other = handle := by simpa [DB.handles, points, leads] using member
        rw [same]
        exact Arena.release_cells_self disk.arena handle
      · intro other outside
        have different : other ≠ handle := by simpa [DB.handles, points, leads] using outside
        exact Arena.release_cells_of_ne disk.arena different
  | some cache =>
      have apart : cache ≠ handle := by
        simp only [DB.handles, points, leads, Option.toList_some, List.singleton_append,
          List.nodup_cons, List.mem_singleton] at distinct
        exact Ne.symm distinct.1
      have kept : (disk.arena.release handle).cells cache = some .cache := by
        rw [Arena.release_cells_of_ne disk.arena apart, cached cache leads]
      refine ⟨{disk with arena := (disk.arena.release handle).release cache}, ?_, rfl, ?_, ?_⟩
      · simp only [closeShards, points, leads, deleted, Disk.deleteCache, kept, bind, Except.bind]
      · intro other member
        have either : other = handle ∨ other = cache := by
          simpa [DB.handles, points, leads] using member
        rcases either with same | same
        · rw [same]
          exact (Arena.release_cells_of_ne _ (Ne.symm apart)).trans
            (Arena.release_cells_self disk.arena handle)
        · rw [same]
          exact Arena.release_cells_self _ cache
      · intro other outside
        have neither : other ≠ handle ∧ other ≠ cache := by
          simpa [DB.handles, points, leads] using outside
        exact (Arena.release_cells_of_ne _ neither.2).trans
          (Arena.release_cells_of_ne disk.arena neither.1)

/-- A vector whose databases and caches are live and distinct is deleted as a whole. -/
theorem closeShards_frees (dbs : List DB) (disk : Disk) (distinct : (handles dbs).Nodup)
    (live : ∀ entry ∈ dbs, (∃ path, disk.pathOf entry.db = .ok path) ∧
      ∀ cache, entry.blockCache = some cache → disk.arena.cells cache = some .cache) :
    ∃ after, closeShards dbs disk = .ok after ∧ after.arena.next = disk.arena.next ∧
      (∀ handle ∈ handles dbs, after.arena.cells handle = none) ∧
      ∀ handle, handle ∉ handles dbs → after.arena.cells handle = disk.arena.cells handle := by
  induction dbs generalizing disk with
  | nil => exact ⟨disk, rfl, rfl, by simp, fun _ _ => rfl⟩
  | cons entry rest ih =>
      rw [handles_cons, List.nodup_append'] at distinct
      obtain ⟨own, others, apart⟩ := distinct
      obtain ⟨⟨path, here⟩, cached⟩ := live entry List.mem_cons_self
      obtain ⟨middle, round, frontier, freed, kept⟩ := closeShards_round rest own here cached
      obtain ⟨after, ran, frontier', freed', kept'⟩ := ih middle others (by
        intro later member
        obtain ⟨⟨path', live'⟩, cached'⟩ := live later (List.mem_cons_of_mem entry member)
        obtain ⟨handle, points, held⟩ := handle_of_pathOf live'
        have outside : ∀ other ∈ later.handles, other ∉ entry.handles := fun other inside same =>
          apart same (List.mem_flatMap.mpr ⟨later, member, inside⟩)
        refine ⟨⟨path', ?_⟩, fun cache leads => ?_⟩
        · rw [points]
          apply pathOf_of_cells
          rw [kept handle (outside handle (by simp [DB.handles, points])), held]
        · rw [kept cache (outside cache (by simp [DB.handles, leads])), cached' cache leads])
      refine ⟨after, round.trans ran, frontier'.trans frontier, fun handle member => ?_,
        fun handle outside => ?_⟩
      · by_cases later : handle ∈ handles rest
        · exact freed' handle later
        · rw [kept' handle later]
          apply freed handle
          rw [handles_cons] at member
          exact (List.mem_append.mp member).resolve_right later
      · rw [handles_cons, List.mem_append, not_or] at outside
        rw [kept' handle outside.2, kept handle outside.1]

/-- A deletion either meets a live object, and leaves the dead ones dead, or misuses a handle. -/
theorem deleteDB_cases (disk : Disk) (db : Nat) :
    disk.deleteDB db = .error .handle ∨
      disk.deleteDB db = .ok {disk with arena := disk.arena.release db} := by
  rw [Disk.deleteDB]
  split
  · exact .inr rfl
  · exact .inl rfl

theorem deleteCache_cases (disk : Disk) (cache : Nat) :
    disk.deleteCache cache = .error .handle ∨
      disk.deleteCache cache = .ok {disk with arena := disk.arena.release cache} := by
  rw [Disk.deleteCache]
  split
  · exact .inr rfl
  · exact .inl rfl

theorem release_keeps_dead {arena : Arena Resource} {handle : Nat} (other : Nat)
    (dead : arena.cells handle = none) : (arena.release other).cells handle = none := by
  by_cases same : handle = other
  · rw [same]
    exact Arena.release_cells_self arena other
  · rw [Arena.release_cells_of_ne arena same, dead]

/-- The deletions of one round stop `close` or keep the dead objects dead. -/
theorem closeShards_onward (first : DB) (rest : List DB) (disk : Disk) {handle : Nat}
    (dead : disk.arena.cells handle = none) :
    closeShards (first :: rest) disk = .error .handle ∨
      ∃ middle : Disk, closeShards (first :: rest) disk = closeShards rest middle ∧
        middle.arena.cells handle = none := by
  have cached : ∀ middle : Disk, middle.arena.cells handle = none →
      closeShards ({first with db := none} :: rest) middle = .error .handle ∨
        ∃ later : Disk, closeShards ({first with db := none} :: rest) middle =
          closeShards rest later ∧ later.arena.cells handle = none := by
    intro middle gone
    cases leads : first.blockCache with
    | none => exact .inr ⟨middle, by simp [closeShards, bind, Except.bind, pure, Except.pure], gone⟩
    | some cache =>
        rcases deleteCache_cases middle cache with failed | freed
        · exact .inl (by simp [closeShards, failed, bind, Except.bind, pure, Except.pure])
        · refine .inr ⟨{middle with arena := middle.arena.release cache}, ?_,
            release_keeps_dead cache gone⟩
          simp [closeShards, freed, bind, Except.bind, pure, Except.pure]
  cases leads : first.db with
  | none =>
      have same : first = {first with db := none} := by rw [← leads]
      rw [same]
      exact cached disk dead
  | some db =>
      rcases deleteDB_cases disk db with failed | freed
      · exact .inl (by simp [closeShards, leads, failed, bind, Except.bind])
      · have onward : closeShards (first :: rest) disk =
            closeShards ({first with db := none} :: rest)
              {disk with arena := disk.arena.release db} := by
          simp [closeShards, leads, freed, bind, Except.bind, pure, Except.pure]
        rw [onward]
        exact cached _ (release_keeps_dead db dead)

/-- An entry that is deleted already makes `close` delete it again. -/
theorem closeShards_twice (dbs : List DB) (disk : Disk) {entry : DB} (member : entry ∈ dbs)
    {handle : Nat} (points : entry.db = some handle) (dead : disk.arena.cells handle = none) :
    closeShards dbs disk = .error .handle := by
  induction dbs generalizing disk with
  | nil => cases member
  | cons first rest ih =>
      rcases List.mem_cons.mp member with same | later
      · subst same
        simp only [closeShards, points, Disk.deleteDB, dead, bind, Except.bind]
      · rcases closeShards_onward first rest disk dead with stopped | ⟨middle, onward, gone⟩
        · exact stopped
        · rw [onward]
          exact ih middle later gone

/-- An entry whose database is live serves every call on its keys. -/
theorem call_of_live (engine : Engine) {object : ShardedDB} {disk : Disk} {request : Call}
    {key path : Bytes} {entry : DB} (keyed : request.accessKey = some key)
    (found : object.dbs[engine.index key]? = some entry)
    (live : disk.pathOf entry.db = .ok path) (outcomes : Outcomes) :
    ∃ result, ShardedDB.call engine (object, disk) (request, outcomes) = .ok result := by
  have held : object.entry (engine.index key) = .ok entry := entry_eq_ok.mpr found
  cases request with
  | get other =>
      cases keyed
      simp [ShardedDB.call, ShardedDB.get, ShardedDB.performGet, held, get_of_path live,
        statusOk_setStatus found, bind, Except.bind, pure, Except.pure]
  | put other value =>
      obtain ⟨filled, same⟩ := Option.ite_none_left_eq_some.mp keyed
      cases same
      simp [ShardedDB.call, ShardedDB.put, ShardedDB.performPut, Disk.put, filled, held,
        write_of_path live, statusOk_setStatus found, bind, Except.bind, pure, Except.pure]
  | putBatch other value =>
      obtain ⟨filled, same⟩ := Option.ite_none_left_eq_some.mp keyed
      cases same
      simp [ShardedDB.call, ShardedDB.putBatch, filled, held, bind, Except.bind, pure, Except.pure]
  | del other =>
      obtain ⟨filled, same⟩ := Option.ite_none_left_eq_some.mp keyed
      cases same
      simp [ShardedDB.call, ShardedDB.del, ShardedDB.performDel, Disk.delete, filled, held,
        write_of_path live, statusOk_setStatus found, bind, Except.bind, pure, Except.pure]
  | delBatch other =>
      obtain ⟨filled, same⟩ := Option.ite_none_left_eq_some.mp keyed
      cases same
      simp [ShardedDB.call, ShardedDB.delBatch, filled, held, bind, Except.bind, pure, Except.pure]
  | applyBatch => cases keyed

/-- A call with an empty key that the adapter refuses reaches no entry. -/
theorem call_of_unkeyed (engine : Engine) (object : ShardedDB) (disk : Disk) {request : Call}
    (unkeyed : request.accessKey = none) (single : request ≠ .applyBatch) (outcomes : Outcomes) :
    ∃ result, ShardedDB.call engine (object, disk) (request, outcomes) = .ok result := by
  cases request with
  | get key => cases unkeyed
  | put key value =>
      have empty : key.isEmpty = true := by simpa [Call.accessKey] using unkeyed
      simp [ShardedDB.call, ShardedDB.put, empty, pure, Except.pure]
  | putBatch key value =>
      have empty : key.isEmpty = true := by simpa [Call.accessKey] using unkeyed
      simp [ShardedDB.call, ShardedDB.putBatch, empty, pure, Except.pure]
  | del key =>
      have empty : key.isEmpty = true := by simpa [Call.accessKey] using unkeyed
      simp [ShardedDB.call, ShardedDB.del, empty, pure, Except.pure]
  | delBatch key =>
      have empty : key.isEmpty = true := by simpa [Call.accessKey] using unkeyed
      simp [ShardedDB.call, ShardedDB.delBatch, empty, pure, Except.pure]
  | applyBatch => exact absurd rfl single

/-- The loop of `applyBatch` over live databases misuses nothing. -/
theorem writeShards_of_live (outcomes : Outcomes) (rest : List DB) (idx : Nat) (disk : Disk)
    (live : ∀ entry ∈ rest, ∃ path, disk.pathOf entry.db = .ok path) :
    ∃ result, writeShards outcomes idx rest disk = .ok result := by
  induction rest generalizing idx disk with
  | nil => exact ⟨(true, disk), rfl⟩
  | cons entry rest ih =>
      obtain ⟨path, here⟩ := live entry List.mem_cons_self
      rw [writeShards_cons here]
      split
      · refine ih _ _ fun later member => ?_
        obtain ⟨path', there⟩ := live later (List.mem_cons_of_mem entry member)
        exact ⟨path', (pathOf_congr (written_arena _ _ _ _) later.db).trans there⟩
      · exact ⟨_, rfl⟩

/-- A call on the handles of the latest `open` misuses nothing. -/
theorem call_of_issued (engine : Engine) {state : (ShardedDB × Disk) × Watch} {request : Call}
    (issued : shardIssued engine state request) (outcomes : Outcomes) :
    ∃ result, ShardedDB.call engine state.1 (request, outcomes) = .ok result := by
  obtain ⟨keyed, whole⟩ := issued
  by_cases applies : request = .applyBatch
  · subst applies
    obtain ⟨⟨ok, later⟩, wrote⟩ := writeShards_of_live outcomes state.1.1.dbs 0 state.1.2
      fun entry member => by
        obtain ⟨_, shard, _, _, live⟩ := whole rfl entry member
        exact ⟨_, live⟩
    simp only [ShardedDB.call, ShardedDB.applyBatch, wrote, bind, Except.bind]
    cases ok <;> exact ⟨_, rfl⟩
  · cases access : request.accessKey with
    | none => exact call_of_unkeyed engine state.1.1 state.1.2 access applies outcomes
    | some key =>
        obtain ⟨entry, found, _, _, _, _, live⟩ := keyed key access
        exact call_of_live engine access found live outcomes

/-- While the latest `open` counts, its entries are the last ones, and they alone are current. -/
theorem HeldState.current_iff {state : (ShardedDB × Disk) × Watch} (held : HeldState state)
    (opened : state.2.opened = true) {idx : Nat} {entry : DB}
    (found : state.1.1.dbs[idx]? = some entry) :
    Current state entry ↔ state.1.1.dbs.length ≤ idx + shardCount := by
  obtain ⟨stale, added, split, count, before, after⟩ := held.latest opened
  have length : state.1.1.dbs.length = stale.length + shardCount := by
    rw [← List.length_map (f := DB.pointers), split, List.length_append, count]
  have pair : (stale ++ added)[idx]? = some entry.pointers := by
    rw [← split, List.getElem?_map, found, Option.map_some]
  rw [length, Nat.add_le_add_iff_right]
  constructor
  · rintro ⟨handle, shard, points, recent, _⟩
    by_contra old
    rw [List.getElem?_append_left (by omega)] at pair
    have below := before _ (List.mem_of_getElem? pair) handle points
    omega
  · intro recent
    rw [List.getElem?_append_right recent] at pair
    obtain ⟨handle, points, since, live⟩ := after _ _ pair
    have leads : entry.db = some handle := points
    refine ⟨handle, idx - stale.length, leads, since, ?_⟩
    rw [leads]
    exact pathOf_of_cells live

/-- While the latest `open` counts, a call is issued on its handles exactly when no older entry
stands in its way. -/
theorem HeldState.issued_iff (engine : Engine) {state : (ShardedDB × Disk) × Watch}
    (held : HeldState state) (opened : state.2.opened = true) (request : Call)
    (outcomes : Outcomes) :
    shardIssued engine state request ↔ ShardsFresh engine state (.call request, outcomes) := by
  obtain ⟨stale, added, split, count, _, _⟩ := held.latest opened
  have enough : shardCount ≤ state.1.1.dbs.length := by
    rw [← List.length_map (f := DB.pointers), split, List.length_append, count]
    omega
  refine and_congr (forall_congr' fun key => imp_congr_right fun _ => ?_)
    (imp_congr_right fun _ => ?_)
  · have inside : engine.index key < state.1.1.dbs.length := by
      have below := engine.inside key
      omega
    constructor
    · rintro ⟨entry, found, current⟩
      exact (held.current_iff opened found).mp current
    · intro fresh
      have found := List.getElem?_eq_getElem inside
      exact ⟨_, found, (held.current_iff opened found).mpr fresh⟩
  · constructor
    · intro whole
      have several : 0 < shardCount := by decide
      have positive : 0 < state.1.1.dbs.length := by omega
      have first := whole _ (List.getElem_mem positive)
      rw [held.current_iff opened (List.getElem?_eq_getElem positive), Nat.zero_add] at first
      exact first
    · intro fresh entry member
      obtain ⟨idx, found⟩ := List.getElem?_of_mem member
      rw [held.current_iff opened found]
      exact Nat.le_trans fresh (Nat.le_add_left _ _)

/-- Before a `close` that meets live databases only, the block caches are live as well. -/
theorem HeldState.caches {state : (ShardedDB × Disk) × Watch} (held : HeldState state)
    (live : ∀ entry ∈ state.1.1.dbs, ∃ path, state.1.2.pathOf entry.db = .ok path) :
    ∀ entry ∈ state.1.1.dbs, (∃ path, state.1.2.pathOf entry.db = .ok path) ∧
      ∀ cache, entry.blockCache = some cache → state.1.2.arena.cells cache = some .cache := by
  intro entry member
  refine ⟨live entry member, ?_⟩
  obtain ⟨path, here⟩ := live entry member
  obtain ⟨handle, points, holds⟩ := handle_of_pathOf here
  obtain ⟨other, leads, either⟩ := held.whole _ (List.mem_map_of_mem member)
  have same : other = handle := Option.some.inj (leads.symm.trans points)
  rcases either with dead | ⟨_, caches⟩
  · rw [same, holds] at dead
    cases dead
  · exact caches

/-- A `close` that meets live databases only releases what the vector points to, and only that. -/
theorem HeldState.close_frees {state : (ShardedDB × Disk) × Watch} (held : HeldState state)
    (live : ∀ entry ∈ state.1.1.dbs, ∃ path, state.1.2.pathOf entry.db = .ok path) :
    ∃ after, state.1.1.close state.1.2 = .ok (.unit, state.1.1, after) ∧
      after.arena.next = state.1.2.arena.next ∧
      ∀ handle ∈ handles state.1.1.dbs, after.arena.cells handle = none := by
  have distinct := held.distinct
  rw [← handles_pointers] at distinct
  obtain ⟨after, ran, frontier, freed, _⟩ :=
    closeShards_frees state.1.1.dbs state.1.2 distinct (held.caches live)
  refine ⟨after, ?_, frontier, freed⟩
  simp only [ShardedDB.close, ran, bind, Except.bind, pure, Except.pure]

/-- A `close` misuses nothing exactly when it meets live databases only. -/
theorem HeldState.close_iff {state : (ShardedDB × Disk) × Watch} (held : HeldState state) :
    (∀ misuse, state.1.1.close state.1.2 = .error misuse → misuse = .deadlock) ↔
      ∀ entry ∈ state.1.1.dbs, ∃ path, state.1.2.pathOf entry.db = .ok path := by
  constructor
  · intro sound entry member
    obtain ⟨handle, points, either⟩ := held.whole _ (List.mem_map_of_mem member)
    have leads : entry.db = some handle := points
    rcases either with dead | ⟨⟨path, live⟩, _⟩
    · have twice := closeShards_twice state.1.1.dbs state.1.2 member leads dead
      have harm := sound .handle (by simp only [ShardedDB.close, twice, bind, Except.bind])
      cases harm
    · rw [leads]
      exact ⟨path, pathOf_of_cells live⟩
  · intro live misuse failed
    obtain ⟨after, ran, _⟩ := held.close_frees live
    rw [ran] at failed
    cases failed

/-- In every step under the contract, compliance is freshness. -/
theorem HeldState.complies_iff (engine : Engine) {state : (ShardedDB × Disk) × Watch}
    {input : Action × Outcomes} (held : HeldState state) (contract : InContract state input) :
    Complies (ShardedDB.act engine) (shardIssued engine) state input ↔
      ShardsFresh engine state input := by
  rcases input with ⟨action, outcomes⟩
  cases action with
  | opening dbname => exact ⟨fun _ => trivial, fun _ => ⟨nofun, nofun⟩⟩
  | closing => exact ⟨fun complies => held.close_iff.mp complies.2,
      fun fresh => ⟨nofun, held.close_iff.mpr fresh⟩⟩
  | call request =>
      rw [← held.issued_iff engine (contract request rfl) request outcomes]
      refine ⟨fun complies => complies.1 request rfl, fun issued => ⟨?_, ?_⟩⟩
      · rintro other same
        cases same
        exact issued
      · intro misuse failed
        obtain ⟨result, ran⟩ := call_of_issued engine issued outcomes
        rw [show ShardedDB.act engine state.1 (.call request, outcomes) =
          ShardedDB.call engine state.1 (request, outcomes) from rfl, ran] at failed
        cases failed

/-- A `close` that meets live databases only leaves entries that lead nowhere. -/
theorem HeldState.closing {state : (ShardedDB × Disk) × Watch} (held : HeldState state)
    (live : ∀ entry ∈ state.1.1.dbs, ∃ path, state.1.2.pathOf entry.db = .ok path)
    {reply : Reply} {next : ShardedDB × Disk}
    (ran : state.1.1.close state.1.2 = .ok (reply, next)) :
    HeldState (next, {state.2 with opened := false}) := by
  obtain ⟨after, closed, frontier, freed⟩ := held.close_frees live
  rw [closed] at ran
  cases ran
  refine ⟨?_, held.distinct, fun pair member => ?_, nofun⟩
  · intro handle member
    rw [frontier]
    exact held.bounded handle member
  · obtain ⟨handle, points, _⟩ := held.whole pair member
    refine ⟨handle, points, .inl (freed handle ?_)⟩
    rw [handles_pointers]
    exact List.mem_flatMap.mpr ⟨pair, member, by simp [points]⟩

/-- A data operation keeps the pointers and the live objects. -/
theorem HeldState.calling {engine : Engine} {state : (ShardedDB × Disk) × Watch}
    (held : HeldState state) {request : Call} {outcomes : Outcomes} {reply : Reply}
    {next : ShardedDB × Disk}
    (ran : ShardedDB.call engine state.1 (request, outcomes) = .ok (reply, next)) :
    HeldState (next, state.2) := by
  obtain ⟨confined, changes⟩ := call_changes ran
  obtain ⟨pointers, name⟩ := changes.pointers
  rw [HeldState, pointers, name, confined.arena]
  exact held

/-- Every step that is fresh keeps the invariant. -/
theorem HeldState.step {engine : Engine} {state : (ShardedDB × Disk) × Watch}
    {input : Action × Outcomes} {reply : Reply} {next : ShardedDB × Disk} (held : HeldState state)
    (fresh : ShardsFresh engine state input)
    (ran : ShardedDB.act engine state.1 input = .ok (reply, next)) :
    HeldState (next, state.2.after state.1.2.arena.next reply input.1) := by
  rcases input with ⟨action, outcomes⟩
  cases action with
  | opening dbname =>
      obtain ⟨ok, added, disk, opened, facts, _, success⟩ :=
        openShards_spec engine dbname outcomes shardCount 0 state.1.1.dbs state.1.2
      simp only [ShardedDB.act, ShardedDB.open, opened, Except.ok.injEq, Prod.mk.injEq] at ran
      obtain ⟨answer, reached⟩ := ran
      subst answer reached
      apply Held.opening held facts
      intro counted
      apply success.mp
      simpa using counted
  | closing => exact held.closing fresh ran
  | call request => exact held.calling ran

/-- The sharded adapters follow the protocol in exactly the runs whose steps are fresh. -/
theorem sharded_protocol (engine : Engine) (disk : Disk) (inputs : List (Action × Outcomes)) :
    FollowsProtocolIff (ShardedDB.act engine) (fun disk => disk.arena.next) (shardIssued engine)
      .fresh (ShardsFresh engine) disk inputs :=
  followsProtocolIff HeldState HeldState.fresh
    (fun _ _ held contract => held.complies_iff engine contract)
    (fun _ _ _ _ held _ fresh ran => held.step fresh ran) disk inputs

end DbBench
