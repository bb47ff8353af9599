import DbBench.Proof.ShardedSpec

namespace DbBench

open KeyValue Transition

/-- These are the identities that one entry points to. -/
def DB.handles (entry : DB) : List Nat := entry.db.toList ++ entry.blockCache.toList

/-- These are the identities that a vector of entries points to. -/
def handles (dbs : List DB) : List Nat := dbs.flatMap DB.handles

@[simp] theorem handles_nil : handles [] = [] := rfl

@[simp] theorem handles_cons (entry : DB) (rest : List DB) :
    handles (entry :: rest) = entry.handles ++ handles rest := rfl

@[simp] theorem handles_append (first second : List DB) :
    handles (first ++ second) = handles first ++ handles second := by
  simp [handles]

/-- A later disk keeps the contents of an earlier one and every identity that it has given out. -/
structure Disk.Extends (disk next : Disk) : Prop where
  files : next.files = disk.files
  frontier : disk.arena.next ≤ next.arena.next
  same : ∀ handle < disk.arena.next, next.arena.cells handle = disk.arena.cells handle

theorem Disk.Extends.refl (disk : Disk) : disk.Extends disk :=
  ⟨rfl, Nat.le_refl _, fun _ _ => rfl⟩

theorem Disk.Extends.trans {first second third : Disk} (left : first.Extends second)
    (right : second.Extends third) : first.Extends third :=
  ⟨right.files.trans left.files, Nat.le_trans left.frontier right.frontier,
    fun handle below => (right.same handle (Nat.lt_of_lt_of_le below left.frontier)).trans
      (left.same handle below)⟩

/-- Creation of one object extends the disk. -/
theorem Disk.extends_create (disk : Disk) (resource : Resource) :
    disk.Extends {disk with arena := disk.arena.create resource} :=
  ⟨rfl, Nat.le_succ _, fun _ below =>
    Arena.create_cells_of_ne disk.arena resource (Nat.ne_of_lt below)⟩

/-- An extension keeps every live object. -/
theorem Disk.Extends.keeps {disk next : Disk} (grown : disk.Extends next) (handle : Nat)
    (resource : Resource) (held : disk.arena.cells handle = some resource) :
    next.arena.cells handle = some resource := by
  rw [grown.same handle (Arena.lt_next_of_cells held), held]

/-- An extension keeps the path of every live pointer. -/
theorem Disk.Extends.pathOf {disk next : Disk} (grown : disk.Extends next) {db : Option Nat}
    {path : Bytes} (live : disk.pathOf db = .ok path) : next.pathOf db = .ok path := by
  cases db with
  | none => cases live
  | some handle =>
      cases held : disk.arena.cells handle with
      | none => simp [Disk.pathOf, held] at live
      | some resource =>
          simp only [Disk.pathOf, held] at live
          simpa only [Disk.pathOf, grown.keeps handle resource held] using live

/-- These are the facts about the entries that one call of `open` adds. -/
structure Added (dbname : Bytes) (idx : Nat) (disk next : Disk) (added : List DB) : Prop where
  grown : disk.Extends next
  paths : ∀ offset entry, added[offset]? = some entry →
    next.pathOf entry.db = .ok (shardPath dbname (idx + offset))
  caches : ∀ entry ∈ added, ∀ cache, entry.blockCache = some cache →
    next.arena.cells cache = some .cache
  fresh : ∀ handle ∈ handles added, disk.arena.next ≤ handle ∧ handle < next.arena.next
  distinct : (handles added).Nodup
  status : ∀ entry ∈ added, entry.status = .ok
  batch : ∀ entry ∈ added, entry.batch = []

/-- An attempt that adds no entry only extends the disk. -/
theorem Added.none {disk next : Disk} (dbname : Bytes) (idx : Nat) (grown : disk.Extends next) :
    Added dbname idx disk next [] :=
  ⟨grown, by simp, by simp, by simp, by simp, by simp, by simp⟩

/-- The entry of one shard comes before the entries of the later shards. -/
theorem Added.cons {disk middle next : Disk} {dbname : Bytes} {idx : Nat} {entry : DB}
    {rest : List DB} (first : Added dbname idx disk middle [entry])
    (later : Added dbname (idx + 1) middle next rest) :
    Added dbname idx disk next (entry :: rest) := by
  refine ⟨first.grown.trans later.grown, ?_, ?_, ?_, ?_, ?_, ?_⟩
  · intro offset other found
    cases offset with
    | zero =>
        cases found
        exact later.grown.pathOf (first.paths 0 entry rfl)
    | succ offset =>
        rw [← Nat.add_assoc, Nat.add_right_comm]
        exact later.paths offset other (by simpa using found)
  · intro other member cache points
    rcases List.mem_cons.mp member with same | tail
    · subst same
      exact later.grown.keeps cache .cache (first.caches other (by simp) cache points)
    · exact later.caches other tail cache points
  · intro handle member
    rcases List.mem_append.mp (handles_cons entry rest ▸ member) with head | tail
    · have bounds := first.fresh handle (by simpa using head)
      have frontier := later.grown.frontier
      omega
    · have bounds := later.fresh handle tail
      have frontier := first.grown.frontier
      omega
  · rw [handles_cons, List.nodup_append']
    refine ⟨by simpa using first.distinct, later.distinct, fun handle head tail => ?_⟩
    have below := (first.fresh handle (by simpa using head)).2
    have above := (later.fresh handle tail).1
    omega
  · intro other member
    rcases List.mem_cons.mp member with same | tail
    · rw [same]
      exact first.status entry (by simp)
    · exact later.status other tail
  · intro other member
    rcases List.mem_cons.mp member with same | tail
    · rw [same]
      exact first.batch entry (by simp)
    · exact later.batch other tail

/-- The library call of one round either fails or gives a live database. -/
theorem openDB_cases (disk : Disk) (path : Bytes) (outcome : Outcome) :
    disk.openDB path outcome = (.ioError, none, disk) ∨
      disk.openDB path outcome = (.ok, some disk.arena.next,
        {disk with arena := disk.arena.create (.db path)}) := by
  rw [Disk.openDB]
  split
  · exact .inr rfl
  · exact .inl rfl

/-- The block cache of a shard is a new live object, or there is none. -/
theorem blockCache_spec (engine : Engine) (disk : Disk) :
    disk.Extends (engine.blockCache disk).2 ∧ ∀ cache, (engine.blockCache disk).1 = some cache →
      cache = disk.arena.next ∧ (engine.blockCache disk).2.arena.next = disk.arena.next + 1 ∧
        (engine.blockCache disk).2.arena.cells cache = some .cache := by
  rw [Engine.blockCache]
  split
  · refine ⟨disk.extends_create .cache, fun cache points => ?_⟩
    cases points
    exact ⟨rfl, rfl, Arena.create_cells_self disk.arena .cache⟩
  · exact ⟨Disk.Extends.refl disk, fun cache points => by cases points⟩

/-- One round with a successful library call adds one entry. -/
theorem added_round (engine : Engine) (dbname : Bytes) (idx : Nat) (disk : Disk) :
    Added dbname idx disk
      { (engine.blockCache disk).2 with
        arena := (engine.blockCache disk).2.arena.create (.db (shardPath dbname idx)) }
      [⟨some (engine.blockCache disk).2.arena.next, (engine.blockCache disk).1, .ok, []⟩] := by
  obtain ⟨cacheGrown, cacheFacts⟩ := blockCache_spec engine disk
  generalize engine.blockCache disk = cached at cacheGrown cacheFacts
  rcases cached with ⟨cache, middle⟩
  have grown := middle.extends_create (.db (shardPath dbname idx))
  refine ⟨cacheGrown.trans grown, ?_, ?_, ?_, ?_, by simp, by simp⟩
  · intro offset entry found
    obtain ⟨zero, same⟩ : offset = 0 ∧ entry = ⟨some middle.arena.next, cache, .ok, []⟩ := by
      cases offset with
      | zero => exact ⟨rfl, (Option.some.inj found).symm⟩
      | succ offset => simp at found
    subst same zero
    simp [Disk.pathOf]
  · intro entry member cache' points
    rw [List.mem_singleton.mp member] at points
    exact grown.keeps cache' .cache (cacheFacts cache' points).2.2
  · intro handle member
    have frontier : disk.arena.next ≤ middle.arena.next := cacheGrown.frontier
    simp only [handles_cons, handles_nil, List.append_nil, DB.handles, Option.toList_some,
      List.singleton_append, List.mem_cons, Option.mem_toList] at member
    rcases member with same | points
    · rw [same]
      exact ⟨frontier, Nat.lt_succ_self _⟩
    · obtain ⟨equal, next, _⟩ := cacheFacts handle points
      simp only [Arena.create_next]
      simp only at next
      omega
  · simp only [handles_cons, handles_nil, List.append_nil, DB.handles, Option.toList_some,
      List.singleton_append, List.nodup_cons, Option.mem_toList]
    refine ⟨fun points => ?_, by cases cache <;> simp⟩
    obtain ⟨equal, next, _⟩ := cacheFacts _ points
    simp only at next
    omega

/-- The loop of `open` keeps the old entries and adds new ones until a library call fails. -/
theorem openShards_spec (engine : Engine) (dbname : Bytes) (outcomes : Outcomes)
    (remaining idx : Nat) (dbs : List DB) (disk : Disk) :
    ∃ ok added next, openShards engine dbname outcomes remaining idx dbs disk =
        (ok, dbs ++ added, next) ∧
      Added dbname idx disk next added ∧ added.length ≤ remaining ∧
      (ok = true ↔ added.length = remaining) := by
  induction remaining generalizing idx dbs disk with
  | zero =>
      exact ⟨true, [], disk, by simp [openShards], Added.none dbname idx (Disk.Extends.refl disk),
        Nat.le_refl _, by simp⟩
  | succ remaining ih =>
      have cacheGrown := (blockCache_spec engine disk).1
      have round := added_round engine dbname idx disk
      rcases openDB_cases (engine.blockCache disk).2 (shardPath dbname idx) (outcomes idx) with
        failed | opened
      · refine ⟨false, [], (engine.blockCache disk).2, ?_, Added.none dbname idx cacheGrown,
          Nat.zero_le _, by simp⟩
        simp [openShards, failed, Status.isOk]
      · obtain ⟨ok, added, next, ran, facts, bound, success⟩ :=
          ih (idx + 1) (dbs ++ [⟨some (engine.blockCache disk).2.arena.next,
            (engine.blockCache disk).1, .ok, []⟩])
            { (engine.blockCache disk).2 with
              arena := (engine.blockCache disk).2.arena.create (.db (shardPath dbname idx)) }
        refine ⟨ok, _ :: added, next, ?_, round.cons facts, by simpa using bound,
          by simpa using success⟩
        simp only [openShards, opened, Status.isOk, if_true, ran, List.append_assoc,
          List.singleton_append]

/-- A successful `open` of a fresh object attaches all shards with empty batches. -/
theorem open_attached (engine : Engine) {dbname : Bytes} {outcomes : Outcomes} {disk next : Disk}
    {object : ShardedDB}
    (opened : ShardedDB.open engine .fresh dbname outcomes disk = (.flag true, object, next)) :
    Attached object next ∧ object.dbname = dbname ∧ next.files = disk.files ∧
      ∀ entry ∈ object.dbs, entry.batch = [] := by
  obtain ⟨ok, added, final, ran, facts, _, success⟩ :=
    openShards_spec engine dbname outcomes shardCount 0 [] disk
  simp only [ShardedDB.open, ShardedDB.fresh, ran, List.nil_append, Prod.mk.injEq,
    Reply.flag.injEq] at opened
  obtain ⟨good, same, last⟩ := opened
  subst same last
  refine ⟨⟨success.mp good, ?_⟩, rfl, facts.grown.files, facts.batch⟩
  intro idx entry found
  simpa using facts.paths idx entry found

end DbBench
