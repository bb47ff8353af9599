import DbBench.Construction.ShardedDB

namespace DbBench

open KeyValue Transition

/-- The key whose shard status a call overwrites. -/
def Call.statusKey : Call → Option Bytes
  | .get key => some key
  | .put key _ => if key.isEmpty then none else some key
  | .del key => if key.isEmpty then none else some key
  | _ => none

/-- The path of a pointer depends on the live objects only. -/
theorem pathOf_congr {first second : Disk} (same : second.arena = first.arena) (db : Option Nat) :
    second.pathOf db = first.pathOf db := by
  cases db with
  | none => rfl
  | some handle => simp [Disk.pathOf, same]

/-- The step from `before` to `after` keeps the live objects and changes only the paths of the
databases in `dbs`. -/
structure Disk.Confined (dbs : List DB) (before after : Disk) : Prop where
  arena : after.arena = before.arena
  files : ∀ path, (∀ entry ∈ dbs, before.pathOf entry.db ≠ .ok path) →
    after.files path = before.files path

theorem Disk.Confined.refl (dbs : List DB) (disk : Disk) : Disk.Confined dbs disk disk :=
  ⟨rfl, fun _ _ => rfl⟩

theorem Disk.Confined.trans {dbs : List DB} {first second third : Disk}
    (former : Disk.Confined dbs first second) (latter : Disk.Confined dbs second third) :
    Disk.Confined dbs first third := by
  refine ⟨latter.arena.trans former.arena, fun path foreign => ?_⟩
  rw [← former.files path foreign]
  apply latter.files
  intro entry member
  rw [pathOf_congr former.arena]
  exact foreign entry member

/-- A library write changes the path of its own database only. -/
theorem write_confined {dbs : List DB} {entry : DB} (member : entry ∈ dbs) {disk next : Disk}
    {batch : List ByteWrite} {outcome : Outcome} {status : Status}
    (ran : disk.write entry.db batch outcome = .ok (status, next)) :
    Disk.Confined dbs disk next := by
  obtain ⟨own, leads, wrote⟩ := (bind_eq_ok _ _ _).mp ran
  have elsewhere : ∀ store path, (∀ entry ∈ dbs, disk.pathOf entry.db ≠ .ok path) →
      Function.update disk.files own store path = disk.files path := by
    intro store path foreign
    apply Function.update_of_ne
    rintro rfl
    exact foreign entry member leads
  cases outcome with
  | lost =>
      cases wrote
      exact .refl dbs disk
  | done | late =>
      cases wrote
      exact ⟨rfl, elsewhere _⟩

theorem writeShards_confined {outcomes : Outcomes} {dbs rest : List DB} {idx : Nat}
    {disk next : Disk} {ok : Bool} (within : ∀ entry ∈ rest, entry ∈ dbs)
    (ran : writeShards outcomes idx rest disk = .ok (ok, next)) : Disk.Confined dbs disk next := by
  induction rest generalizing idx disk with
  | nil =>
      cases ran
      exact .refl dbs _
  | cons entry rest ih =>
      obtain ⟨⟨status, middle⟩, wrote, later⟩ := (bind_eq_ok _ _ _).mp ran
      have here := write_confined (within entry List.mem_cons_self) wrote
      simp only at later
      split at later
      · exact here.trans (ih (fun other member => within other (.tail entry member)) later)
      · cases later
        exact here

/-- A data operation assigns one status, or touches only the batches. -/
inductive Changes (engine : Engine) (object : ShardedDB) : Call → Reply → ShardedDB → Prop where
  | status {request : Call} {reply : Reply} (key : Bytes) (status : Status)
      (assigns : request.statusKey = some key)
      (inside : engine.index key < object.dbs.length) (reports : reply.ok = status.isOk) :
      Changes engine object request reply (object.setStatus (engine.index key) status)
  | nothing {request : Call} {reply : Reply} (assigns : request.statusKey = none) :
      Changes engine object request reply object
  | batch {request : Call} {reply : Reply} (idx : Nat) (op : ByteWrite)
      (assigns : request.statusKey = none) :
      Changes engine object request reply (object.addBatch idx op)
  | clear {request : Call} {reply : Reply} (assigns : request.statusKey = none) :
      Changes engine object request reply object.clearBatches

theorem entry_eq_ok {object : ShardedDB} {idx : Nat} {entry : DB} :
    object.entry idx = .ok entry ↔ object.dbs[idx]? = some entry := by
  rw [ShardedDB.entry]
  cases object.dbs[idx]? <;> simp

/-- The member status that an operation reads back is the one that it stored. -/
theorem statusOk_after {object : ShardedDB} {idx : Nat} {status : Status} {ok : Bool}
    (read : (object.setStatus idx status).statusOk idx = .ok ok) : ok = status.isOk := by
  obtain ⟨entry, held, equal⟩ := (bind_eq_ok _ _ _).mp read
  rw [entry_eq_ok] at held
  simp only [ShardedDB.setStatus, List.getElem?_modify_eq, Option.map_eq_map,
    Option.map_eq_some_iff] at held
  obtain ⟨before, _, same⟩ := held
  cases equal
  rw [← same]

theorem get_changes {engine : Engine} {object next : ShardedDB} {disk after : Disk} {key : Bytes}
    {outcome : Outcome} {reply : Reply}
    (ran : object.get engine key outcome disk = .ok (reply, next, after)) :
    Disk.Confined object.dbs disk after ∧ Changes engine object (.get key) reply next := by
  obtain ⟨⟨value, changed, later⟩, performed, read⟩ := (bind_eq_ok _ _ _).mp ran
  obtain ⟨entry, held, called⟩ := (bind_eq_ok _ _ _).mp performed
  obtain ⟨⟨status, found⟩, _, assigned⟩ := (bind_eq_ok _ _ _).mp called
  cases assigned
  obtain ⟨ok, said, equal⟩ := (bind_eq_ok _ _ _).mp read
  cases equal
  have inside := (List.getElem?_eq_some_iff.mp (entry_eq_ok.mp held)).1
  exact ⟨.refl _ disk, .status key status rfl inside (statusOk_after said)⟩

/-- A direct write with a key that is not empty assigns the status of its library call. -/
theorem write_changes {engine : Engine} {object next : ShardedDB} {disk after : Disk}
    {request : Call} {key : Bytes} {reply : Reply}
    {performed : Except Misuse (ShardedDB × Disk)} (assigns : request.statusKey = some key)
    (perform : ∀ changed later, performed = .ok (changed, later) →
      Disk.Confined object.dbs disk later ∧ engine.index key < object.dbs.length ∧
        ∃ status, changed = object.setStatus (engine.index key) status)
    (ran : (do
      let (changed, later) ← performed
      let ok ← changed.statusOk (engine.index key)
      pure (Reply.flag ok, changed, later)) = .ok (reply, next, after)) :
    Disk.Confined object.dbs disk after ∧ Changes engine object request reply next := by
  obtain ⟨⟨changed, later⟩, done, read⟩ := (bind_eq_ok _ _ _).mp ran
  obtain ⟨confined, inside, status, assigned⟩ := perform changed later done
  obtain ⟨ok, said, equal⟩ := (bind_eq_ok _ _ _).mp read
  cases equal
  subst assigned
  exact ⟨confined, .status key status assigns inside (statusOk_after said)⟩

/-- The first step of `put` and of `del` writes a batch of one operation. -/
theorem performWrite_changes {object changed : ShardedDB} {disk later : Disk} {idx : Nat}
    {batch : List ByteWrite} {outcome : Outcome}
    (ran : (do
      let entry ← object.entry idx
      let (status, disk) ← disk.write entry.db batch outcome
      pure (object.setStatus idx status, disk)) = .ok (changed, later)) :
    Disk.Confined object.dbs disk later ∧ idx < object.dbs.length ∧
      ∃ status, changed = object.setStatus idx status := by
  obtain ⟨entry, held, called⟩ := (bind_eq_ok _ _ _).mp ran
  obtain ⟨⟨status, middle⟩, wrote, assigned⟩ := (bind_eq_ok _ _ _).mp called
  cases assigned
  rw [entry_eq_ok] at held
  exact ⟨write_confined (List.mem_of_getElem? held) wrote,
    (List.getElem?_eq_some_iff.mp held).1, status, rfl⟩

/-- Every data operation that misuses nothing keeps the live objects, changes only the paths of
the object's own databases, and changes the object in one of these ways. -/
theorem call_changes {engine : Engine} {object next : ShardedDB} {disk after : Disk}
    {request : Call} {outcomes : Outcomes} {reply : Reply}
    (ran : ShardedDB.call engine (object, disk) (request, outcomes) = .ok (reply, next, after)) :
    Disk.Confined object.dbs disk after ∧ Changes engine object request reply next := by
  cases request with
  | get key => exact get_changes ran
  | put key value =>
      simp only [ShardedDB.call, ShardedDB.put] at ran
      by_cases empty : key.isEmpty = true
      · rw [if_pos empty] at ran
        cases ran
        exact ⟨.refl _ disk, .nothing (if_pos empty)⟩
      · rw [if_neg empty] at ran
        exact write_changes (if_neg empty) (fun _ _ done => performWrite_changes done) ran
  | putBatch key value =>
      simp only [ShardedDB.call, ShardedDB.putBatch] at ran
      by_cases empty : key.isEmpty = true
      · rw [if_pos empty] at ran
        cases ran
        exact ⟨.refl _ disk, .nothing rfl⟩
      · rw [if_neg empty] at ran
        obtain ⟨entry, _, equal⟩ := (bind_eq_ok _ _ _).mp ran
        cases equal
        exact ⟨.refl _ disk, .batch _ _ rfl⟩
  | del key =>
      simp only [ShardedDB.call, ShardedDB.del] at ran
      by_cases empty : key.isEmpty = true
      · rw [if_pos empty] at ran
        cases ran
        exact ⟨.refl _ disk, .nothing (if_pos empty)⟩
      · rw [if_neg empty] at ran
        exact write_changes (if_neg empty) (fun _ _ done => performWrite_changes done) ran
  | delBatch key =>
      simp only [ShardedDB.call, ShardedDB.delBatch] at ran
      by_cases empty : key.isEmpty = true
      · rw [if_pos empty] at ran
        cases ran
        exact ⟨.refl _ disk, .nothing rfl⟩
      · rw [if_neg empty] at ran
        obtain ⟨entry, _, equal⟩ := (bind_eq_ok _ _ _).mp ran
        cases equal
        exact ⟨.refl _ disk, .batch _ _ rfl⟩
  | applyBatch =>
      obtain ⟨⟨ok, later⟩, wrote, equal⟩ := (bind_eq_ok _ _ _).mp ran
      have confined := writeShards_confined (fun _ member => member) wrote
      cases ok with
      | true =>
          cases equal
          exact ⟨confined, .clear rfl⟩
      | false =>
          cases equal
          exact ⟨confined, .nothing rfl⟩

end DbBench
