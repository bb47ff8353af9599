import DbBench.Proof.Versions

/-
This file proves that the writer keeps the invariant of the environment from the begin of its
transaction to the sync of the file.
-/

namespace DbBench

open Cells Reclaim Transition

variable {Page : Type}

section Writer

variable {world : World Page} {era : Era Page} {history : Nat → Meta Page}

/-- A raised floor frees nothing that is used. -/
theorem Storage.raise (storage : Storage world era history) {floor : Nat}
    (floorLe : floor ≤ era.latest) (raised : era.floor ≤ floor) (seen : floor ≤ world.mtiTxnid) :
    Storage world (era.raise floor floorLe) history where
  chronicle := ⟨storage.chronicle.live, storage.chronicle.image, storage.chronicle.numbers,
    storage.chronicle.inside, storage.chronicle.accounted, storage.chronicle.first⟩
  intact := Intact.raise storage.intact raised
  unsynced p member := Apart.raise (storage.unsynced p member) raised
  maxpg := storage.maxpg
  pgoldest := Nat.le_trans storage.pgoldest raised
  visible := storage.visible
  hidden := storage.hidden
  durable := storage.durable
  older := storage.older
  floor := seen
  range := storage.range
  stored v low high := by
    obtain ⟨place, stored, guarded⟩ := storage.stored v low high
    exact ⟨place, stored, Reclaim.Guarded.raise guarded raised⟩

/-- The storage follows the file of the writer. -/
theorem Storage.work (storage : Storage world era history) {work : Work Page}
    {ready freed : List UInt64} {place : Nat → Place}
    (working : Working era work ready freed place) (writer : Option (Writer Page)) :
    Storage {world with env := work.env, file := work.file, writer := writer} era history where
  chronicle := storage.chronicle
  intact := working.intact
  unsynced := working.unsynced
  maxpg := working.maxpg
  pgoldest := working.pgoldest
  visible := storage.visible
  hidden := storage.hidden
  durable := storage.durable
  older := storage.older
  floor := storage.floor
  range := storage.range
  stored := storage.stored

/-- The storage says nothing about the transaction. -/
theorem Storage.still (storage : Storage world era history) {next : World Page}
    (file : next.file = world.file) (env : next.env = world.env) (metas : next.metas = world.metas)
    (disk : next.disk = world.disk) (number : next.mtiTxnid = world.mtiTxnid) :
    Storage next era history := by
  obtain ⟨chronicle, intact, unsynced, maxpg, pgoldest, visible, hidden, durable, older, floor,
    range, stored⟩ := storage
  rw [← file] at intact unsynced
  rw [← env] at maxpg pgoldest
  rw [← metas, ← number] at visible hidden
  rw [← disk, ← number] at durable older
  rw [← number] at floor range stored
  exact ⟨chronicle, intact, unsynced, maxpg, pgoldest, visible, hidden, durable, older, floor,
    range, stored⟩

/-- What the readers know does not depend on a writer that has not failed. -/
theorem Snapshotted.work (shown : Snapshotted world era history)
    (back : writesBack world.writer = false) (env : EnvPages) (file : File Page)
    {writer : Option (Writer Page)} (back' : writesBack writer = false) :
    Snapshotted {world with env := env, file := file, writer := writer} era history where
  young := shown.young
  sees thread := by
    refine (shown.sees thread).keep rfl ?_ fun v _ failed => ?_
    · funext odd
      exact (World.backPg_eq back' odd).trans (World.backPg_eq back odd).symm
    · refine ⟨?_, failed.2⟩
      have failing := failed.1
      unfold World.failing at failing ⊢
      rw [back] at failing
      rw [show writesBack writer = false from back']
      exact failing

/-- The books of a new transaction. -/
theorem Stored.books {inUse : Finset Nat} {freeDB : List FreeRecord} {next version maxpg : Nat}
    {place : Nat → Place} (stored : Stored inUse freeDB next version maxpg place) {freePgs : Midl}
    (holds : freePgs.Holds []) :
    Books (⟨version + 1, next, inUse, freeDB, [], midlUmMax, [], [], freePgs, none, 0, false⟩ :
      WriteTxn Page) maxpg [] [] place where
  head := rfl
  free := holds
  used := stored.used
  aboveMetas := stored.aboveMetas
  idle p := by
    rw [stored.idle]
    constructor
    · exact fun above => Or.inr (Or.inr above)
    · rintro (ready | loose | above)
      · cases ready
      · cases loose
      · exact above
  retired p := iff_of_false (stored.retired p) List.not_mem_nil
  limbo p k := by
    rw [stored.limbo]
    constructor
    · rintro ⟨record, member, number, inside⟩
      have bounds := stored.numbered record member
      exact ⟨by show 0 < k; omega, by show k < version + 1; omega, record, member, number, inside⟩
    · exact fun ⟨_, _, inside⟩ => inside
  falls := List.Pairwise.nil
  freeOnce := List.nodup_nil
  looseOnce := List.nodup_nil
  looseApart p member := by cases member
  below p member := by cases member
  records := stored.records
  numbered record member := (stored.numbered record member).1
  sound record member _ _ := stored.sound record member
  next := stored.next
  fetched := iff_of_true rfl rfl
  late := Nat.succ_pos _

theorem Calm.latest (calm : Calm world era) :
    era.latest = world.mtiTxnid + world.fatal.toNat := by
  rw [calm.1, calm.2]
  rfl

end Writer

end DbBench
