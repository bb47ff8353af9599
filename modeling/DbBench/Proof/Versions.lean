import DbBench.Proof.FreeRecords
import DbBench.Proof.ReaderTable
import DbBench.Proof.TxnView
import DbBench.Spec.Snapshots

/-
This file contains the invariant of the environment: every version that a reader or a restart may
still see is intact, and the meta pages in the cache and on the disk lead to such versions.
-/

namespace DbBench

open Cells Reclaim Transition

variable {Page : Type}

/-- The versions that were committed so far. -/
structure Chronicle (era : Era Page) (history : Nat → Meta Page) : Prop where
  live : ∀ v, era.live v = {p | p ∈ (history v).dbs.inUse ∨ p < 2}
  image : ∀ v, era.image v = (history v).dbs.image
  numbers : ∀ v ≤ era.latest, (history v).txnid = v ∧ (history v).dbs.commit = v
  inside : ∀ v ≤ era.latest, ∀ p ∈ (history v).dbs.inUse, p ≤ (history v).lastPg
  accounted : ∀ v ≤ era.latest, (history v).Accounted
  first : (history 0).lastPg = 1 ∧ (history 0).dbs.inUse = ∅ ∧ (history 0).dbs.freeDB = []

/-- A meta page that is not the announced one is older, or it is the page of the next commit. -/
def Behind (era : Era Page) (history : Nat → Meta Page) (mtiTxnid : Nat) (page : Meta Page) :
    Prop :=
  page.txnid ≤ mtiTxnid - 1 ∨ era.latest = mtiTxnid + 1 ∧ page = history era.latest

/-- A page of the disk is missing only before the first commit. -/
def OnDisk (era : Era Page) (holds : Meta Page → Prop) (page : Option (Meta Page)) : Prop :=
  (∃ found, page = some found ∧ holds found) ∨ page = none ∧ era.latest = 0

/-- The data file and the meta pages hold the versions that may still be seen. The newest version is
the announced one or the one that the commit has written or tried to write. -/
structure Storage (world : World Page) (era : Era Page) (history : Nat → Meta Page) : Prop where
  chronicle : Chronicle era history
  intact : era.Intact world.file.pages
  unsynced : ∀ p ∈ world.file.unsynced, era.Apart p
  maxpg : world.env.maxpg = era.maxpg
  pgoldest : world.env.pgoldest ≤ era.floor
  visible : world.metas (toggle world.mtiTxnid) = history world.mtiTxnid
  hidden : Behind era history world.mtiTxnid (world.metas (!toggle world.mtiTxnid))
  durable : ∀ page ∈ world.disk (toggle world.mtiTxnid),
    OnDisk era (· = history world.mtiTxnid) page
  older : ∀ page ∈ world.disk (!toggle world.mtiTxnid),
    OnDisk era (Behind era history world.mtiTxnid) page
  floor : era.floor ≤ world.mtiTxnid
  range : world.mtiTxnid ≤ era.latest ∧ era.latest ≤ world.mtiTxnid + 1
  stored : ∀ v, world.mtiTxnid ≤ v → v ≤ era.latest → ∃ place,
    Stored (history v).dbs.inUse (history v).dbs.freeDB ((history v).lastPg + 1) v era.maxpg place ∧
      Reclaim.Guarded era.live era.floor v place

/-- The last page that a meta page shows when the old numbers are back. -/
def World.backPg (world : World Page) (odd : Bool) : Nat :=
  match world.writer with
  | some ⟨txn, _, .unwritten _ lastPg _⟩ =>
      if toggle txn.txnid = odd then lastPg else (world.metas odd).lastPg
  | _ => (world.metas odd).lastPg

/-- The roots of a reader belong to a version that its meta page has held. -/
def Roots (era : Era Page) (history : Nat → Meta Page) (txnid : Nat) (dbs : Dbs Page) (v : Nat) :
    Prop :=
  txnid ≤ v ∧ v ≤ era.latest ∧ toggle v = toggle txnid ∧ dbs = (history v).dbs

/-- The version is the one whose meta page could not be written. -/
def Unwritten (world : World Page) (v : Nat) : Prop :=
  world.failing = true ∧ world.mtiTxnid < v

/-- The meta page shows enough pages for the roots that were copied. -/
def Displays (world : World Page) (era : Era Page) (history : Nat → Meta Page) (txnid : Nat)
    (dbs : Dbs Page) : Prop :=
  ∃ v, Roots era history txnid dbs v ∧ (Unwritten world v ∨ ∀ p ∈ dbs.inUse,
    p ≤ (world.metas (toggle txnid)).lastPg ∧ p ≤ world.backPg (toggle txnid))

/-- The reader knows enough pages for its roots. -/
def Reaches (world : World Page) (era : Era Page) (history : Nat → Meta Page) (txnid : Nat)
    (dbs : Dbs Page) (nextPgno : Nat) : Prop :=
  ∃ v, Roots era history txnid dbs v ∧ (Unwritten world v ∨ ∀ p ∈ dbs.inUse, p < nextPgno)

def Sees (world : World Page) (era : Era Page) (history : Nat → Meta Page) (reader : Reader Page) :
    Prop :=
  match reader with
  | .begun _ txnid => Displays world era history txnid (world.metas (toggle txnid)).dbs
  | .copied _ txnid dbs => Displays world era history txnid dbs
  | .sized _ txnid dbs nextPgno => Reaches world era history txnid dbs nextPgno
  | .reading _ txnid dbs nextPgno => Reaches world era history txnid dbs nextPgno
  | _ => True

/-- What a reader knows belongs to a version that is still kept. -/
structure Snapshotted (world : World Page) (era : Era Page) (history : Nat → Meta Page) : Prop where
  young : ∀ thread slot txnid, (world.readers thread).holds? = some (slot, txnid) →
    era.floor ≤ txnid
  sees : ∀ thread, Sees world era history (world.readers thread)

/-- The block of a list has the size that it says. -/
def Midl.Block (list : Midl) : Prop := list.ids.size = list.allocLen + 1

/-- The transaction works on top of the newest version. -/
def InTxn (era : Era Page) (work : Work Page) (found : List Nat) : Prop :=
  (∃ ready freed place, Working era work ready freed place) ∧
    Fetched work.txn 0 work.txn.pglast ∧
    (∀ record ∈ work.txn.freeDB, record.txnid < work.txn.txnid) ∧
    ∀ oldest ∈ found, oldest ≤ era.floor

/-- The commit has saved the free lists and writes the pages ahead. -/
def Pending (era : Era Page) (work : Work Page) (dbs : Dbs Page) (ahead : List (Nat × Page)) :
    Prop :=
  (∃ ready freed place place', Working era work ready freed place ∧
    Stored dbs.inUse dbs.freeDB work.txn.nextPgno work.txn.txnid era.maxpg place' ∧
    Publishes place place' work.txn.txnid ∧ dbs.inUse = work.txn.inUse) ∧
  dbs.commit = work.txn.txnid ∧
  (∀ write ∈ ahead, write.2 = dbs.image write.1 ∧ era.Apart write.1) ∧
  ∀ p ∉ ahead.map Prod.fst, work.file.pages p = dbs.image p

/-- No commit has failed, and none waits for its announcement. -/
def Calm (world : World Page) (era : Era Page) : Prop :=
  era.latest = world.mtiTxnid ∧ world.fatal = false

/-- The commit has gone beyond the announced number. -/
def Beyond (world : World Page) (era : Era Page) (txn : WriteTxn Page) (fatal : Bool) : Prop :=
  era.latest = world.mtiTxnid + 1 ∧ world.fatal = fatal ∧ txn.txnid = era.latest ∧
    txn.freePgs.Block

/-- The writer is somewhere in its transaction. -/
def Writes (world : World Page) (era : Era Page) (history : Nat → Meta Page) : Prop :=
  match world.writer with
  | none => era.latest = world.mtiTxnid + world.fatal.toNat ∧ world.freePgs.Block
  | some ⟨txn, found, .working⟩ => Calm world era ∧ InTxn era ⟨world.env, txn, world.file⟩ found
  | some ⟨txn, found, .scanning i oldest⟩ =>
      Calm world era ∧ InTxn era ⟨world.env, txn, world.file⟩ found ∧
        oldest ≤ world.mtiTxnid ∧ Scanned world.readers i oldest
  | some ⟨txn, _, .flushing dbs ahead⟩ =>
      Calm world era ∧ Pending era ⟨world.env, txn, world.file⟩ dbs ahead
  | some ⟨txn, _, .synced dbs⟩ =>
      Calm world era ∧ Pending era ⟨world.env, txn, world.file⟩ dbs [] ∧
        world.file.unsynced = [] ∧ ∀ odd, world.disk odd = [some (world.metas odd)]
  | some ⟨txn, _, .written⟩ =>
      Beyond world era txn false ∧ world.metas (toggle era.latest) = history era.latest ∧
        world.disk (toggle era.latest) = [some (history era.latest)]
  | some ⟨txn, _, .unwritten txnid _ dbs⟩ =>
      Beyond world era txn false ∧ dbs = (history era.latest).dbs ∧ txnid ≤ world.mtiTxnid - 1
  | some ⟨txn, _, .writtenBack⟩ => Beyond world era txn false
  | some ⟨txn, _, .failed⟩ => Beyond world era txn true

/-- The invariant of the environment. -/
structure Sound (world : World Page) (era : Era Page) (history : Nat → Meta Page) : Prop where
  storage : Storage world era history
  table : Table world.readers world.slots world.numReaders
  shown : Snapshotted world era history
  writes : Writes world era history

/-- What the invariant says about the writer in its phase. -/
theorem Sound.phase {world : World Page} {era : Era Page} {history : Nat → Meta Page}
    (sound : Sound world era history) {writer : Option (Writer Page)}
    (phase : world.writer = writer) : Writes {world with writer := writer} era history := by
  rw [← phase]
  exact sound.writes

/-- A version that is stored accounts for its pages. -/
theorem Stored.accounted {next version maxpg : Nat} {place : Nat → Place} {inUse : Finset Nat}
    {freeDB : List FreeRecord} (stored : Stored inUse freeDB next version maxpg place)
    (page : Meta Page) (trees : page.dbs.inUse = inUse) (records : page.dbs.freeDB = freeDB)
    (last : page.lastPg + 1 = next) : page.Accounted := by
  have once : (freeDB.flatMap FreeRecord.pages).Nodup := by
    rw [List.nodup_flatMap]
    constructor
    · intro record member
      obtain ⟨entries, unused, lists, falls⟩ := stored.sound record member
      rw [FreeRecord.pages_of_lists lists]
      exact nodup_pagesOf.mpr (Falls.nodup falls)
    · refine stored.records.imp_of_mem fun {one other} member member' less p inside inside' => ?_
      have here := (stored.limbo p _).mpr ⟨one, member, rfl, inside⟩
      rw [(stored.limbo p _).mpr ⟨other, member', rfl, inside'⟩] at here
      exact absurd (Place.limbo.inj here) (by omega)
  intro p
  have listed : p ∈ freeDB.flatMap FreeRecord.pages ↔ ∃ k, place p = .limbo k := by
    rw [List.mem_flatMap]
    constructor
    · rintro ⟨record, member, inside⟩
      exact ⟨_, (stored.limbo p _).mpr ⟨record, member, rfl, inside⟩⟩
    · rintro ⟨k, here⟩
      obtain ⟨record, member, _, inside⟩ := (stored.limbo p k).mp here
      exact ⟨record, member, inside⟩
  have used := stored.used p
  have above := stored.aboveMetas p
  have idle := stored.idle p
  rw [Dbs.uses, trees, records, once.count]
  cases here : place p with
  | used =>
      rw [here] at used idle listed
      have notListed : p ∉ freeDB.flatMap FreeRecord.pages := fun member => by
        obtain ⟨k, no⟩ := listed.mp member
        cases no
      have low : ¬ next ≤ p := fun order => Place.noConfusion (idle.mpr order)
      rw [if_neg notListed]
      by_cases tree : p ∈ inUse
      · rw [if_pos tree, if_pos ⟨above tree, by omega⟩]
      · rcases used.mp rfl with inside | meta'
        · exact absurd inside tree
        · rw [if_neg tree, if_neg (by omega)]
  | idle =>
      rw [here] at used idle listed
      have notListed : p ∉ freeDB.flatMap FreeRecord.pages := fun member => by
        obtain ⟨k, no⟩ := listed.mp member
        cases no
      have high := idle.mp rfl
      have tree : p ∉ inUse := fun inside => Place.noConfusion (used.mpr (Or.inl inside))
      rw [if_neg notListed, if_neg tree, if_neg (by omega)]
  | retired => exact absurd here (stored.retired p)
  | limbo k =>
      rw [here] at used idle listed
      have low : ¬ next ≤ p := fun order => Place.noConfusion (idle.mpr order)
      have tree : p ∉ inUse := fun inside => Place.noConfusion (used.mpr (Or.inl inside))
      have notMeta : ¬ p < 2 := fun meta' => Place.noConfusion (used.mpr (Or.inr meta'))
      rw [if_pos (listed.mpr ⟨k, rfl⟩), if_neg tree, if_pos ⟨by omega, by omega⟩]

section Blocks

theorem Midl.Holds.block {list : Midl} {entries : List UInt64} (holds : list.Holds entries) :
    list.Block := by
  obtain ⟨unused, lists, size⟩ := holds
  have cells := Counted.size lists
  unfold Midl.Block
  omega

theorem Midl.Block.shrink {list : Midl} (block : list.Block) (fault : Bool) :
    (list.shrink fault).Block := by
  unfold Midl.shrink
  split
  · unfold Midl.Block Midl.realloc
    rw [Array.size_append, Array.take_eq_extract, Array.size_extract, Array.size_replicate]
    show min (midlUmMax + 1) list.ids.size - 0 + (midlUmMax + 1 - list.ids.size) = midlUmMax + 1
    omega
  · exact block

/-- A block whose count is cleared holds the empty list. -/
theorem Midl.Block.clear {list : Midl} (block : list.Block) :
    ∃ ids, write list.ids 0 0 = some ids ∧ Midl.Holds {list with ids := ids} [] := by
  have size : list.ids.toList.length = list.allocLen + 1 := by
    rw [Array.length_toList]
    exact block
  match cells : list.ids.toList with
  | [] =>
      rw [cells] at size
      cases size
  | first :: rest =>
      obtain ⟨ids, written, layout⟩ := @write_at UInt64 list.ids [] rest first 0 cells rfl 0
      rw [cells, List.length_cons] at size
      refine ⟨ids, written, rest, ⟨0, layout, rfl⟩, ?_⟩
      show 0 + rest.length = list.allocLen
      omega

end Blocks

section Eras

variable {era : Era Page} {work : Work Page} {ready freed : List UInt64} {place : Nat → Place}

/-- The floor goes up when the writer has found that no reader needs the old versions. -/
def Era.raise (era : Era Page) (floor : Nat) (floorLe : floor ≤ era.latest) : Era Page :=
  {era with floor := floor, floorLe := floorLe}

theorem Working.raise (working : Working era work ready freed place) {floor : Nat}
    (floorLe : floor ≤ era.latest) (raised : era.floor ≤ floor) :
    Working (era.raise floor floorLe) work ready freed place where
  books := working.books
  entries :=
    { covered := fun span member p covers =>
        have known := working.entries.covered span member p covers
        ⟨Apart.raise known.1 raised, known.2⟩
      disjoint := working.entries.disjoint
      positive := working.entries.positive
      loose := working.entries.loose
      room := working.entries.room }
  guarded := Reclaim.Guarded.raise working.guarded raised
  intact := Intact.raise working.intact raised
  unsynced := fun p member => Apart.raise (working.unsynced p member) raised
  number := working.number
  pgoldest := Nat.le_trans working.pgoldest raised
  maxpg := working.maxpg

/-- The writer publishes what it uses as the next version. -/
def Era.publish (era : Era Page) (place : Nat → Place) (fresh : Nat → Page) : Era Page where
  live := Reclaim.publish era.live era.latest place
  image := Function.update era.image (era.latest + 1) fresh
  floor := era.floor
  latest := era.latest + 1
  maxpg := era.maxpg
  floorLe := Nat.le_succ_of_le era.floorLe
  maxpgLe := era.maxpgLe

end Eras

section Toggle

theorem toggle_succ (txnid : Nat) : toggle (txnid + 1) = !toggle txnid := by
  unfold toggle
  by_cases odd : txnid % 2 = 1
  · rw [decide_eq_true odd, decide_eq_false (by omega)]
    rfl
  · rw [decide_eq_false odd, decide_eq_true (by omega)]
    rfl

theorem toggle_succ_ne (txnid : Nat) : toggle (txnid + 1) ≠ toggle txnid := by
  rw [toggle_succ]
  cases toggle txnid <;> exact Bool.noConfusion

end Toggle

section Views

variable {world next : World Page} {era era' : Era Page} {history history' : Nat → Meta Page}

/-- Without a failed write the meta pages show what they hold. -/
theorem World.backPg_eq (back : writesBack world.writer = false) (odd : Bool) :
    world.backPg odd = (world.metas odd).lastPg := by
  unfold World.backPg
  split
  · rename_i txn found txnid lastPg dbs phase
    rw [phase] at back
    cases back
  · rfl

/-- A page of the announced commit shows all of its pages. -/
theorem Storage.shows (storage : Storage world era history)
    (back : world.backPg (toggle world.mtiTxnid) =
      (world.metas (toggle world.mtiTxnid)).lastPg) :
    Displays world era history world.mtiTxnid (world.metas (toggle world.mtiTxnid)).dbs := by
  have visible := storage.visible
  refine ⟨world.mtiTxnid, ⟨Nat.le_refl _, storage.range.1, rfl, by rw [visible]⟩, Or.inr ?_⟩
  intro p member
  rw [back, visible] at *
  have inside := storage.chronicle.inside _ storage.range.1 p member
  exact ⟨inside, inside⟩

/-- The versions only grow in number. -/
theorem Roots.grow {txnid v : Nat} {dbs : Dbs Page} (roots : Roots era history txnid dbs v)
    (grown : era.latest ≤ era'.latest) (kept : ∀ v ≤ era.latest, history' v = history v) :
    Roots era' history' txnid dbs v := by
  obtain ⟨order, bound, same, equal⟩ := roots
  exact ⟨order, Nat.le_trans bound grown, same, by rw [kept v bound]; exact equal⟩

/-- A step that leaves the meta pages as they are changes nothing for a reader. -/
theorem Sees.keep {reader : Reader Page} (sees : Sees world era history reader)
    (metas : next.metas = world.metas) (back : next.backPg = world.backPg)
    (unwritten : ∀ v ≤ era.latest, Unwritten world v → Unwritten next v) :
    Sees next era history reader := by
  have shows {txnid : Nat} {dbs : Dbs Page} (known : Displays world era history txnid dbs) :
      Displays next era history txnid dbs := by
    obtain ⟨v, roots, failed | inside⟩ := known
    · exact ⟨v, roots, Or.inl (unwritten v roots.2.1 failed)⟩
    · refine ⟨v, roots, Or.inr ?_⟩
      rw [metas, back]
      exact inside
  have reaches {txnid nextPgno : Nat} {dbs : Dbs Page}
      (known : Reaches world era history txnid dbs nextPgno) :
      Reaches next era history txnid dbs nextPgno := by
    obtain ⟨v, roots, failed | inside⟩ := known
    · exact ⟨v, roots, Or.inl (unwritten v roots.2.1 failed)⟩
    · exact ⟨v, roots, Or.inr inside⟩
  cases reader with
  | begun slot txnid =>
      show Displays next era history txnid (next.metas (toggle txnid)).dbs
      rw [metas]
      exact shows sees
  | copied slot txnid dbs => exact shows sees
  | sized slot txnid dbs nextPgno => exact reaches sees
  | reading slot txnid dbs nextPgno => exact reaches sees
  | _ => trivial

end Views

end DbBench
