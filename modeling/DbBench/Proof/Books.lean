import DbBench.Proof.PageRanges
import DbBench.Library.Reclaim

/-
This file keeps the books of a write transaction: each page number is in use, ready, freed or in a
record of an older transaction, and never in two of these places.
-/

namespace DbBench

open Cells Reclaim

variable {Page : Type}

/-- The record holds a falling list. -/
def FreeRecord.Sound (record : FreeRecord) : Prop :=
  ∃ entries unused, Midl.Lists record.idl entries unused ∧ entries.Pairwise Falls

theorem FreeRecord.pages_of_lists {record : FreeRecord} {entries unused : List UInt64}
    (lists : Midl.Lists record.idl entries unused) : record.pages = pagesOf entries := by
  obtain ⟨first, layout, counts⟩ := lists
  simp only [FreeRecord.pages, layout, counts, List.take_left]

/-- The list of ready pages may not exist yet. -/
def HeadHolds (pghead : Option Midl) (head : List UInt64) : Prop :=
  match pghead with
  | none => head = []
  | some mop => mop.Holds head

structure Books (txn : WriteTxn Page) (maxpg : Nat) (ready freed : List UInt64)
    (place : Nat → Place) : Prop where
  head : HeadHolds txn.pghead ready
  free : txn.freePgs.Holds freed
  used : ∀ p, place p = .used ↔ p ∈ txn.inUse ∨ p < 2
  aboveMetas : ∀ p ∈ txn.inUse, 2 ≤ p
  idle : ∀ p, place p = .idle ↔ p ∈ pagesOf ready ∨ p ∈ txn.loosePgs ∨ txn.nextPgno ≤ p
  retired : ∀ p, place p = .retired ↔ p ∈ pagesOf freed
  limbo : ∀ p k, place p = .limbo k ↔ txn.pglast < k ∧ k < txn.txnid ∧
    ∃ record ∈ txn.freeDB, record.txnid = k ∧ p ∈ record.pages
  falls : ready.Pairwise Falls
  freeOnce : freed.Nodup
  looseOnce : txn.loosePgs.Nodup
  looseApart : ∀ p ∈ txn.loosePgs, p < txn.nextPgno ∧ p ∉ pagesOf ready
  below : ∀ p ∈ pagesOf ready, p < txn.nextPgno
  records : txn.freeDB.Pairwise fun one other => one.txnid < other.txnid
  numbered : ∀ record ∈ txn.freeDB, 0 < record.txnid
  sound : ∀ record ∈ txn.freeDB, txn.pglast < record.txnid → record.txnid < txn.txnid →
    record.Sound
  next : 2 ≤ txn.nextPgno ∧ txn.nextPgno ≤ maxpg
  fetched : txn.pghead = none ↔ txn.pglast = 0
  late : txn.pglast < txn.txnid

/-- A list without duplicates below a bound is not longer than the bound. -/
theorem length_le_of_below {pages : List Nat} {bound : Nat} (once : pages.Nodup)
    (below : ∀ p ∈ pages, p < bound) : pages.length ≤ bound := by
  have inside : pages ⊆ List.range bound := fun p member => List.mem_range.mpr (below p member)
  have order := (once.subperm inside).length_le
  rwa [List.length_range] at order

/-- At most one record has a given number. -/
theorem record_unique {records : List FreeRecord}
    (ascends : records.Pairwise fun one other => one.txnid < other.txnid) {one other : FreeRecord}
    (member : one ∈ records) (member' : other ∈ records) (same : one.txnid = other.txnid) :
    one = other := by
  have once : (records.map FreeRecord.txnid).Nodup :=
    List.pairwise_map.mpr (ascends.imp fun {_ _} less => Nat.ne_of_lt less)
  exact List.inj_on_of_nodup_map once member member' same

namespace Books

variable {txn : WriteTxn Page} {maxpg : Nat} {ready freed : List UInt64} {place : Nat → Place}

theorem lt_next (books : Books txn maxpg ready freed place) {p : Nat} (other : place p ≠ .idle) :
    p < txn.nextPgno := by
  by_contra above
  exact other ((books.idle p).mpr (Or.inr (Or.inr (Nat.le_of_not_lt above))))

theorem free_below (books : Books txn maxpg ready freed place) : ∀ p ∈ pagesOf freed,
    p < txn.nextPgno := by
  intro p member
  have here := (books.retired p).mpr member
  exact books.lt_next (by rw [here]; exact Place.noConfusion)

theorem inUse_below (books : Books txn maxpg ready freed place) {p : Nat} (member : p ∈ txn.inUse) :
    p < txn.nextPgno := by
  have here := (books.used p).mpr (Or.inl member)
  exact books.lt_next (by rw [here]; exact Place.noConfusion)

theorem head_length (books : Books txn maxpg ready freed place) : ready.length ≤ maxpg := by
  have order := length_le_of_below (nodup_pagesOf.mpr (Falls.nodup books.falls)) books.below
  rw [length_pagesOf] at order
  exact Nat.le_trans order books.next.2

theorem free_length (books : Books txn maxpg ready freed place) : freed.length ≤ maxpg := by
  have order := length_le_of_below (nodup_pagesOf.mpr books.freeOnce) books.free_below
  rw [length_pagesOf] at order
  exact Nat.le_trans order books.next.2

/-- The pages of the oldest record that is ahead join the ready ones. -/
theorem merge (books : Books txn maxpg ready freed place) {record : FreeRecord}
    {entries unused merged : List UInt64} {mop : Midl} (member : record ∈ txn.freeDB)
    (ahead : txn.pglast < record.txnid) (old : record.txnid < txn.txnid)
    (first : ∀ other ∈ txn.freeDB, txn.pglast < other.txnid → record.txnid ≤ other.txnid)
    (lists : Midl.Lists record.idl entries unused) (holds : mop.Holds merged)
    (perm : merged.Perm (ready ++ entries)) (falls : merged.Pairwise Falls) :
    Books {txn with pghead := some mop, pglast := record.txnid} maxpg merged freed
      (relocate place {p | place p = .limbo record.txnid} .idle) := by
  have pages := FreeRecord.pages_of_lists lists
  have same {other : FreeRecord} (member' : other ∈ txn.freeDB)
      (equal : other.txnid = record.txnid) : other = record :=
    record_unique books.records member' member equal
  have entry (p : Nat) : place p = .limbo record.txnid ↔ p ∈ pagesOf entries := by
    rw [books.limbo]
    constructor
    · rintro ⟨_, _, other, member', equal, inside⟩
      rw [same member' equal, pages] at inside
      exact inside
    · intro inside
      exact ⟨ahead, old, record, member, rfl, by rw [pages]; exact inside⟩
  have mergedPages (p : Nat) : p ∈ pagesOf merged ↔ p ∈ pagesOf ready ∨ p ∈ pagesOf entries := by
    rw [pagesOf, (perm.map _).mem_iff, List.map_append, List.mem_append]
    rfl
  have keeps (p : Nat) {target : Place} (other : target ≠ .idle) (away : target ≠ .limbo record.txnid) :
      relocate place {p | place p = .limbo record.txnid} .idle p = target ↔ place p = target := by
    rw [relocate_eq_iff, Set.mem_ofPred_eq]
    constructor
    · rintro (⟨_, equal⟩ | ⟨_, here⟩)
      · exact absurd equal.symm other
      · exact here
    · intro here
      exact Or.inr ⟨by rw [here]; exact away, here⟩
  have fresh (p : Nat) (inside : p ∈ pagesOf entries) : p < txn.nextPgno :=
    books.lt_next (by rw [(entry p).mpr inside]; exact Place.noConfusion)
  exact
    { head := holds
      free := books.free
      used := fun p => (keeps p Place.noConfusion Place.noConfusion).trans (books.used p)
      aboveMetas := books.aboveMetas
      idle := by
        intro p
        rw [relocate_eq_iff, Set.mem_ofPred_eq, entry, mergedPages, books.idle]
        have away : p ∈ pagesOf entries → ¬ (p ∈ pagesOf ready ∨ p ∈ txn.loosePgs ∨
            txn.nextPgno ≤ p) := by
          intro inside idle
          have here := (books.idle p).mpr idle
          rw [(entry p).mpr inside] at here
          cases here
        tauto
      retired := fun p => (keeps p Place.noConfusion Place.noConfusion).trans (books.retired p)
      limbo := by
        intro p k
        by_cases this : k = record.txnid
        · subst this
          rw [relocate_eq_iff, Set.mem_ofPred_eq]
          constructor
          · rintro (⟨_, equal⟩ | ⟨no, yes⟩)
            · cases equal
            · exact absurd yes no
          · rintro ⟨less, _⟩
            exact absurd less (Nat.lt_irrefl _)
        · rw [keeps p Place.noConfusion (fun equal => this (Place.limbo.inj equal)), books.limbo]
          constructor
          · rintro ⟨less, late, other, member', equal, inside⟩
            have order := first other member' (equal ▸ less)
            exact ⟨by show record.txnid < k; omega, late, other, member', equal, inside⟩
          · rintro ⟨less, rest⟩
            exact ⟨Nat.lt_trans ahead less, rest⟩
      falls := falls
      freeOnce := books.freeOnce
      looseOnce := books.looseOnce
      looseApart := by
        intro p loose
        have before := books.looseApart p loose
        refine ⟨before.1, ?_⟩
        rw [mergedPages]
        rintro (here | inside)
        · exact before.2 here
        · have here := (books.idle p).mpr (Or.inr (Or.inl loose))
          rw [(entry p).mpr inside] at here
          cases here
      below := by
        intro p member'
        rcases (mergedPages p).mp member' with here | inside
        · exact books.below p here
        · exact fresh p inside
      records := books.records
      numbered := books.numbered
      sound := fun other member' less late =>
        books.sound other member' (Nat.lt_trans ahead less) late
      next := books.next
      fetched := by
        constructor
        · intro none'
          cases none'
        · intro zero
          rw [show record.txnid = 0 from zero] at ahead
          cases ahead
      late := old }

/-- The books do not depend on the contents of the pages. -/
theorem entries (books : Books txn maxpg ready freed place) (dirtyList : List (DirtyPage Page))
    (dirtyRoom : Nat) (spillPgs : List (Nat × Nat)) (error : Bool) :
    Books {txn with
      dirtyList := dirtyList, dirtyRoom := dirtyRoom, spillPgs := spillPgs, error := error}
      maxpg ready freed place :=
  { head := books.head
    free := books.free
    used := books.used
    aboveMetas := books.aboveMetas
    idle := books.idle
    retired := books.retired
    limbo := books.limbo
    falls := books.falls
    freeOnce := books.freeOnce
    looseOnce := books.looseOnce
    looseApart := books.looseApart
    below := books.below
    records := books.records
    numbered := books.numbered
    sound := books.sound
    next := books.next
    fetched := books.fetched
    late := books.late }

/-- Idle pages come into use. -/
theorem take (books : Books txn maxpg ready freed place) {pgno num next : Nat} {loose : List Nat}
    {ready' : List UInt64} {pghead : Option Midl}
    (idle : ∀ p ∈ Set.Ico pgno (pgno + num), place p = .idle)
    (fetched : pghead = none ↔ txn.pghead = none) (holds : HeadHolds pghead ready')
    (falls : ready'.Pairwise Falls)
    (fewer : ∀ p, (p ∈ pagesOf ready' ∨ p ∈ loose ∨ next ≤ p) ↔
      (p ∈ pagesOf ready ∨ p ∈ txn.loosePgs ∨ txn.nextPgno ≤ p) ∧ p ∉ Set.Ico pgno (pgno + num))
    (looseOnce : loose.Nodup) (looseApart : ∀ p ∈ loose, p < next ∧ p ∉ pagesOf ready')
    (below : ∀ p ∈ pagesOf ready', p < next) (bound : 2 ≤ next ∧ next ≤ maxpg) :
    Books {txn with
      pghead := pghead, loosePgs := loose, nextPgno := next
      inUse := txn.inUse ∪ Finset.Ico pgno (pgno + num)} maxpg ready' freed
      (relocate place (Set.Ico pgno (pgno + num)) .used) where
  head := holds
  free := books.free
  used p := by
    rw [relocate_eq_iff, books.used, Finset.mem_union, Finset.mem_Ico, Set.mem_Ico]
    tauto
  aboveMetas p member := by
    rw [Finset.mem_union, Finset.mem_Ico] at member
    rcases member with before | new
    · exact books.aboveMetas p before
    · by_contra low
      have here := (books.used p).mpr (Or.inr (by omega))
      rw [idle p new] at here
      cases here
  idle p := by
    rw [relocate_eq_iff, books.idle, fewer]
    constructor
    · rintro (⟨_, equal⟩ | ⟨outside, here⟩)
      · cases equal
      · exact ⟨here, outside⟩
    · rintro ⟨here, outside⟩
      exact Or.inr ⟨outside, here⟩
  retired p := (relocate_other idle Place.noConfusion Place.noConfusion).trans (books.retired p)
  limbo p k := (relocate_other idle Place.noConfusion Place.noConfusion).trans (books.limbo p k)
  falls := falls
  freeOnce := books.freeOnce
  looseOnce := looseOnce
  looseApart := looseApart
  below := below
  records := books.records
  numbered := books.numbered
  sound := books.sound
  next := bound
  fetched := fetched.trans books.fetched
  late := books.late

/-- Pages leave the trees and go to another list. -/
theorem leave (books : Books txn maxpg ready freed place) {pgno num : Nat} {loose : List Nat}
    {ready' freed' : List UInt64} {pghead : Option Midl} {freePgs : Midl} {target : Place}
    (used : ∀ p ∈ Set.Ico pgno (pgno + num), p ∈ txn.inUse)
    (fetched : pghead = none ↔ txn.pghead = none) (holds : HeadHolds pghead ready')
    (holds' : freePgs.Holds freed')
    (idle : ∀ p, (p ∈ pagesOf ready' ∨ p ∈ loose) ↔ (p ∈ pagesOf ready ∨ p ∈ txn.loosePgs) ∨
      target = .idle ∧ p ∈ Set.Ico pgno (pgno + num))
    (retired : ∀ p, p ∈ pagesOf freed' ↔ p ∈ pagesOf freed ∨
      target = .retired ∧ p ∈ Set.Ico pgno (pgno + num))
    (known : target = .idle ∨ target = .retired)
    (falls : ready'.Pairwise Falls) (freeOnce : freed'.Nodup) (looseOnce : loose.Nodup)
    (looseApart : ∀ p ∈ loose, p ∉ pagesOf ready') :
    Books {txn with
      pghead := pghead, loosePgs := loose, freePgs := freePgs
      inUse := txn.inUse \ Finset.Ico pgno (pgno + num)} maxpg ready' freed'
      (relocate place (Set.Ico pgno (pgno + num)) target) := by
  have here (p : Nat) (inside : p ∈ Set.Ico pgno (pgno + num)) : place p = .used :=
    (books.used p).mpr (Or.inl (used p inside))
  have other : target ≠ .used := by
    rcases known with rfl | rfl <;> exact Place.noConfusion
  have next (p : Nat) (inside : p ∈ pagesOf ready' ∨ p ∈ loose) : p < txn.nextPgno := by
    rcases (idle p).mp inside with (ready | loose) | ⟨_, moved⟩
    · exact books.below p ready
    · exact (books.looseApart p loose).1
    · exact books.inUse_below (used p moved)
  exact
    { head := holds
      free := holds'
      used := by
        intro p
        rw [relocate_eq_iff, books.used, Finset.mem_sdiff, Finset.mem_Ico, Set.mem_Ico]
        have above := books.aboveMetas p
        have member := used p
        rw [Set.mem_Ico] at member
        constructor
        · rintro (⟨_, equal⟩ | ⟨outside, inUse | meta'⟩)
          · exact absurd equal other
          · exact Or.inl ⟨inUse, outside⟩
          · exact Or.inr meta'
        · rintro (⟨inUse, outside⟩ | meta')
          · exact Or.inr ⟨outside, Or.inl inUse⟩
          · refine Or.inr ⟨fun inside => ?_, Or.inr meta'⟩
            have order := above (member inside)
            omega
      aboveMetas := fun p member => books.aboveMetas p (Finset.mem_sdiff.mp member).1
      idle := by
        intro p
        rw [relocate_eq_iff, ← or_assoc, idle, books.idle]
        have elsewhere (inside : p ∈ Set.Ico pgno (pgno + num)) :
            ¬ (p ∈ pagesOf ready ∨ p ∈ txn.loosePgs ∨ txn.nextPgno ≤ p) := by
          rw [← books.idle, here p inside]
          exact Place.noConfusion
        tauto
      retired := by
        intro p
        rw [relocate_eq_iff, retired, books.retired]
        have elsewhere (inside : p ∈ Set.Ico pgno (pgno + num)) : p ∉ pagesOf freed := by
          rw [← books.retired, here p inside]
          exact Place.noConfusion
        tauto
      limbo := by
        intro p k
        refine (relocate_other here Place.noConfusion ?_).trans (books.limbo p k)
        rcases known with rfl | rfl <;> exact Place.noConfusion
      falls := falls
      freeOnce := freeOnce
      looseOnce := looseOnce
      looseApart := fun p member => ⟨next p (Or.inr member), looseApart p member⟩
      below := fun p member => next p (Or.inl member)
      records := books.records
      numbered := books.numbered
      sound := books.sound
      next := books.next
      fetched := fetched.trans books.fetched
      late := books.late }

end Books

end DbBench
