import DbBench.Proof.FreelistSave
import DbBench.Proof.Squash

/-
This file proves that the commit writes each free page into exactly one record.
-/

namespace DbBench

open Cells Reclaim

variable {Page : Type}

section Loose

variable {era : Era Page} {env : EnvPages} {txn : WriteTxn Page} {file : File Page}
  {ready freed : List UInt64} {place : Nat → Place}

/-- The loose pages are ready with the other ones. -/
theorem Books.mergeLoose {maxpg : Nat} (books : Books txn maxpg ready freed place) {mop : Midl}
    (headIs : txn.pghead = some mop) {list : Midl} {merged : List UInt64}
    (holds : list.Holds merged) (pages : (pagesOf merged).Perm (pagesOf ready ++ txn.loosePgs))
    (descends : merged.Pairwise Descends) :
    Books {txn with pghead := some list, loosePgs := []} maxpg merged freed place := by
  have once : merged.Nodup := by
    rw [← nodup_pagesOf, pages.nodup_iff, List.nodup_append]
    refine ⟨nodup_pagesOf.mpr (Falls.nodup books.falls), books.looseOnce, ?_⟩
    intro p inReady q inLoose same
    exact (books.looseApart q inLoose).2 (same ▸ inReady)
  have members (p : Nat) : p ∈ pagesOf merged ↔ p ∈ pagesOf ready ∨ p ∈ txn.loosePgs := by
    rw [pages.mem_iff, List.mem_append]
  exact
    { head := holds
      free := books.free
      used := books.used
      aboveMetas := books.aboveMetas
      idle := by
        intro p
        rw [books.idle, members, or_assoc]
        have empty : p ∉ ([] : List Nat) := List.not_mem_nil
        tauto
      retired := books.retired
      limbo := books.limbo
      falls := falls_of_descends descends once
      freeOnce := books.freeOnce
      looseOnce := List.nodup_nil
      looseApart := fun p member => by cases member
      below := by
        intro p member
        rcases (members p).mp member with inReady | inLoose
        · exact books.below p inReady
        · exact (books.looseApart p inLoose).1
      records := books.records
      numbered := books.numbered
      sound := books.sound
      next := books.next
      fetched := by
        have fetched := books.fetched
        rw [headIs] at fetched
        exact ⟨fun none' => (by cases none'), fun zero => (by cases fetched.mpr zero)⟩
      late := books.late }

end Loose

section Fill

variable {mop : Array UInt64} {ready freed unused : List UInt64} {pglast : Nat} {era : Era Page}
  {work : Work Page} {place : Nat → Place}

/-- The pages of the records up to a number. -/
def reservedPages (freeDB : List FreeRecord) (pglast : Nat) : List Nat :=
  (freeDB.filter fun record => record.txnid ≤ pglast).flatMap FreeRecord.pages

/-- An empty record holds no pages. -/
theorem empty_lists {record : FreeRecord} (empty : record.idl[0]? = some 0) :
    ∃ unused, Midl.Lists record.idl [] unused := by
  rw [← Array.getElem?_toList] at empty
  match cells : record.idl.toList with
  | [] =>
      rw [cells] at empty
      cases empty
  | first :: rest =>
      rw [cells, List.getElem?_cons_zero, Option.some.injEq] at empty
      exact ⟨rest, first, cells, by rw [empty]; rfl⟩

/-- Each record gets a part of the list, and together they hold all of it. -/
structure Filled (before after : List FreeRecord) (pglast : Nat) (pages : List UInt64) : Prop where
  numbers : after.map FreeRecord.txnid = before.map FreeRecord.txnid
  others : ∀ record, pglast < record.txnid → (record ∈ after ↔ record ∈ before)
  sound : ∀ record ∈ after, record.txnid ≤ pglast → record.Sound
  pages : (reservedPages after pglast).Perm (pagesOf pages)

/-- Records that stay empty. -/
theorem Filled.empty {records : List FreeRecord}
    (empty : ∀ record ∈ records, record.txnid ≤ pglast → record.idl[0]? = some 0) :
    Filled records records pglast [] where
  numbers := rfl
  others _ _ := Iff.rfl
  sound record member low := by
    obtain ⟨unused, lists⟩ := empty_lists (empty record member low)
    exact ⟨[], unused, lists, List.Pairwise.nil⟩
  pages := by
    have none' : reservedPages records pglast = [] := by
      rw [reservedPages, List.flatMap_eq_nil_iff]
      intro record member
      obtain ⟨inside, low⟩ := List.mem_filter.mp member
      obtain ⟨unused, lists⟩ := empty_lists (empty record inside (of_decide_eq_true low))
      exact FreeRecord.pages_of_lists lists
    rw [none']
    exact List.Perm.refl _

/-- The first record takes the tail of the pages. -/
theorem Filled.cons {rest rest' : List FreeRecord} {front slice : List UInt64}
    (filled : Filled rest rest' pglast front) {record : FreeRecord} (low : record.txnid ≤ pglast)
    {idl : Array UInt64} (lists : Midl.Lists idl slice []) (falls : slice.Pairwise Falls) :
    Filled (record :: rest) ({record with idl := idl} :: rest') pglast (front ++ slice) where
  numbers := by
    rw [List.map_cons, List.map_cons, filled.numbers]
  others other above := by
    have different {first : FreeRecord} (number : first.txnid = record.txnid) : other ≠ first := by
      rintro rfl
      omega
    rw [List.mem_cons, List.mem_cons, filled.others other above]
    constructor
    · rintro (here | later)
      · exact absurd here (different rfl)
      · exact Or.inr later
    · rintro (here | later)
      · exact absurd here (different rfl)
      · exact Or.inr later
  sound other member low' := by
    rcases List.mem_cons.mp member with here | later
    · rw [here]
      exact ⟨slice, [], lists, falls⟩
    · exact filled.sound other later low'
  pages := by
    have pages : FreeRecord.pages {record with idl := idl} = pagesOf slice :=
      FreeRecord.pages_of_lists lists
    rw [reservedPages, List.filter_cons_of_pos (by simpa using low), List.flatMap_cons, pages,
      pagesOf_append]
    exact (filled.pages.append_left _).trans List.perm_append_comm

end Fill

/-- The trees and the records of a version. Each page number is in use, in exactly one record or not
in use yet. -/
structure Stored (inUse : Finset Nat) (freeDB : List FreeRecord) (next version maxpg : Nat)
    (place : Nat → Place) : Prop where
  used : ∀ p, place p = .used ↔ p ∈ inUse ∨ p < 2
  aboveMetas : ∀ p ∈ inUse, 2 ≤ p
  idle : ∀ p, place p = .idle ↔ next ≤ p
  retired : ∀ p, place p ≠ .retired
  limbo : ∀ p k, place p = .limbo k ↔ ∃ record ∈ freeDB, record.txnid = k ∧ p ∈ record.pages
  records : freeDB.Pairwise fun one other => one.txnid < other.txnid
  numbered : ∀ record ∈ freeDB, 0 < record.txnid ∧ record.txnid ≤ version
  sound : ∀ record ∈ freeDB, record.Sound
  next : 2 ≤ next ∧ next ≤ maxpg

/-- The commit puts the retired pages into a record of its own number. The ready ones may be in any
record. -/
structure Publishes (place place' : Nat → Place) (txnid : Nat) : Prop where
  idle : ∀ p, place' p = .idle → place p = .idle
  limbo : ∀ p k, place' p = .limbo k →
    place p = .limbo k ∨ place p = .idle ∨ place p = .retired ∧ k = txnid

section Settle

open Classical in
/-- Where the pages are after the commit. -/
noncomputable def settle (place : Nat → Place) (freeDB : List FreeRecord) (pglast txnid : Nat) :
    Nat → Place := fun p =>
  match place p with
  | .used => .used
  | .retired => .limbo txnid
  | .limbo k => .limbo k
  | .idle =>
      if inside : ∃ record ∈ freeDB, record.txnid ≤ pglast ∧ p ∈ record.pages then
        .limbo inside.choose.txnid
      else .idle

theorem settle_publishes (place : Nat → Place) (freeDB : List FreeRecord) (pglast txnid : Nat) :
    Publishes place (settle place freeDB pglast txnid) txnid where
  idle p here := by
    unfold settle at here
    cases before : place p with
    | idle => rfl
    | used => rw [before] at here; cases here
    | retired => rw [before] at here; cases here
    | limbo j => rw [before] at here; cases here
  limbo p k here := by
    unfold settle at here
    cases before : place p with
    | idle => exact Or.inr (Or.inl rfl)
    | used => rw [before] at here; cases here
    | retired =>
        rw [before] at here
        cases here
        exact Or.inr (Or.inr ⟨rfl, rfl⟩)
    | limbo j =>
        rw [before] at here
        cases here
        exact Or.inl rfl

variable {txn : WriteTxn Page} {maxpg : Nat} {ready freed : List UInt64} {place : Nat → Place}
  {filled : List FreeRecord}

/-- The record of this transaction holds all pages that it has freed. -/
def OwnAll (freeDB : List FreeRecord) (txnid : Nat) (freed : List UInt64) : Prop :=
  freed = [] ∧ (∀ record ∈ freeDB, record.txnid < txnid) ∨
    ∃ record ∈ freeDB, record.txnid = txnid ∧ Midl.Lists record.idl freed [] ∧ freed.Pairwise Falls

/-- The books find every page of a record where the record belongs. -/
theorem Books.located (books : Books txn maxpg ready freed place)
    (filledIn : Filled txn.freeDB filled txn.pglast ready)
    (latest : ∀ record ∈ txn.freeDB, record.txnid ≤ txn.txnid)
    (own : OwnAll txn.freeDB txn.txnid freed) {record : FreeRecord} (member : record ∈ filled) :
    record.txnid ≤ txn.pglast ∧ record.Sound ∧
        (∀ p ∈ record.pages, p ∈ pagesOf ready ∧ place p = .idle) ∨
      (txn.pglast < record.txnid ∧ record.txnid < txn.txnid) ∧ record.Sound ∧
        (∀ p ∈ record.pages, place p = .limbo record.txnid) ∨
      record.txnid = txn.txnid ∧ record.Sound ∧ (∀ p ∈ record.pages, place p = .retired) := by
  by_cases low : record.txnid ≤ txn.pglast
  · refine Or.inl ⟨low, filledIn.sound record member low, fun p inside => ?_⟩
    have inReady : p ∈ pagesOf ready := by
      rw [← filledIn.pages.mem_iff, reservedPages, List.mem_flatMap]
      exact ⟨record, List.mem_filter.mpr ⟨member, decide_eq_true low⟩, inside⟩
    exact ⟨inReady, (books.idle p).mpr (Or.inl inReady)⟩
  · have above : txn.pglast < record.txnid := Nat.lt_of_not_le low
    have before := (filledIn.others record above).mp member
    have bound := latest record before
    rcases Nat.lt_or_eq_of_le bound with early | equal
    · refine Or.inr (Or.inl ⟨⟨above, early⟩, books.sound record before above early,
        fun p inside => ?_⟩)
      exact (books.limbo p record.txnid).mpr ⟨above, early, record, before, rfl, inside⟩
    · rcases own with ⟨_, early⟩ | ⟨other, inside, number, lists, falls⟩
      · exact absurd (early record before) (by omega)
      · have same : record = other := record_unique books.records before inside (by omega)
        subst same
        refine Or.inr (Or.inr ⟨equal, ⟨freed, [], lists, falls⟩, fun p inside' => ?_⟩)
        rw [FreeRecord.pages_of_lists lists] at inside'
        exact (books.retired p).mpr inside'

/-- The numbers of the records stay. -/
theorem Filled.ascends {before : List FreeRecord} {pglast : Nat} {pages : List UInt64}
    (filledIn : Filled before filled pglast pages)
    (ascends : before.Pairwise fun one other => one.txnid < other.txnid) :
    filled.Pairwise fun one other => one.txnid < other.txnid := by
  have numbers : (before.map FreeRecord.txnid).Pairwise (· < ·) := List.pairwise_map.mpr ascends
  rw [← filledIn.numbers] at numbers
  exact List.pairwise_map.mp numbers

theorem Filled.number {before : List FreeRecord} {pglast : Nat} {pages : List UInt64}
    (filledIn : Filled before filled pglast pages) {record : FreeRecord}
    (member : record ∈ filled) : ∃ other ∈ before, other.txnid = record.txnid := by
  have inside : record.txnid ∈ filled.map FreeRecord.txnid := List.mem_map_of_mem member
  rw [filledIn.numbers] at inside
  exact List.mem_map.mp inside

/-- A ready page is in one record. -/
theorem Filled.unique {before : List FreeRecord} {pglast : Nat} {pages : List UInt64}
    (filledIn : Filled before filled pglast pages) (once : (pagesOf pages).Nodup)
    {one other : FreeRecord} (member : one ∈ filled) (member' : other ∈ filled)
    (low : one.txnid ≤ pglast) (low' : other.txnid ≤ pglast) {p : Nat} (inside : p ∈ one.pages)
    (inside' : p ∈ other.pages) : one = other := by
  have apart := filledIn.pages.nodup_iff.mpr once
  rw [reservedPages, List.nodup_flatMap] at apart
  by_contra different
  have symm : Std.Symm (Function.onFun List.Disjoint FreeRecord.pages) :=
    ⟨fun _ _ disjoint => disjoint.symm⟩
  have disjoint := apart.2.forall
    (List.mem_filter.mpr ⟨member, decide_eq_true low⟩)
    (List.mem_filter.mpr ⟨member', decide_eq_true low'⟩) different
  exact disjoint inside inside'

/-- The records up to the last one used hold the ready pages. -/
theorem Filled.reserved_iff {before : List FreeRecord} {pglast : Nat} {pages : List UInt64}
    (filledIn : Filled before filled pglast pages) (p : Nat) :
    (∃ record ∈ filled, record.txnid ≤ pglast ∧ p ∈ record.pages) ↔ p ∈ pagesOf pages := by
  rw [← filledIn.pages.mem_iff, reservedPages, List.mem_flatMap]
  constructor
  · rintro ⟨record, member, low, inside⟩
    exact ⟨record, List.mem_filter.mpr ⟨member, decide_eq_true low⟩, inside⟩
  · rintro ⟨record, member, inside⟩
    obtain ⟨member, low⟩ := List.mem_filter.mp member
    exact ⟨record, member, of_decide_eq_true low, inside⟩

theorem settle_used (place : Nat → Place) (freeDB : List FreeRecord) (pglast txnid p : Nat) :
    settle place freeDB pglast txnid p = .used ↔ place p = .used := by
  rw [settle]
  cases here : place p with
  | used => exact Iff.rfl
  | retired => exact iff_of_false Place.noConfusion Place.noConfusion
  | limbo j => exact iff_of_false Place.noConfusion Place.noConfusion
  | idle =>
      dsimp only
      split
      · exact iff_of_false Place.noConfusion Place.noConfusion
      · exact Iff.rfl

theorem settle_retired (place : Nat → Place) (freeDB : List FreeRecord) (pglast txnid p : Nat) :
    settle place freeDB pglast txnid p ≠ .retired := by
  rw [settle]
  cases place p with
  | idle =>
      dsimp only
      split <;> exact Place.noConfusion
  | used => exact Place.noConfusion
  | retired => exact Place.noConfusion
  | limbo j => exact Place.noConfusion

/-- Only the pages behind the last one are not in use yet. -/
theorem Books.settle_idle (books : Books txn maxpg ready freed place) (noLoose : txn.loosePgs = [])
    (filledIn : Filled txn.freeDB filled txn.pglast ready) (p : Nat) :
    settle place filled txn.pglast txn.txnid p = .idle ↔ txn.nextPgno ≤ p := by
  have before := books.idle p
  rw [noLoose] at before
  have notIdle (other : place p ≠ .idle) : ¬ txn.nextPgno ≤ p := fun next =>
    other (before.mpr (Or.inr (Or.inr next)))
  rw [settle]
  cases here : place p with
  | used =>
      rw [here] at notIdle
      exact iff_of_false Place.noConfusion (notIdle Place.noConfusion)
  | retired =>
      rw [here] at notIdle
      exact iff_of_false Place.noConfusion (notIdle Place.noConfusion)
  | limbo j =>
      rw [here] at notIdle
      exact iff_of_false Place.noConfusion (notIdle Place.noConfusion)
  | idle =>
      dsimp only
      split
      · rename_i inside
        have low := books.below p ((filledIn.reserved_iff p).mp inside)
        exact iff_of_false Place.noConfusion (Nat.not_le_of_lt low)
      · rename_i outside
        refine ⟨fun _ => ?_, fun _ => rfl⟩
        rcases before.mp here with ready | loose | next
        · exact absurd ((filledIn.reserved_iff p).mpr ready) outside
        · cases loose
        · exact next

/-- A page waits for the transactions of the record that holds it. -/
theorem Books.settle_limbo (books : Books txn maxpg ready freed place)
    (filledIn : Filled txn.freeDB filled txn.pglast ready)
    (latest : ∀ record ∈ txn.freeDB, record.txnid ≤ txn.txnid)
    (own : OwnAll txn.freeDB txn.txnid freed) (p k : Nat) :
    settle place filled txn.pglast txn.txnid p = .limbo k ↔
      ∃ record ∈ filled, record.txnid = k ∧ p ∈ record.pages := by
  have located {record : FreeRecord} (member : record ∈ filled) :=
    books.located filledIn latest own member
  have once : (pagesOf ready).Nodup := nodup_pagesOf.mpr (Falls.nodup books.falls)
  rw [settle]
  cases here : place p with
  | used =>
      refine iff_of_false Place.noConfusion ?_
      rintro ⟨record, member, _, inside⟩
      rcases located member with ⟨_, _, places⟩ | ⟨_, _, places⟩ | ⟨_, _, places⟩
      · exact Place.noConfusion (here.symm.trans (places p inside).2)
      · exact Place.noConfusion (here.symm.trans (places p inside))
      · exact Place.noConfusion (here.symm.trans (places p inside))
  | retired =>
      constructor
      · intro same
        cases same
        have inFreed := (books.retired p).mp here
        rcases own with ⟨none', _⟩ | ⟨record, member, number, lists, _⟩
        · rw [none'] at inFreed
          cases inFreed
        · have above : txn.pglast < record.txnid := by
            rw [number]
            exact books.late
          refine ⟨record, (filledIn.others record above).mpr member, number, ?_⟩
          rw [FreeRecord.pages_of_lists lists]
          exact inFreed
      · rintro ⟨record, member, number, inside⟩
        rcases located member with ⟨_, _, places⟩ | ⟨_, _, places⟩ | ⟨equal, _, _⟩
        · exact Place.noConfusion (here.symm.trans (places p inside).2)
        · exact Place.noConfusion (here.symm.trans (places p inside))
        · rw [← number, equal]
  | limbo j =>
      constructor
      · intro same
        cases same
        obtain ⟨above, _, record, member, number, inside⟩ := (books.limbo p k).mp here
        exact ⟨record, (filledIn.others record (number ▸ above)).mpr member, number, inside⟩
      · rintro ⟨record, member, number, inside⟩
        rcases located member with ⟨_, _, places⟩ | ⟨_, _, places⟩ | ⟨_, _, places⟩
        · exact Place.noConfusion (here.symm.trans (places p inside).2)
        · rw [← number]
          exact here.symm.trans (places p inside)
        · exact Place.noConfusion (here.symm.trans (places p inside))
  | idle =>
      dsimp only
      split
      · rename_i found
        obtain ⟨member, low, inside⟩ := found.choose_spec
        constructor
        · intro same
          cases same
          exact ⟨_, member, rfl, inside⟩
        · rintro ⟨record, member', number, inside'⟩
          rcases located member' with ⟨low', _, _⟩ | ⟨_, _, places⟩ | ⟨_, _, places⟩
          · rw [← number, filledIn.unique once member member' low low' inside inside']
          · exact Place.noConfusion (here.symm.trans (places p inside'))
          · exact Place.noConfusion (here.symm.trans (places p inside'))
      · rename_i absent
        refine iff_of_false Place.noConfusion ?_
        rintro ⟨record, member, _, inside⟩
        rcases located member with ⟨low, _, _⟩ | ⟨_, _, places⟩ | ⟨_, _, places⟩
        · exact absent ⟨record, member, low, inside⟩
        · exact Place.noConfusion (here.symm.trans (places p inside))
        · exact Place.noConfusion (here.symm.trans (places p inside))

/-- The records that the commit leaves account for every page. -/
theorem Books.settled (books : Books txn maxpg ready freed place) (noLoose : txn.loosePgs = [])
    (filledIn : Filled txn.freeDB filled txn.pglast ready)
    (latest : ∀ record ∈ txn.freeDB, record.txnid ≤ txn.txnid)
    (own : OwnAll txn.freeDB txn.txnid freed) :
    Stored txn.inUse filled txn.nextPgno txn.txnid maxpg
      (settle place filled txn.pglast txn.txnid) where
  used p := (settle_used place filled txn.pglast txn.txnid p).trans (books.used p)
  aboveMetas := books.aboveMetas
  idle := books.settle_idle noLoose filledIn
  retired := settle_retired place filled txn.pglast txn.txnid
  limbo := books.settle_limbo filledIn latest own
  records := filledIn.ascends books.records
  numbered record member := by
    obtain ⟨other, inside, number⟩ := filledIn.number member
    rw [← number]
    exact ⟨books.numbered other inside, latest other inside⟩
  sound record member := by
    rcases books.located filledIn latest own member with
      ⟨_, sound, _⟩ | ⟨_, sound, _⟩ | ⟨_, sound, _⟩
    · exact sound
    · exact sound
    · exact sound
  next := books.next

end Settle

/-- The commit has saved the free lists. -/
structure Saved (era : Era Page) (work : Work Page) (ready freed : List UInt64)
    (place place' : Nat → Place) : Prop where
  working : Working era work ready freed place
  noLoose : work.txn.loosePgs = []
  stored : Stored work.txn.inUse work.txn.freeDB work.txn.nextPgno work.txn.txnid era.maxpg place'
  publishes : Publishes place place' work.txn.txnid

section Save

variable {era : Era Page} {work : Work Page} {ready freed : List UInt64} {place : Nat → Place}
  {found : List Nat}

/-- The records that were filled account for every page. -/
theorem Working.settled (working : Working era work ready freed place)
    (noLoose : work.txn.loosePgs = []) {before : List FreeRecord}
    (filled : Filled before work.txn.freeDB work.txn.pglast ready)
    (ascends : before.Pairwise fun one other => one.txnid < other.txnid)
    (numbered : ∀ record ∈ before, 0 < record.txnid)
    (latest : ∀ record ∈ before, record.txnid ≤ work.txn.txnid)
    (own : OwnAll before work.txn.txnid freed) :
    Saved era work ready freed place
      (settle place work.txn.freeDB work.txn.pglast work.txn.txnid) :=
  { working := working
    noLoose := noLoose
    stored := by
      have back := Working.rewrite
        (show Working era ⟨work.env, work.txn, work.file⟩ ready freed place from working) before
        ascends numbered (fun record above _ => (filled.others record above).symm)
      exact @Books.settled _ {work.txn with freeDB := before} _ _ _ _ _ back.books noLoose filled
        latest own
    publishes := settle_publishes _ _ _ _ }

/-- The loop starts with nothing reserved. -/
theorem Saves.start (working : Working era work ready freed place)
    (fetched : Fetched work.txn 0 work.txn.pglast)
    (early : ∀ record ∈ work.txn.freeDB, record.txnid < work.txn.txnid)
    (pool : work.txn.loosePgs ≠ [] → 0 < work.txn.pglast) :
    Saves era ⟨0, 0, 0, 0, 0, 1, false⟩ work ready freed place where
  working := working
  pool := pool
  order := Nat.zero_le _
  ahead behind := by
    rcases fetched.used with none' | used
    · rw [none'] at behind
      exact absurd behind (Nat.lt_irrefl _)
    · exact used
  latest record member := Nat.le_of_lt (early record member)
  reserved equal := by
    have above : ∀ record ∈ work.txn.freeDB, work.txn.pglast < record.txnid := by
      intro record member
      rw [← show 0 = work.txn.pglast from equal]
      exact working.books.numbered record member
    exact
      { head := by
          have zero : (0 : Nat) = work.txn.pglast := equal
          exact ⟨Nat.zero_le _, fun positive => absurd positive (by omega)⟩
        least := fun record member low => absurd low (Nat.not_le_of_lt (above record member))
        empty := fun record member low => absurd low (Nat.not_le_of_lt (above record member))
        current := fun record member number => by
          have positive := working.books.numbered record member
          have zero : record.txnid = 0 := number
          omega
        fresh := fun _ => rfl
        total := by
          rw [rooms_eq_zero above]
          rfl }
  own := Or.inl ⟨rfl, rfl, early⟩

end Save

end DbBench
