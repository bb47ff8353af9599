import DbBench.Construction.MdbTxn
import DbBench.Proof.PageAlloc

/-
This file proves that no call of the trees writes a page that a kept version uses, loses a page or
leaves an array.
-/

namespace DbBench

open Cells Reclaim

variable {Page : Type}

section Moves

variable {era : Era Page} {env : EnvPages} {txn : WriteTxn Page} {file : File Page}
  {ready freed : List UInt64} {place : Nat → Place}

/-- Pages that leave the trees for another list keep what was written. -/
theorem Era.Guarded.leave (guarded : era.Guarded place) {moved : Set Nat} {target : Place}
    (apart : target = .idle → ∀ p ∈ moved, era.Apart p) (known : ∀ k, target ≠ .limbo k) :
    era.Guarded (relocate place moved target) := by
  refine Reclaim.Guarded.move guarded ?_ ?_
  · intro p here
    rcases relocate_eq_iff.mp here with ⟨inside, equal⟩ | ⟨_, idle⟩
    · exact Or.inr (apart equal p inside)
    · exact Or.inl idle
  · intro p k here
    rcases relocate_eq_iff.mp here with ⟨_, equal⟩ | ⟨_, limbo⟩
    · exact absurd equal (known k)
    · exact limbo

/-- The list of the freed pages may get another order and another block. -/
theorem Working.permute (working : Working era ⟨env, txn, file⟩ ready freed place) {list : Midl}
    {freed' : List UInt64} (holds : list.Holds freed') (perm : freed'.Perm freed) :
    Working era ⟨env, {txn with freePgs := list}, file⟩ ready freed' place := by
  have pages (p : Nat) : p ∈ pagesOf freed' ↔ p ∈ pagesOf freed := (perm.map _).mem_iff
  exact
    { books := {working.books with
        free := holds
        retired := fun p => (working.books.retired p).trans (pages p).symm
        freeOnce := perm.nodup_iff.mpr working.books.freeOnce}
      entries :=
        { covered := by
            intro span member p covers
            rw [pages]
            exact working.entries.covered span member p covers
          disjoint := working.entries.disjoint
          positive := working.entries.positive
          loose := working.entries.loose
          room := working.entries.room }
      guarded := working.guarded
      intact := working.intact
      unsynced := working.unsynced
      number := working.number
      pgoldest := working.pgoldest
      maxpg := working.maxpg }

theorem Working.freePgs (working : Working era ⟨env, txn, file⟩ ready freed place) {list : Midl}
    (holds : list.Holds freed) :
    Working era ⟨env, {txn with freePgs := list}, file⟩ ready freed place :=
  working.permute holds (List.Perm.refl _)

/-- Pages in use go to the list of the freed ones. -/
theorem Working.retire (working : Working era ⟨env, txn, file⟩ ready freed place) {pgno num : Nat}
    (inside : ∀ p ∈ Set.Ico pgno (pgno + num), p ∈ txn.inUse) {freePgs : Midl}
    {freed' : List UInt64} (holds : freePgs.Holds freed')
    (pages : (pagesOf freed').Perm (pagesOf freed ++ List.range' pgno num)) :
    Working era ⟨env, {txn with
      freePgs := freePgs, inUse := txn.inUse \ Finset.Ico pgno (pgno + num)}, file⟩ ready freed'
      (relocate place (Set.Ico pgno (pgno + num)) .retired) := by
  have books : Books txn era.maxpg ready freed place := working.books
  have entries : Entries txn freed era.Apart := working.entries
  have members (p : Nat) :
      p ∈ pagesOf freed' ↔ p ∈ pagesOf freed ∨ p ∈ Set.Ico pgno (pgno + num) := by
    rw [pages.mem_iff, List.mem_append, List.mem_range'_1, Set.mem_Ico]
  have once : (pagesOf freed').Nodup := by
    rw [pages.nodup_iff, List.nodup_append]
    refine ⟨nodup_pagesOf.mpr books.freeOnce, List.nodup_range', ?_⟩
    intro p before q range same
    rw [List.mem_range'_1] at range
    have here := (books.retired p).mpr before
    rw [(books.used p).mpr (Or.inl (inside p (Set.mem_Ico.mpr (by omega))))] at here
    cases here
  exact
    { books := books.leave inside Iff.rfl books.head holds
        (fun p => by simp only [reduceCtorEq, false_and, or_false])
        (fun p => by simp only [members, true_and]) (Or.inr rfl) books.falls
        (nodup_pagesOf.mp once) books.looseOnce (fun p member => (books.looseApart p member).2)
      entries :=
        { covered := by
            intro span member p covers
            have known := entries.covered span member p covers
            refine ⟨known.1, ?_⟩
            by_cases moved : p ∈ Set.Ico pgno (pgno + num)
            · exact Or.inr (Or.inl ((members p).mpr (Or.inr moved)))
            · rcases known.2 with inUse | before | loose
              · exact Or.inl (Finset.mem_sdiff.mpr ⟨inUse, by
                  rw [Finset.mem_Ico]
                  exact moved⟩)
              · exact Or.inr (Or.inl ((members p).mpr (Or.inl before)))
              · exact Or.inr (Or.inr loose)
          disjoint := entries.disjoint
          positive := entries.positive
          loose := entries.loose
          room := entries.room }
      guarded := working.guarded.leave (fun equal => by cases equal) (fun _ equal => by cases equal)
      intact := working.intact
      unsynced := working.unsynced
      number := working.number
      pgoldest := working.pgoldest
      maxpg := working.maxpg }

/-- Two entries that cover the same page are the same. -/
theorem Entries.unique {apart : Nat → Prop} (entries : Entries txn freed apart)
    {one other : Nat × Nat} (member : one ∈ txn.spans) (member' : other ∈ txn.spans) {p : Nat}
    (covers : Spans one p) (covers' : Spans other p) : one = other := by
  by_contra different
  exact entries.disjoint.forall member member' different p covers covers'

theorem Entries.dirtySpan {apart : Nat → Prop} (entries : Entries txn freed apart)
    {pgno num : Nat} (whole : txn.whole pgno num) (positive : 0 < num)
    {dirty : DirtyPage Page} (member : dirty ∈ txn.dirtyList) (same : dirty.pgno = pgno) :
    dirty.span = (pgno, num) := by
  have member' : dirty.span ∈ txn.spans := List.mem_append_left _ (List.mem_map_of_mem member)
  have covers := Spans.start (entries.positive _ member')
  have start : dirty.span.1 = pgno := same
  rw [start] at covers
  exact (whole 0 positive).2 _ member' covers

theorem WriteTxn.whole.inside {pgno num : Nat} (whole : txn.whole pgno num) :
    ∀ p ∈ Set.Ico pgno (pgno + num), p ∈ txn.inUse := by
  intro p inside
  rw [Set.mem_Ico] at inside
  have here := (whole (p - pgno) (by omega)).1
  rwa [show pgno + (p - pgno) = p by omega] at here

/-- A dirty page of a tree becomes a loose one. -/
theorem Working.loosen (working : Working era ⟨env, txn, file⟩ ready freed place) {pgno : Nat}
    (whole : txn.whole pgno 1) (dirty : txn.dirty pgno = true) :
    Working era ⟨env, {txn with
      loosePgs := pgno :: txn.loosePgs, inUse := txn.inUse.erase pgno}, file⟩ ready freed
      (relocate place (Set.Ico pgno (pgno + 1)) .idle) := by
  have books : Books txn era.maxpg ready freed place := working.books
  have entries : Entries txn freed era.Apart := working.entries
  have only (p : Nat) : p ∈ Set.Ico pgno (pgno + 1) ↔ p = pgno := by
    rw [Set.mem_Ico]
    omega
  have inUse := whole.inside
  have used := (books.used pgno).mpr (Or.inl (inUse pgno ((only pgno).mpr rfl)))
  have notIdle : ¬ (pgno ∈ pagesOf ready ∨ pgno ∈ txn.loosePgs ∨ txn.nextPgno ≤ pgno) := by
    rw [← books.idle, used]
    exact Place.noConfusion
  obtain ⟨entry, member, same⟩ := (dirty_iff txn pgno).mp dirty
  have span := entries.dirtySpan whole Nat.zero_lt_one member same
  have spanIn : (pgno, 1) ∈ txn.dirtyList.map DirtyPage.span :=
    span ▸ List.mem_map_of_mem member
  have erased : txn.inUse.erase pgno = txn.inUse \ Finset.Ico pgno (pgno + 1) := by
    ext p
    have this := only p
    rw [Set.mem_Ico] at this
    rw [Finset.mem_erase, Finset.mem_sdiff, Finset.mem_Ico, this, and_comm]
  have left := @Books.leave _ txn era.maxpg ready freed place books pgno 1 (pgno :: txn.loosePgs)
    ready freed txn.pghead txn.freePgs .idle inUse Iff.rfl books.head books.free
    (fun p => by
      rw [only, List.mem_cons]
      tauto)
    (fun p => by simp only [reduceCtorEq, false_and, or_false]) (Or.inl rfl) books.falls
    books.freeOnce (List.nodup_cons.mpr ⟨fun loose => notIdle (Or.inr (Or.inl loose)),
      books.looseOnce⟩)
    (by
      intro p member'
      rcases List.mem_cons.mp member' with rfl | before
      · exact fun here => notIdle (Or.inl here)
      · exact (books.looseApart p before).2)
  rw [erased]
  exact
    { books := left
      entries :=
        { covered := by
            intro other member' p covers
            have known := entries.covered other member' p covers
            refine ⟨known.1, ?_⟩
            rcases known.2 with here | freed | loose
            · by_cases this : p = pgno
              · exact Or.inr (Or.inr (List.mem_cons.mpr (Or.inl this)))
              · exact Or.inl (Finset.mem_sdiff.mpr ⟨here, by rw [Finset.mem_Ico]; omega⟩)
            · exact Or.inr (Or.inl freed)
            · exact Or.inr (Or.inr (List.mem_cons_of_mem _ loose))
          disjoint := entries.disjoint
          positive := entries.positive
          loose := by
            intro p member'
            rcases List.mem_cons.mp member' with rfl | before
            · exact spanIn
            · exact entries.loose p before
          room := entries.room }
      guarded := working.guarded.leave
        (fun _ p inside => by
          rw [(only p).mp inside]
          exact (entries.covered (pgno, 1) (List.mem_append_left _ spanIn) pgno
            ⟨Nat.le_refl _, Nat.lt_succ_self _⟩).1)
        (fun _ equal => by cases equal)
      intact := working.intact
      unsynced := working.unsynced
      number := working.number
      pgoldest := working.pgoldest
      maxpg := working.maxpg }

/-- The memory of an entry has new contents of the same size. -/
theorem Working.fill (working : Working era ⟨env, txn, file⟩ ready freed place) {pgno : Nat}
    (pages : List Page) (entry : (pgno, pages.length) ∈ txn.dirtyList.map DirtyPage.span) :
    Working era ⟨env, txn.fill pgno pages, file⟩ ready freed place := by
  have entries : Entries txn freed era.Apart := working.entries
  obtain ⟨dirty, member, span⟩ := List.mem_map.mp entry
  have member' : (pgno, pages.length) ∈ txn.spans := List.mem_append_left _ entry
  have spans : (txn.fill pgno pages).dirtyList.map DirtyPage.span =
      txn.dirtyList.map DirtyPage.span := by
    simp only [WriteTxn.fill, List.map_map]
    refine List.map_congr_left fun other inside => ?_
    show (if other.pgno = pgno then (⟨pgno, pages⟩ : DirtyPage Page) else other).span = other.span
    by_cases same : other.pgno = pgno
    · have inside' : other.span ∈ txn.spans := List.mem_append_left _ (List.mem_map_of_mem inside)
      have covers := Spans.start (entries.positive _ inside')
      rw [show other.span.1 = pgno from same] at covers
      rw [if_pos same, entries.unique inside' member' covers
        ⟨Nat.le_refl _, by
          have order := covers.2
          have positive := entries.positive _ member'
          omega⟩]
      rfl
    · rw [if_neg same]
  have all : (txn.fill pgno pages).spans = txn.spans := by
    rw [WriteTxn.spans, spans]
    rfl
  exact
    { books := working.books.entries _ _ _ _
      entries :=
        { covered := by
            rw [all]
            exact entries.covered
          disjoint := by
            rw [all]
            exact entries.disjoint
          positive := by
            rw [all]
            exact entries.positive
          loose := by
            rw [spans]
            exact entries.loose
          room := by
            have length := congrArg List.length spans
            rw [List.length_map, List.length_map] at length
            rw [length]
            exact entries.room }
      guarded := working.guarded
      intact := working.intact
      unsynced := working.unsynced
      number := working.number
      pgoldest := working.pgoldest
      maxpg := working.maxpg }

/-- No entry is left for pages whose entry is dropped. -/
theorem Entries.dropped {apart : Nat → Prop} (entries : Entries txn freed apart) {pgno num : Nat}
    (whole : txn.whole pgno num) (positive : 0 < num) :
    List.Sublist (txn.dropEntry pgno).spans txn.spans ∧
      ∀ span ∈ (txn.dropEntry pgno).spans, ∀ p ∈ Set.Ico pgno (pgno + num), ¬ Spans span p := by
  have covered {span : Nat × Nat} (member : span ∈ txn.spans) {p : Nat}
      (inside : p ∈ Set.Ico pgno (pgno + num)) (covers : Spans span p) : span = (pgno, num) := by
    rw [Set.mem_Ico] at inside
    refine (whole (p - pgno) (by omega)).2 span member ?_
    rwa [show pgno + (p - pgno) = p by omega]
  unfold WriteTxn.dropEntry
  by_cases dirty : txn.dirty pgno = true
  · rw [if_pos dirty]
    have part : List.Sublist ((txn.dirtyList.filter fun dirty => dirty.pgno ≠ pgno).map
        DirtyPage.span ++ txn.spillPgs) txn.spans :=
      (List.filter_sublist.map _).append_right _
    refine ⟨part, fun span member p inside covers => ?_⟩
    have same := covered (part.subset member) inside covers
    rcases List.mem_append.mp member with dirty' | spilled
    · obtain ⟨entry, inList, rfl⟩ := List.mem_map.mp dirty'
      have other := (List.mem_filter.mp inList).2
      rw [decide_eq_true_eq] at other
      exact other (congrArg Prod.fst same)
    · obtain ⟨entry, inList, start⟩ := (dirty_iff txn pgno).mp dirty
      have span' := entries.dirtySpan whole positive inList start
      have away := (List.pairwise_append.mp entries.disjoint).2.2 _
        (List.mem_map_of_mem inList) _ spilled
      rw [span', same] at away
      have start' : Spans (pgno, num) pgno := ⟨Nat.le_refl _, by omega⟩
      exact away pgno start' start'
  · rw [if_neg dirty]
    have part : List.Sublist (txn.dirtyList.map DirtyPage.span ++
        txn.spillPgs.filter fun span => span.1 ≠ pgno) txn.spans :=
      List.filter_sublist.append_left _
    refine ⟨part, fun span member p inside covers => ?_⟩
    have same := covered (part.subset member) inside covers
    rcases List.mem_append.mp member with dirty' | spilled
    · obtain ⟨entry, inList, rfl⟩ := List.mem_map.mp dirty'
      exact dirty ((dirty_iff txn pgno).mpr ⟨entry, inList, congrArg Prod.fst same⟩)
    · have other := (List.mem_filter.mp spilled).2
      rw [decide_eq_true_eq, same] at other
      exact other rfl

/-- Overflow pages that the transaction has written go back to the ready ones. -/
theorem Working.release (working : Working era ⟨env, txn, file⟩ ready freed place) {pgno num : Nat}
    (whole : txn.whole pgno num) (positive : 0 < num)
    (written : (txn.dirty pgno || txn.spilled pgno) = true) {mop mop' : Midl}
    (pghead : txn.pghead = some mop) {ready' : List UInt64} (holds : mop'.Holds ready')
    (falls : ready'.Pairwise Falls)
    (pages : (pagesOf ready').Perm (pagesOf ready ++ List.range' pgno num)) :
    Working era ⟨env, {txn.dropEntry pgno with pghead := some mop'}.leave pgno num, file⟩ ready'
      freed (relocate place (Set.Ico pgno (pgno + num)) .idle) := by
  have books : Books txn era.maxpg ready freed place := working.books
  have entries : Entries txn freed era.Apart := working.entries
  obtain ⟨part, gone⟩ := entries.dropped whole positive
  have members (p : Nat) :
      p ∈ pagesOf ready' ↔ p ∈ pagesOf ready ∨ p ∈ Set.Ico pgno (pgno + num) := by
    rw [pages.mem_iff, List.mem_append, List.mem_range'_1, Set.mem_Ico]
  have idleNot (p : Nat) (inside : p ∈ Set.Ico pgno (pgno + num)) : p ∉ txn.loosePgs := by
    intro loose
    have here := (books.used p).mpr (Or.inl (whole.inside p inside))
    rw [(books.idle p).mpr (Or.inr (Or.inl loose))] at here
    cases here
  have apart (p : Nat) (inside : p ∈ Set.Ico pgno (pgno + num)) : era.Apart p := by
    obtain ⟨span, member, start⟩ : ∃ span ∈ txn.spans, span.1 = pgno := by
      rw [Bool.or_eq_true] at written
      rcases written with dirty | spilled
      · obtain ⟨entry, inList, start⟩ := (dirty_iff txn pgno).mp dirty
        exact ⟨entry.span, List.mem_append_left _ (List.mem_map_of_mem inList), start⟩
      · simp only [WriteTxn.spilled, List.any_eq_true, decide_eq_true_eq] at spilled
        obtain ⟨span, inList, start⟩ := spilled
        exact ⟨span, List.mem_append_right _ inList, start⟩
    have covers := Spans.start (entries.positive span member)
    rw [start] at covers
    have same := (whole 0 positive).2 span member covers
    exact (entries.covered span member p (by rw [same]; exact inside)).1
  have left := @Books.leave _ txn era.maxpg ready freed place books pgno num txn.loosePgs
    ready' freed (some mop') txn.freePgs .idle whole.inside
    (by rw [pghead]; exact ⟨fun none' => (by cases none'), fun none' => (by cases none')⟩) holds
    books.free (fun p => by rw [members]; tauto)
    (fun p => by simp only [reduceCtorEq, false_and, or_false]) (Or.inl rfl) falls
    books.freeOnce books.looseOnce
    (fun p loose here => by
      rcases (members p).mp here with before | inside
      · exact (books.looseApart p loose).2 before
      · exact idleNot p inside loose)
  have shape : {txn.dropEntry pgno with pghead := some mop'}.leave pgno num =
      {txn with
        pghead := some mop', inUse := txn.inUse \ Finset.Ico pgno (pgno + num)
        dirtyList := (txn.dropEntry pgno).dirtyList, dirtyRoom := (txn.dropEntry pgno).dirtyRoom
        spillPgs := (txn.dropEntry pgno).spillPgs} := by
    unfold WriteTxn.dropEntry WriteTxn.leave
    split <;> rfl
  rw [shape]
  exact
    { books := left.entries _ _ _ _
      entries :=
        { covered := by
            intro span member p covers
            have known := entries.covered span (part.subset member) p covers
            refine ⟨known.1, ?_⟩
            rcases known.2 with inUse | rest
            · refine Or.inl (Finset.mem_sdiff.mpr ⟨inUse, fun inside => ?_⟩)
              exact gone span member p (Finset.mem_Ico.mp inside) covers
            · exact Or.inr rest
          disjoint := entries.disjoint.sublist part
          positive := fun span member => entries.positive span (part.subset member)
          loose := by
            intro p loose
            obtain ⟨entry, inList, span⟩ := List.mem_map.mp (entries.loose p loose)
            refine List.mem_map.mpr ⟨entry, ?_, span⟩
            unfold WriteTxn.dropEntry
            split
            · refine List.mem_filter.mpr ⟨inList, decide_eq_true fun same => ?_⟩
              have start : entry.pgno = p := congrArg Prod.fst span
              exact idleNot pgno (Set.mem_Ico.mpr (by omega)) (by rw [← same, start]; exact loose)
            · exact inList
          room := by
            have room := entries.room
            unfold WriteTxn.dropEntry
            by_cases dirty : txn.dirty pgno = true
            · rw [if_pos dirty]
              obtain ⟨entry, inList, start⟩ := (dirty_iff txn pgno).mp dirty
              have shorter := List.length_filter_lt_length_iff_exists
                (p := fun dirty : DirtyPage Page => decide (dirty.pgno ≠ pgno)) |>.mpr
                ⟨entry, inList, by simp [start]⟩
              show (txn.dirtyList.filter fun dirty => dirty.pgno ≠ pgno).length +
                (txn.dirtyRoom + 1) ≤ midlUmMax
              omega
            · rw [if_neg dirty]
              exact room }
      guarded := working.guarded.leave (fun _ => apart) (fun _ equal => by cases equal)
      intact := working.intact
      unsynced := working.unsynced
      number := working.number
      pgoldest := working.pgoldest
      maxpg := working.maxpg }

/-- The entries of the transaction may change their lists. -/
theorem Entries.reorder {apart : Nat → Prop} (entries : Entries txn freed apart)
    {dirtyList : List (DirtyPage Page)} {dirtyRoom : Nat} {spillPgs : List (Nat × Nat)}
    (spans : (dirtyList.map DirtyPage.span ++ spillPgs).Perm txn.spans)
    (loose : ∀ p ∈ txn.loosePgs, (p, 1) ∈ dirtyList.map DirtyPage.span)
    (room : dirtyList.length + dirtyRoom ≤ midlUmMax) :
    Entries {txn with
      dirtyList := dirtyList, dirtyRoom := dirtyRoom, spillPgs := spillPgs} freed apart where
  covered span member := entries.covered span (spans.mem_iff.mp member)
  disjoint := (spans.pairwise_iff Away.symm).mpr entries.disjoint
  positive span member := entries.positive span (spans.mem_iff.mp member)
  loose := loose
  room := room

/-- The entries of a working transaction may change their lists. -/
theorem Working.reorder (working : Working era ⟨env, txn, file⟩ ready freed place)
    {dirtyList : List (DirtyPage Page)} {dirtyRoom : Nat} {spillPgs : List (Nat × Nat)}
    (spans : (dirtyList.map DirtyPage.span ++ spillPgs).Perm txn.spans)
    (loose : ∀ p ∈ txn.loosePgs, (p, 1) ∈ dirtyList.map DirtyPage.span)
    (room : dirtyList.length + dirtyRoom ≤ midlUmMax) :
    Working era ⟨env, {txn with
      dirtyList := dirtyList, dirtyRoom := dirtyRoom, spillPgs := spillPgs}, file⟩
      ready freed place where
  books := working.books.entries dirtyList dirtyRoom spillPgs txn.error
  entries := working.entries.reorder spans loose room
  guarded := working.guarded
  intact := working.intact
  unsynced := working.unsynced
  number := working.number
  pgoldest := working.pgoldest
  maxpg := working.maxpg

theorem Entries.spans_nodup {apart : Nat → Prop} (entries : Entries txn freed apart) :
    txn.spans.Nodup := by
  refine entries.disjoint.imp_of_mem fun {one other} member _ away same => ?_
  have start := Spans.start (entries.positive one member)
  exact away one.1 start (same ▸ start)

theorem Entries.start_unique {apart : Nat → Prop} (entries : Entries txn freed apart)
    {one other : Nat × Nat} (member : one ∈ txn.spans) (member' : other ∈ txn.spans)
    (same : one.1 = other.1) : one = other := by
  have start := Spans.start (entries.positive one member)
  have start' := Spans.start (entries.positive other member')
  rw [← same] at start'
  exact entries.unique member member' start start'

/-- A spilled entry goes back to the dirty list. -/
theorem Working.unspilled (working : Working era ⟨env, txn, file⟩ ready freed place)
    {span : Nat × Nat} (member : span ∈ txn.spillPgs) (room : txn.dirtyRoom ≠ 0)
    (pages : List Page) (width : pages.length = span.2) :
    ∃ dirtyList, pageDirty
        {txn with spillPgs := txn.spillPgs.filter fun other => other.1 ≠ span.1}
        ⟨span.1, pages⟩ = some {txn with
          dirtyList := dirtyList, dirtyRoom := txn.dirtyRoom - 1
          spillPgs := txn.spillPgs.filter fun other => other.1 ≠ span.1} ∧
      Working era ⟨env, {txn with
        dirtyList := dirtyList, dirtyRoom := txn.dirtyRoom - 1
        spillPgs := txn.spillPgs.filter fun other => other.1 ≠ span.1}, file⟩ ready freed place := by
  have entries : Entries txn freed era.Apart := working.entries
  have inSpans : span ∈ txn.spans := List.mem_append_right _ member
  have spill : txn.spillPgs.Nodup := (List.nodup_append.mp entries.spans_nodup).2.1
  have rest : txn.spillPgs.Perm (span :: txn.spillPgs.filter fun other => other.1 ≠ span.1) := by
    refine (List.perm_cons_erase member).trans (List.Perm.of_eq ?_)
    rw [spill.erase_eq_filter]
    congr 1
    refine List.filter_congr fun other inside => ?_
    have same : other.1 = span.1 → other = span :=
      entries.start_unique (List.mem_append_right _ inside) inSpans
    by_cases equal : other = span
    · simp [equal]
    · have different : other.1 ≠ span.1 := fun start => equal (same start)
      simp [equal, different]
  have absent : ¬ ((txn.dirtyList.any fun other => other.pgno = span.1) ∨
      txn.dirtyList.length ≥ midlUmMax) := by
    rintro (present | full)
    · simp only [List.any_eq_true, decide_eq_true_eq] at present
      obtain ⟨other, inside, same⟩ := present
      have inDirty : other.span ∈ txn.dirtyList.map DirtyPage.span := List.mem_map_of_mem inside
      have equal := entries.start_unique (List.mem_append_left _ inDirty) inSpans same
      have different := (List.nodup_append.mp entries.spans_nodup).2.2 _ inDirty _ member
      exact different equal
    · have bound := entries.room
      omega
  have order : (txn.dirtyList.orderedInsert (fun one other => one.pgno ≤ other.pgno)
      ⟨span.1, pages⟩).Perm (⟨span.1, pages⟩ :: txn.dirtyList) := List.perm_orderedInsert _ _ _
  have same : DirtyPage.span ⟨span.1, pages⟩ = span := Prod.ext rfl width
  refine ⟨_, if_neg absent, working.reorder ?_ ?_ ?_⟩
  · calc ((txn.dirtyList.orderedInsert (fun one other => one.pgno ≤ other.pgno)
            ⟨span.1, pages⟩).map DirtyPage.span ++
              txn.spillPgs.filter fun other => other.1 ≠ span.1).Perm
          (span :: txn.dirtyList.map DirtyPage.span ++
            txn.spillPgs.filter fun other => other.1 ≠ span.1) := by
            have mapped := order.map DirtyPage.span
            rw [List.map_cons, same] at mapped
            exact mapped.append_right _
      _ |>.Perm (txn.dirtyList.map DirtyPage.span ++
            (span :: txn.spillPgs.filter fun other => other.1 ≠ span.1)) := List.perm_middle.symm
      _ |>.Perm txn.spans := (rest.symm).append_left _
  · intro p loose
    have before := entries.loose p loose
    exact ((order.map DirtyPage.span).mem_iff).mpr (List.mem_cons_of_mem _ before)
  · have bound := entries.room
    rw [order.length_eq, List.length_cons]
    omega

/-- A write changes only the pages that it is for. -/
theorem File.write_spec (file : File Page) (pages : List Page) (pgno : Nat) :
    (∀ p, ¬ Spans (pgno, pages.length) p → (file.write pgno pages).pages p = file.pages p) ∧
      ∀ p ∈ (file.write pgno pages).unsynced,
        p ∈ file.unsynced ∨ Spans (pgno, pages.length) p := by
  induction pages generalizing file pgno with
  | nil => exact ⟨fun _ _ => rfl, fun _ member => Or.inl member⟩
  | cons page rest ih =>
      obtain ⟨same, unsynced⟩ :=
        ih ⟨Function.update file.pages pgno page, pgno :: file.unsynced⟩ (pgno + 1)
      have widen (p : Nat) : Spans (pgno + 1, rest.length) p →
          Spans (pgno, (page :: rest).length) p := by
        simp only [Spans, List.length_cons]
        omega
      have start : Spans (pgno, (page :: rest).length) pgno := by
        simp only [Spans, List.length_cons]
        omega
      constructor
      · intro p outside
        have other : p ≠ pgno := fun here => outside (here ▸ start)
        rw [File.write, same p fun covers => outside (widen p covers)]
        exact Function.update_of_ne other _ _
      · intro p member
        rcases unsynced p member with before | covers
        · rcases List.mem_cons.mp before with here | older
          · exact Or.inr (here ▸ start)
          · exact Or.inl older
        · exact Or.inr (widen p covers)

theorem File.flush_spec (picked : List (DirtyPage Page)) (file : File Page) :
    (∀ p, (∀ dirty ∈ picked, ¬ Spans dirty.span p) → (file.flush picked).pages p = file.pages p) ∧
      ∀ p ∈ (file.flush picked).unsynced,
        p ∈ file.unsynced ∨ ∃ dirty ∈ picked, Spans dirty.span p := by
  induction picked generalizing file with
  | nil => exact ⟨fun _ _ => rfl, fun _ member => Or.inl member⟩
  | cons dirty rest ih =>
      obtain ⟨same, unsynced⟩ := ih (file.write dirty.pgno dirty.pages)
      obtain ⟨same', unsynced'⟩ := File.write_spec file dirty.pages dirty.pgno
      constructor
      · intro p outside
        refine (same p fun other member => outside other (List.mem_cons_of_mem _ member)).trans ?_
        exact same' p (outside dirty List.mem_cons_self)
      · intro p member
        rcases unsynced p member with before | ⟨other, inside, covers⟩
        · rcases unsynced' p before with older | covers
          · exact Or.inl older
          · exact Or.inr ⟨dirty, List.mem_cons_self, covers⟩
        · exact Or.inr ⟨other, List.mem_cons_of_mem _ inside, covers⟩

/-- Dirty pages may go to the file, since no kept version uses them. -/
theorem Working.flush (working : Working era ⟨env, txn, file⟩ ready freed place)
    {picked : List (DirtyPage Page)} (part : ∀ dirty ∈ picked, dirty ∈ txn.dirtyList) :
    Working era ⟨env, txn, file.flush picked⟩ ready freed place := by
  obtain ⟨same, unsynced⟩ := File.flush_spec picked file
  have apart (dirty : DirtyPage Page) (member : dirty ∈ picked) (p : Nat)
      (covers : Spans dirty.span p) : era.Apart p :=
    (working.entries.covered dirty.span
      (List.mem_append_left _ (List.mem_map_of_mem (part dirty member))) p covers).1
  exact
    { books := working.books
      entries := working.entries
      guarded := working.guarded
      intact := by
        refine Intact.change working.intact fun p kept => same p fun dirty member covers => ?_
        exact kept (apart dirty member p covers)
      unsynced := by
        intro p member
        rcases unsynced p member with before | ⟨dirty, inside, covers⟩
        · exact working.unsynced p before
        · exact apart dirty inside p covers
      number := working.number
      pgoldest := working.pgoldest
      maxpg := working.maxpg }

theorem spillPick_spec (loose keep : List Nat) (dirtyList : List (DirtyPage Page)) (need : Nat) :
    (spillPick loose keep dirtyList need).Sublist dirtyList ∧
      ∀ dirty ∈ spillPick loose keep dirtyList need, dirty.pgno ∉ loose := by
  induction dirtyList generalizing need with
  | nil => exact ⟨List.Sublist.slnil, fun _ member => by cases member⟩
  | cons dp rest ih =>
      cases need with
      | zero => exact ⟨List.nil_sublist _, fun _ member => by cases member⟩
      | succ need =>
          rw [spillPick]
          by_cases left : dp.pgno ∈ loose ∨ dp.pgno ∈ keep
          · rw [if_pos left]
            exact ⟨(ih (need + 1)).1.cons _, (ih (need + 1)).2⟩
          · rw [if_neg left]
            refine ⟨(ih need).1.cons_cons _, fun dirty member => ?_⟩
            rcases List.mem_cons.mp member with same | later
            · rw [same]
              exact fun loose => left (Or.inl loose)
            · exact (ih need).2 dirty later

/-- The entries that are picked move to the spilled ones. -/
theorem Working.spilled (working : Working era ⟨env, txn, file⟩ ready freed place)
    {picked : List (DirtyPage Page)} (part : picked.Sublist txn.dirtyList)
    (notLoose : ∀ dirty ∈ picked, dirty.pgno ∉ txn.loosePgs) :
    Working era ⟨env, {txn with
      dirtyList := txn.dirtyList.filter fun dirty => ¬ picked.any (·.pgno = dirty.pgno)
      dirtyRoom := txn.dirtyRoom + picked.length
      spillPgs := txn.spillPgs ++ picked.map DirtyPage.span}, file⟩ ready freed place := by
  have entries : Entries txn freed era.Apart := working.entries
  have once : (txn.dirtyList.map DirtyPage.span).Nodup :=
    (List.nodup_append.mp entries.spans_nodup).1
  have all : txn.dirtyList.Nodup := once.of_map
  have same {one other : DirtyPage Page} (member : one ∈ txn.dirtyList)
      (member' : other ∈ txn.dirtyList) (start : one.pgno = other.pgno) : one = other := by
    refine List.inj_on_of_nodup_map once member member' (entries.start_unique ?_ ?_ start)
    · exact List.mem_append_left _ (List.mem_map_of_mem member)
    · exact List.mem_append_left _ (List.mem_map_of_mem member')
  have chosen (dirty : DirtyPage Page) (member : dirty ∈ txn.dirtyList) :
      picked.any (·.pgno = dirty.pgno) = true ↔ dirty ∈ picked := by
    simp only [List.any_eq_true, decide_eq_true_eq]
    constructor
    · rintro ⟨other, inside, start⟩
      rwa [← same (part.subset inside) member start]
    · exact fun inside => ⟨dirty, inside, rfl⟩
  have taken : (txn.dirtyList.filter fun dirty => picked.any (·.pgno = dirty.pgno)).Perm picked := by
    refine (List.perm_ext_iff_of_nodup (all.filter _) (part.nodup all)).mpr fun dirty => ?_
    rw [List.mem_filter]
    constructor
    · exact fun ⟨member, inside⟩ => (chosen dirty member).mp inside
    · exact fun inside => ⟨part.subset inside, (chosen dirty (part.subset inside)).mpr inside⟩
  have split : ((txn.dirtyList.filter fun dirty => ¬ picked.any (·.pgno = dirty.pgno)) ++
      picked).Perm txn.dirtyList := by
    refine (taken.symm.append_left _).trans (List.perm_append_comm.trans ?_)
    have halves := List.filter_append_perm
      (fun dirty : DirtyPage Page => picked.any (·.pgno = dirty.pgno)) txn.dirtyList
    simpa only [Bool.not_eq_true, decide_eq_false_iff_not, Bool.decide_eq_false] using halves
  refine working.reorder ?_ ?_ ?_
  · refine (List.Perm.append_left _ List.perm_append_comm).trans ?_
    rw [← List.append_assoc, ← List.map_append]
    exact (split.map _).append_right _
  · intro p loose
    obtain ⟨dirty, member, span⟩ := List.mem_map.mp (entries.loose p loose)
    refine List.mem_map.mpr ⟨dirty, List.mem_filter.mpr ⟨member, decide_eq_true fun inside => ?_⟩,
      span⟩
    have start : dirty.pgno = p := congrArg Prod.fst span
    exact notLoose dirty ((chosen dirty member).mp inside) (start ▸ loose)
  · have room := entries.room
    have length := split.length_eq
    rw [List.length_append] at length
    omega

/-- A page function keeps the books in every outcome. Only a tree that is not the one of the free
lists gives loose pages back. -/
def Keeps {Result : Type} (era : Era Page) (env : EnvPages) (txn : WriteTxn Page) (file : File Page)
    (freed : List UInt64) (inFreeDb : Bool)
    (outcome : Option (Except PageRc Result × EnvPages × WriteTxn Page)) : Prop :=
  ∃ rc env' txn' ready' freed' place', outcome = some (rc, env', txn') ∧
    Working era ⟨env', txn', file⟩ ready' freed' place' ∧
    Frame ⟨env, txn, file⟩ ⟨env', txn', file⟩ freed freed' ∧
    (inFreeDb = true → txn'.loosePgs <:+ txn.loosePgs)

theorem Frame.still {work after : Work Page} {freed freed' : List UInt64}
    (txnid : after.txn.txnid = work.txn.txnid) (freeDB : after.txn.freeDB = work.txn.freeDB)
    (pglast : after.txn.pglast = work.txn.pglast) (grown : freed <+: freed')
    (maxfree1pg : after.env.maxfree1pg = work.env.maxfree1pg) : Frame work after freed freed' :=
  ⟨txnid, freeDB, ⟨Nat.le_of_eq pglast.symm, Or.inl pglast⟩, grown, maxfree1pg⟩

/-- The lists of the pages and of the records stay as they are. -/
structure Unmoved (before after : Work Page) : Prop where
  txnid : after.txn.txnid = before.txn.txnid
  freeDB : after.txn.freeDB = before.txn.freeDB
  pglast : after.txn.pglast = before.txn.pglast
  loosePgs : after.txn.loosePgs = before.txn.loosePgs
  maxfree1pg : after.env.maxfree1pg = before.env.maxfree1pg

theorem Unmoved.frame {work after : Work Page} (unmoved : Unmoved work after)
    (freed : List UInt64) : Frame work after freed freed :=
  Frame.still unmoved.txnid unmoved.freeDB unmoved.pglast List.prefix_rfl unmoved.maxfree1pg

theorem Unmoved.trans {first second third : Work Page} (one : Unmoved first second)
    (other : Unmoved second third) : Unmoved first third where
  txnid := other.txnid.trans one.txnid
  freeDB := other.freeDB.trans one.freeDB
  pglast := other.pglast.trans one.pglast
  loosePgs := other.loosePgs.trans one.loosePgs
  maxfree1pg := other.maxfree1pg.trans one.maxfree1pg

/-- A page that was spilled has an entry again, or nothing happens. -/
theorem pageUnspill_spec (working : Working era ⟨env, txn, file⟩ ready freed place) (pgno : Nat)
    (fault : Bool) :
    ∃ rc txn', pageUnspill txn file pgno fault = some (rc, txn') ∧
      Working era ⟨env, txn', file⟩ ready freed place ∧
      Unmoved ⟨env, txn, file⟩ ⟨env, txn', file⟩ ∧ (rc = .ok false → txn' = txn) := by
  have same : Unmoved ⟨env, txn, file⟩ ⟨env, txn, file⟩ := ⟨rfl, rfl, rfl, rfl, rfl⟩
  unfold pageUnspill
  cases sought : txn.spillPgs.find? fun span => span.1 = pgno with
  | none => exact ⟨_, _, rfl, working, same, fun _ => rfl⟩
  | some span =>
      have member := List.mem_of_find?_eq_some sought
      have start := List.find?_some sought
      rw [decide_eq_true_eq] at start
      by_cases full : txn.dirtyRoom = 0
      · simp only [full, if_true]
        exact ⟨_, _, rfl, working, same, fun no => by cases no⟩
      · simp only [full, if_false]
        cases fault with
        | true => exact ⟨_, _, rfl, working, same, fun no => by cases no⟩
        | false =>
            obtain ⟨dirtyList, marked, working'⟩ := working.unspilled member full
              ((List.range span.2).map fun k => file.pages (pgno + k))
              (by rw [List.length_map, List.length_range])
            rw [start] at marked working'
            refine ⟨.ok true, _, ?_, working', ⟨rfl, rfl, rfl, rfl, rfl⟩, fun no => by cases no⟩
            simp only [Bool.false_eq_true, if_false, marked, Option.bind_eq_bind, Option.bind_some]
            rfl

/-- The tree uses the new page from here on, and the old one is freed. -/
theorem pageMove_spec (working : Working era ⟨env, txn, file⟩ ready freed place) {pgno : Nat}
    (inUse : pgno ∈ txn.inUse) {found : Nat} (sound : found ≤ era.floor) (fault : Nat → Bool) :
    Keeps era env txn file freed true (pageMove env txn file pgno found fault) := by
  have books : Books txn era.maxpg ready freed place := working.books
  have length := books.free_length
  have maxpg := era.maxpgLe
  have below := books.inUse_below inUse
  have next := books.next.2
  unfold pageMove
  rcases Midl.need_spec books.free (show 1 + freed.length < 2 ^ 31 by omega) (fault 0) with
    ⟨failed, _⟩ | ⟨grown, need, holds, room⟩
  · simp only [failed, Option.bind_eq_bind, Option.bind_some]
    exact ⟨_, _, _, ready, freed, place, rfl, working.marked true,
      Frame.still rfl rfl rfl List.prefix_rfl rfl, fun _ => List.suffix_rfl⟩
  · obtain ⟨rc, env', txn', alloc, frame, result⟩ := pageAlloc_spec (working.freePgs holds)
      (List.cons_ne_nil (file.pages pgno) []) (by rw [List.length_singleton]; omega) sound
      fun call => fault (call + 1)
    have needed : Frame ⟨env, txn, file⟩ ⟨env, {txn with freePgs := grown}, file⟩ freed freed :=
      Frame.still rfl rfl rfl List.prefix_rfl rfl
    have frame' := needed.trans frame
    simp only [need, alloc, Option.bind_eq_bind, Option.bind_some]
    cases rc with
    | error rc =>
        obtain ⟨loose, ready', place', working'⟩ := result
        refine ⟨_, _, _, ready', freed, place', rfl, working'.marked true, ?_, fun _ => ?_⟩
        · exact frame'.trans (Frame.still rfl rfl rfl List.prefix_rfl rfl)
        · show txn'.loosePgs <:+ txn.loosePgs
          rw [loose]
    | ok np =>
        obtain ⟨took, ready', place', working'⟩ := result
        have number : (UInt64.ofNat pgno).toNat = pgno := UInt64.toNat_ofNat_of_lt' (by
          show pgno < 2 ^ 64
          omega)
        have other : np ≠ pgno := by
          intro same
          exact took.fresh np ⟨Nat.le_refl _, Nat.lt_succ_self _⟩ (same ▸ inUse)
        have holds' : txn'.freePgs.Holds freed := by
          rw [took.freePgs]
          exact holds
        have room' : freed.length < txn'.freePgs.allocLen := by
          rw [took.freePgs]
          exact Nat.lt_of_succ_le room
        obtain ⟨ids, appended, holds''⟩ := Midl.xappend_spec holds' room' (by omega)
          (UInt64.ofNat pgno)
        have inside : ∀ p ∈ Set.Ico pgno (pgno + 1), p ∈ txn'.inUse ∪ Finset.Ico np (np + 1) := by
          intro p here
          rw [Set.mem_Ico] at here
          rw [took.inUse, show p = pgno by omega]
          exact Finset.mem_union_left _ inUse
        have pages : (pagesOf (freed ++ [UInt64.ofNat pgno])).Perm
            (pagesOf freed ++ List.range' pgno 1) := by
          rw [pagesOf_append, show pagesOf [UInt64.ofNat pgno] = [pgno] from
            congrArg (fun p => [p]) number]
          rfl
        have freedOne := (working'.retire inside holds'' pages).fill [file.pages pgno] took.entry
        have trees : insert np (txn'.inUse.erase pgno) =
            (txn'.inUse ∪ Finset.Ico np (np + 1)) \ Finset.Ico pgno (pgno + 1) := by
          ext p
          simp only [Finset.mem_insert, Finset.mem_erase, Finset.mem_sdiff, Finset.mem_union,
            Finset.mem_Ico]
          constructor
          · rintro (same | ⟨different, before⟩)
            · exact ⟨Or.inr (by omega), by omega⟩
            · exact ⟨Or.inl before, by omega⟩
          · rintro ⟨before | new, different⟩
            · exact Or.inr ⟨by omega, before⟩
            · exact Or.inl (by omega)
        refine ⟨.ok np, _, _, ready', _, _, ?_, freedOne, ?_, fun _ => took.loose⟩
        · simp only [if_neg other, appended, Option.bind_some, trees]
          rfl
        · exact frame'.trans (Frame.still rfl rfl rfl (List.prefix_append _ _) rfl)

theorem pageTouch_spec (working : Working era ⟨env, txn, file⟩ ready freed place) {pgno : Nat}
    (inUse : pgno ∈ txn.inUse) {found : Nat} (sound : found ≤ era.floor) (fault : Nat → Bool) :
    Keeps era env txn file freed true (pageTouch env txn file pgno found fault) := by
  unfold pageTouch
  by_cases dirty : txn.dirty pgno = true
  · rw [if_pos dirty]
    exact ⟨_, _, _, ready, freed, place, rfl, working, Frame.refl _ _, fun _ => List.suffix_rfl⟩
  · rw [if_neg dirty]
    obtain ⟨rc, txn', unspilled, working', unmoved, same⟩ :=
      pageUnspill_spec working pgno (fault 0)
    have loose : txn'.loosePgs = txn.loosePgs := unmoved.loosePgs
    simp only [unspilled, Option.bind_eq_bind, Option.bind_some]
    match rc with
    | .error rc =>
        refine ⟨_, _, _, ready, freed, place, rfl, working'.marked true, ?_, fun _ => ?_⟩
        · exact (unmoved.frame freed).trans (Frame.still rfl rfl rfl List.prefix_rfl rfl)
        · show txn'.loosePgs <:+ txn.loosePgs
          rw [loose]
    | .ok true =>
        refine ⟨_, _, _, ready, freed, place, rfl, working', unmoved.frame freed, fun _ => ?_⟩
        rw [loose]
    | .ok false =>
        rw [same rfl]
        exact pageMove_spec working inUse sound fun call => fault (call + 1)

theorem pageNew_spec (working : Working era ⟨env, txn, file⟩ ready freed place)
    {pages : List Page} (some' : 0 < pages.length) (short : pages.length < 2 ^ 31) {found : Nat}
    (sound : found ≤ era.floor) (fault : Nat → Bool) :
    Keeps era env txn file freed true (pageNew env txn pages found fault) := by
  obtain ⟨rc, env', txn', alloc, frame, result⟩ := pageAlloc_spec working
    (List.length_pos_iff.mp some') (by omega) sound fault
  simp only [pageNew, alloc, Option.bind_eq_bind, Option.bind_some]
  cases rc with
  | error rc =>
      obtain ⟨loose, ready', place', working'⟩ := result
      refine ⟨_, _, _, ready', freed, place', rfl, working', frame, fun _ => ?_⟩
      rw [loose]
  | ok np =>
      obtain ⟨took, ready', place', working'⟩ := result
      refine ⟨_, _, _, ready', freed, place', rfl, working'.fill pages took.entry, ?_,
        fun _ => took.loose⟩
      exact frame.trans (Frame.still rfl rfl rfl List.prefix_rfl rfl)

/-- The page goes to one of two lists. -/
theorem pageLoose_spec (working : Working era ⟨env, txn, file⟩ ready freed place) {pgno : Nat}
    (whole : txn.whole pgno 1) (freeDbi fault : Bool) :
    Keeps era env txn file freed freeDbi
      ((pageLoose txn freeDbi pgno fault).map fun (rc, txn) => (rc, env, txn)) := by
  have books : Books txn era.maxpg ready freed place := working.books
  have length := books.free_length
  have maxpg := era.maxpgLe
  have inUse := whole.inside pgno ⟨Nat.le_refl _, Nat.lt_succ_self _⟩
  have below := books.inUse_below inUse
  have next := books.next.2
  have number : (UInt64.ofNat pgno).toNat = pgno := UInt64.toNat_ofNat_of_lt' (by
    show pgno < 2 ^ 64
    omega)
  unfold pageLoose
  by_cases dirty : txn.dirty pgno = true ∧ freeDbi = false
  · rw [if_pos dirty]
    refine ⟨_, _, _, ready, freed, _, rfl, working.loosen whole dirty.1,
      Frame.still rfl rfl rfl List.prefix_rfl rfl, fun freeDb => ?_⟩
    rw [dirty.2] at freeDb
    cases freeDb
  · rw [if_neg dirty]
    rcases Midl.append_spec books.free (show freed.length + 1 < 2 ^ 64 by omega)
      (UInt64.ofNat pgno) fault with ⟨failed, _⟩ | ⟨after, append, holds⟩
    · simp only [failed, Option.bind_eq_bind, Option.bind_some]
      exact ⟨_, _, _, ready, freed, place, rfl, working.freePgs books.free,
        Frame.still rfl rfl rfl List.prefix_rfl rfl, fun _ => List.suffix_rfl⟩
    · have pages : (pagesOf (freed ++ [UInt64.ofNat pgno])).Perm
          (pagesOf freed ++ List.range' pgno 1) := by
        rw [pagesOf_append, show pagesOf [UInt64.ofNat pgno] = [pgno] from
          congrArg (fun p => [p]) number]
        rfl
      have retired := working.retire whole.inside holds pages
      have trees : txn.inUse.erase pgno = txn.inUse \ Finset.Ico pgno (pgno + 1) := by
        ext p
        rw [Finset.mem_erase, Finset.mem_sdiff, Finset.mem_Ico]
        constructor
        · exact fun ⟨other, before⟩ => ⟨before, by omega⟩
        · exact fun ⟨before, other⟩ => ⟨by omega, before⟩
      simp only [append, trees, Option.bind_eq_bind, Option.bind_some, if_true]
      exact ⟨_, _, _, ready, _, _, rfl, retired,
        Frame.still rfl rfl rfl (List.prefix_append _ _) rfl, fun _ => List.suffix_rfl⟩

/-- The list of the ready pages may get another block. -/
theorem Working.pghead (working : Working era ⟨env, txn, file⟩ ready freed place) {mop mop' : Midl}
    (before : txn.pghead = some mop) (holds : mop'.Holds ready) :
    Working era ⟨env, {txn with pghead := some mop'}, file⟩ ready freed place where
  books :=
    {working.books with
      head := holds
      fetched := by
        have fetched : txn.pghead = none ↔ txn.pglast = 0 := working.books.fetched
        rw [before] at fetched
        exact ⟨fun none' => (by cases none'), fun zero => (by cases fetched.mpr zero)⟩ }
  entries := ⟨working.entries.covered, working.entries.disjoint, working.entries.positive,
    working.entries.loose, working.entries.room⟩
  guarded := working.guarded
  intact := working.intact
  unsynced := working.unsynced
  number := working.number
  pgoldest := working.pgoldest
  maxpg := working.maxpg

/-- Only the lists of the entries change. -/
theorem WriteTxn.dropEntry_eq (txn : WriteTxn Page) (pgno : Nat) :
    ∃ dirtyList dirtyRoom spillPgs, txn.dropEntry pgno = {txn with
      dirtyList := dirtyList, dirtyRoom := dirtyRoom, spillPgs := spillPgs} := by
  unfold WriteTxn.dropEntry
  split
  · exact ⟨_, _, _, rfl⟩
  · exact ⟨_, _, _, rfl⟩

theorem retirePages_spec (working : Working era ⟨env, txn, file⟩ ready freed place)
    {pgno num : Nat} (whole : txn.whole pgno num) (positive : 0 < num) (fault : Bool) :
    Keeps era env txn file freed true
      ((retirePages txn pgno num fault).map fun (rc, txn) => (rc, env, txn)) := by
  have books : Books txn era.maxpg ready freed place := working.books
  have length := books.free_length
  have maxpg := era.maxpgLe
  have below := books.inUse_below (whole.inside (pgno + (num - 1)) (Set.mem_Ico.mpr (by omega)))
  have next := books.next.2
  have number : (UInt64.ofNat pgno).toNat = pgno := UInt64.toNat_ofNat_of_lt' (by
    show pgno < 2 ^ 64
    omega)
  have range : pagesOf (freed ++ fallingRange (UInt64.ofNat pgno) num) =
      pagesOf freed ++ (List.range' pgno num).reverse := by
    rw [pagesOf_append, pagesOf_fallingRange num (by rw [number]; omega), number]
  unfold retirePages
  rcases Midl.appendRange_spec books.free (show freed.length + num < 2 ^ 64 by omega)
    (UInt64.ofNat pgno) fault with ⟨failed, _⟩ | ⟨after, append, holds⟩
  · simp only [failed, Option.bind_eq_bind, Option.bind_some]
    exact ⟨_, _, _, ready, freed, place, rfl, working.freePgs books.free,
      Frame.still rfl rfl rfl List.prefix_rfl rfl, fun _ => List.suffix_rfl⟩
  · have retired := working.retire whole.inside holds (by
      rw [range]
      exact (List.reverse_perm _).append_left _)
    simp only [append, Option.bind_eq_bind, Option.bind_some, if_true]
    exact ⟨_, _, _, ready, _, _, rfl, retired,
      Frame.still rfl rfl rfl (List.prefix_append _ _) rfl, fun _ => List.suffix_rfl⟩

/-- The pages go to the ready ones or to the freed ones. -/
theorem ovpageFree_spec (working : Working era ⟨env, txn, file⟩ ready freed place)
    {pgno num : Nat} (whole : txn.whole pgno num) (positive : 0 < num) (fault : Bool) :
    Keeps era env txn file freed true
      ((ovpageFree txn pgno num fault).map fun (rc, txn) => (rc, env, txn)) := by
  have books : Books txn era.maxpg ready freed place := working.books
  have length := books.free_length
  have head := books.head_length
  have maxpg := era.maxpgLe
  have below := books.inUse_below (whole.inside (pgno + (num - 1)) (Set.mem_Ico.mpr (by omega)))
  have next := books.next.2
  have number : (UInt64.ofNat pgno).toNat = pgno := UInt64.toNat_ofNat_of_lt' (by
    show pgno < 2 ^ 64
    omega)
  have range : pagesOf (ready ++ fallingRange (UInt64.ofNat pgno) num) =
      pagesOf ready ++ (List.range' pgno num).reverse := by
    rw [pagesOf_append, pagesOf_fallingRange num (by rw [number]; omega), number]
  unfold ovpageFree
  split
  · rename_i mop headIs own
    have holds : mop.Holds ready := by
      have held := books.head
      rw [headIs] at held
      exact held
    rcases Midl.need_spec holds (show num + ready.length < 2 ^ 31 by omega) fault with
      ⟨failed, _⟩ | ⟨grown, need, holds', room⟩
    · simp only [failed, Option.bind_eq_bind, Option.bind_some]
      exact ⟨_, _, _, ready, freed, place, rfl, working.pghead headIs holds,
        Frame.still rfl rfl rfl List.prefix_rfl rfl, fun _ => List.suffix_rfl⟩
    · have grew := working.pghead headIs holds'
      obtain ⟨unused, lists, size⟩ := holds'
      obtain ⟨ids, merged, releases, lists', perm, falls⟩ := releaseRange_spec lists books.falls
        (show num ≤ unused.length by omega) (by omega) (by rw [number]; omega)
        (by
          intro id member inside
          rw [number] at inside
          have idle := (books.idle id.toNat).mpr (Or.inl (List.mem_map_of_mem member))
          rw [(books.used id.toNat).mpr (Or.inl (whole.inside _ inside))] at idle
          cases idle)
      have length' := perm.length_eq
      rw [List.length_append, length_fallingRange] at length'
      have holds'' : Midl.Holds {grown with ids := ids} merged := ⟨_, lists', by
        rw [List.length_drop]
        show merged.length + (unused.length - num) = grown.allocLen
        omega⟩
      have released := grew.release whole positive own rfl holds'' falls (by
        refine (perm.map _).trans ?_
        rw [show (ready ++ fallingRange (UInt64.ofNat pgno) num).map UInt64.toNat =
          pagesOf ready ++ (List.range' pgno num).reverse from range]
        exact (List.reverse_perm _).append_left _)
      simp only [need, releases, Option.bind_eq_bind, Option.bind_some, if_true]
      refine ⟨_, _, _, merged, freed, _, rfl, released, ?_, fun _ => ?_⟩
      · obtain ⟨dirtyList, dirtyRoom, spillPgs, dropped⟩ :=
          WriteTxn.dropEntry_eq {txn with pghead := some grown} pgno
        rw [dropped]
        exact Frame.still rfl rfl rfl List.prefix_rfl rfl
      · obtain ⟨dirtyList, dirtyRoom, spillPgs, dropped⟩ :=
          WriteTxn.dropEntry_eq {txn with pghead := some grown} pgno
        rw [dropped]
        exact List.suffix_rfl
  · exact retirePages_spec working whole positive fault

/-- A write of dirty pages that fails leaves them in the list. -/
theorem pageSpill_spec (working : Working era ⟨env, txn, file⟩ ready freed place) (keep : List Nat)
    (need : Nat) (stop : Option Nat) :
    ∃ rc txn' file', pageSpill txn file keep need stop = (rc, txn', file') ∧
      Working era ⟨env, txn', file'⟩ ready freed place ∧
      Unmoved ⟨env, txn, file⟩ ⟨env, txn', file'⟩ := by
  obtain ⟨part, notLoose⟩ := spillPick_spec txn.loosePgs keep txn.dirtyList.reverse need
  have part' : (spillPick txn.loosePgs keep txn.dirtyList.reverse need).reverse.Sublist
      txn.dirtyList := by
    have reversed := part.reverse
    rwa [List.reverse_reverse] at reversed
  cases stop with
  | some written =>
      have flushed := working.flush fun dirty member =>
        part'.subset ((List.take_sublist written _).subset member)
      exact ⟨_, _, _, rfl, flushed.marked true, rfl, rfl, rfl, rfl, rfl⟩
  | none =>
      have flushed := working.flush fun dirty member => part'.subset member
      have spilled := flushed.spilled part' fun dirty member =>
        notLoose dirty (List.mem_reverse.mp member)
      exact ⟨_, _, _, rfl, spilled, rfl, rfl, rfl, rfl, rfl⟩

end Moves

/-- The calls of the trees end in a disabled step or keep the books. -/
def Performs (era : Era Page) (work : Work Page) (freed : List UInt64) (inFreeDb : Bool)
    (outcome : Except Stop (Except PageRc Unit × Work Page)) : Prop :=
  outcome = .error .disabled ∨ ∃ rc after ready' freed' place', outcome = .ok (rc, after) ∧
    Working era after ready' freed' place' ∧ Frame work after freed freed' ∧
    (inFreeDb = true → after.txn.loosePgs <:+ work.txn.loosePgs)

section Perform

variable {era : Era Page} {work : Work Page} {ready freed : List UInt64} {place : Nat → Place}

/-- What keeps the books as a page function does so as a call of the trees. -/
theorem Keeps.performs {Result : Type} {inFreeDb : Bool}
    {outcome : Option (Except PageRc Result × EnvPages × WriteTxn Page)}
    (keeps : Keeps era work.env work.txn work.file freed inFreeDb outcome) :
    Performs era work freed inFreeDb (work.after outcome) := by
  obtain ⟨rc, env, txn, ready', freed', place', result, working, frame, loose⟩ := keeps
  rw [result]
  exact Or.inr ⟨_, ⟨env, txn, work.file⟩, ready', freed', place', rfl, working, frame, loose⟩

/-- The calls that take and free no pages end in a disabled step or leave all lists as they are. -/
def Rests (era : Era Page) (work : Work Page) (ready freed : List UInt64) (place : Nat → Place)
    (outcome : Except Stop (Except PageRc Unit × Work Page)) : Prop :=
  outcome = .error .disabled ∨ ∃ rc after, outcome = .ok (rc, after) ∧
    Working era after ready freed place ∧ Unmoved work after

theorem Rests.performs {inFreeDb : Bool} {outcome : Except Stop (Except PageRc Unit × Work Page)}
    (rests : Rests era work ready freed place outcome) :
    Performs era work freed inFreeDb outcome := by
  rcases rests with disabled | ⟨rc, after, result, working, unmoved⟩
  · exact Or.inl disabled
  · refine Or.inr ⟨rc, after, ready, freed, place, result, working, unmoved.frame freed,
      fun _ => ?_⟩
    rw [unmoved.loosePgs]

theorem PageOp.perform_inPlace (working : Working era work ready freed place) {op : PageOp Page}
    (inPlace : op.inPlace = true) : Rests era work ready freed place (op.perform work) := by
  have working' : Working era ⟨work.env, work.txn, work.file⟩ ready freed place := working
  unfold PageOp.perform
  by_cases error : work.txn.error = true
  · simp only [error, if_true]
    exact Or.inl rfl
  · simp only [error, Bool.false_eq_true, if_false]
    cases op with
    | edit pgno pages =>
        dsimp only
        by_cases fits : work.txn.whole pgno pages.length ∧ work.txn.dirty pgno = true ∧ pages ≠ []
        · rw [if_pos fits]
          obtain ⟨entry, member, same⟩ := (dirty_iff work.txn pgno).mp fits.2.1
          have span := working'.entries.dirtySpan fits.1 (List.length_pos_iff.mpr fits.2.2) member
            same
          have filled := working'.fill pages (List.mem_map.mpr ⟨entry, member, span⟩)
          exact Or.inr ⟨_, _, rfl, filled, rfl, rfl, rfl, rfl, rfl⟩
        · rw [if_neg fits]
          exact Or.inl rfl
    | unspill pgno fault =>
        by_cases inUse : pgno ∈ work.txn.inUse
        · simp only [inUse, if_true]
          obtain ⟨rc, txn', unspilled, after, unmoved, _⟩ := pageUnspill_spec working' pgno fault
          rw [unspilled]
          exact Or.inr ⟨_, _, rfl, after, unmoved⟩
        · simp only [inUse, if_false]
          exact Or.inl rfl
    | spill keep need stop =>
        obtain ⟨rc, txn', file', spilled, after, unmoved⟩ := pageSpill_spec working' keep need stop
        simp only [spilled]
        exact Or.inr ⟨_, _, rfl, after, unmoved⟩
    | _ => cases inPlace

/-- No call of the trees breaks the books, whatever it finds and whichever allocation fails. -/
theorem PageOp.perform_spec (working : Working era work ready freed place) {found : List Nat}
    (sound : ∀ oldest ∈ found, oldest ≤ era.floor) {op : PageOp Page}
    (uses : op.uses found = true) : Performs era work freed op.inFreeDb (op.perform work) := by
  have working' : Working era ⟨work.env, work.txn, work.file⟩ ready freed place := working
  by_cases inPlace : op.inPlace = true
  · exact (PageOp.perform_inPlace working inPlace).performs
  · unfold PageOp.perform
    by_cases error : work.txn.error = true
    · simp only [error, if_true]
      exact Or.inl rfl
    · simp only [error, Bool.false_eq_true, if_false]
      cases op with
      | touch pgno oldest fault =>
          by_cases whole : work.txn.whole pgno 1
          · simp only [whole, if_true]
            have inUse := whole.inside pgno ⟨Nat.le_refl _, Nat.lt_succ_self _⟩
            exact (pageTouch_spec working' inUse (sound oldest (of_decide_eq_true uses))
              fault).performs
          · simp only [whole, if_false]
            exact Or.inl rfl
      | new pages oldest fault =>
          by_cases fits : 0 < pages.length ∧ pages.length < 2 ^ 31
          · simp only [fits, and_self, if_true]
            exact (pageNew_spec working' fits.1 fits.2 (sound oldest (of_decide_eq_true uses))
              fault).performs
          · simp only [fits, if_false]
            exact Or.inl rfl
      | loose freeDbi pgno fault =>
          by_cases whole : work.txn.whole pgno 1
          · simp only [whole, if_true]
            exact (pageLoose_spec working' whole freeDbi fault).performs
          · simp only [whole, if_false]
            exact Or.inl rfl
      | ovpageFree pgno ovpages fault =>
          by_cases fits : work.txn.whole pgno ovpages ∧ 0 < ovpages
          · simp only [fits, and_self, if_true]
            exact (ovpageFree_spec working' fits.1 fits.2 fault).performs
          · simp only [fits, if_false]
            exact Or.inl rfl
      | _ => exact absurd rfl inPlace

/-- The calls of an operation follow each other until one fails. -/
theorem performAll_spec (working : Working era work ready freed place) {found : List Nat}
    (sound : ∀ oldest ∈ found, oldest ≤ era.floor) {ops : List (PageOp Page)}
    (uses : ops.all (·.uses found) = true) (inFreeDb : ops.all PageOp.inFreeDb = true) :
    Performs era work freed true (performAll ops work) := by
  induction ops generalizing work ready freed place with
  | nil =>
      exact Or.inr ⟨_, _, ready, freed, place, rfl, working, Frame.refl _ _,
        fun _ => List.suffix_rfl⟩
  | cons op rest ih =>
      rw [List.all_cons, Bool.and_eq_true] at uses inFreeDb
      unfold performAll
      rcases op.perform_spec working sound uses.1 with
        disabled | ⟨rc, after, ready', freed', place', performed, working', frame, loose⟩
      · rw [disabled]
        exact Or.inl rfl
      · rw [performed]
        cases rc with
        | error rc =>
            exact Or.inr ⟨_, _, _, _, _, rfl, working', frame, fun _ => loose inFreeDb.1⟩
        | ok _ =>
            rcases ih working' uses.2 inFreeDb.2 with
              disabled |
              ⟨rc, last, ready'', freed'', place'', performed', working'', frame', loose'⟩
            · exact Or.inl disabled
            · exact Or.inr ⟨rc, last, ready'', freed'', place'', performed', working'',
                frame.trans frame', fun _ => (loose' rfl).trans (loose inFreeDb.1)⟩

end Perform

end DbBench
