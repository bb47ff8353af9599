import DbBench.Proof.Fetch

/-
This file proves that the allocation takes pages that no kept version uses.
-/

namespace DbBench

open Cells Reclaim

variable {Page : Type}

/-- Two entries have no page in common. -/
def Away (one other : Nat × Nat) : Prop := ∀ p, Spans one p → ¬ Spans other p

theorem Away.symm {one other : Nat × Nat} (away : Away one other) : Away other one :=
  fun p covers covers' => away p covers' covers

instance : Std.Symm Away := ⟨fun _ _ => Away.symm⟩

/-- The entries that the transaction has written itself are apart from each other and from all kept
versions. -/
structure Entries (txn : WriteTxn Page) (freed : List UInt64) (apart : Nat → Prop) : Prop where
  covered : ∀ span ∈ txn.spans, ∀ p, Spans span p →
    apart p ∧ (p ∈ txn.inUse ∨ p ∈ pagesOf freed ∨ p ∈ txn.loosePgs)
  disjoint : txn.spans.Pairwise Away
  positive : ∀ span ∈ txn.spans, 0 < span.2
  loose : ∀ p ∈ txn.loosePgs, (p, 1) ∈ txn.dirtyList.map DirtyPage.span
  room : txn.dirtyList.length + txn.dirtyRoom ≤ midlUmMax

section Entries

variable {txn : WriteTxn Page} {freed : List UInt64} {apart : Nat → Prop}

theorem dirty_iff (txn : WriteTxn Page) (pgno : Nat) :
    txn.dirty pgno = true ↔ ∃ dirty ∈ txn.dirtyList, dirty.pgno = pgno := by
  simp only [WriteTxn.dirty, List.any_eq_true, decide_eq_true_eq]

theorem Spans.start {span : Nat × Nat} (positive : 0 < span.2) : Spans span span.1 :=
  ⟨Nat.le_refl _, by omega⟩

/-- An entry for pages that were idle goes to the dirty list. -/
theorem Entries.dirty (entries : Entries txn freed apart) (dirty : DirtyPage Page)
    (some' : dirty.pages ≠ []) (room : txn.dirtyRoom ≠ 0)
    (fresh : ∀ p ∈ Set.Ico dirty.pgno (dirty.pgno + dirty.pages.length),
      apart p ∧ p ∉ txn.inUse ∧ p ∉ pagesOf freed ∧ p ∉ txn.loosePgs) :
    ∃ dirtyList, pageDirty txn dirty =
        some {txn with dirtyList := dirtyList, dirtyRoom := txn.dirtyRoom - 1} ∧
      Entries {txn with
        dirtyList := dirtyList, dirtyRoom := txn.dirtyRoom - 1
        inUse := txn.inUse ∪ Finset.Ico dirty.pgno (dirty.pgno + dirty.pages.length)} freed apart ∧
      dirty.span ∈ dirtyList.map DirtyPage.span := by
  have positive : 0 < dirty.pages.length := List.length_pos_iff.mpr some'
  have outside (span : Nat × Nat) (member : span ∈ txn.spans) (p : Nat)
      (inside : Spans dirty.span p) : ¬ Spans span p := by
    intro covers
    have away := fresh p inside
    rcases (entries.covered span member p covers).2 with inUse | freed | loose
    · exact away.2.1 inUse
    · exact away.2.2.1 freed
    · exact away.2.2.2 loose
  have absent : ¬ ((txn.dirtyList.any fun other => other.pgno = dirty.pgno) ∨
      txn.dirtyList.length ≥ midlUmMax) := by
    rintro (present | full)
    · simp only [List.any_eq_true, decide_eq_true_eq] at present
      obtain ⟨other, member, same⟩ := present
      have member' : other.span ∈ txn.spans := List.mem_append_left _ (List.mem_map_of_mem member)
      refine outside _ member' other.pgno ?_ (Spans.start (entries.positive _ member'))
      show dirty.pgno ≤ other.pgno ∧ other.pgno < dirty.pgno + dirty.pages.length
      omega
    · have bound := entries.room
      omega
  have order : (txn.dirtyList.orderedInsert (fun one other => one.pgno ≤ other.pgno) dirty).Perm
      (dirty :: txn.dirtyList) := List.perm_orderedInsert _ _ _
  have spans : ((txn.dirtyList.orderedInsert (fun one other => one.pgno ≤ other.pgno) dirty).map
      DirtyPage.span ++ txn.spillPgs).Perm (dirty.span :: txn.spans) :=
    (order.map _).append_right _
  refine ⟨_, if_neg absent, ?_, ?_⟩
  · exact
      { covered := by
          intro span member p covers
          rcases List.mem_cons.mp (spans.mem_iff.mp member) with same | before
          · rw [same] at covers
            exact ⟨(fresh p covers).1, Or.inl (Finset.mem_union_right _ (Finset.mem_Ico.mpr covers))⟩
          · have known := entries.covered span before p covers
            refine ⟨known.1, ?_⟩
            rcases known.2 with inUse | rest
            · exact Or.inl (Finset.mem_union_left _ inUse)
            · exact Or.inr rest
        disjoint := by
          refine (spans.pairwise_iff Away.symm).mpr
            (List.pairwise_cons.mpr ⟨?_, entries.disjoint⟩)
          intro span member p covers
          exact outside span member p covers
        positive := by
          intro span member
          rcases List.mem_cons.mp (spans.mem_iff.mp member) with same | before
          · rw [same]
            exact positive
          · exact entries.positive span before
        loose := fun p member => ((order.map DirtyPage.span).mem_iff).mpr
          (List.mem_cons_of_mem _ (entries.loose p member))
        room := by
          have bound := entries.room
          show (txn.dirtyList.orderedInsert (fun one other => one.pgno ≤ other.pgno)
            dirty).length + (txn.dirtyRoom - 1) ≤ midlUmMax
          rw [order.length_eq, List.length_cons]
          omega }
  · exact ((order.map DirtyPage.span).mem_iff).mpr List.mem_cons_self

end Entries

/-- A transaction works beside the committed versions. -/
structure Working (era : Era Page) (work : Work Page) (ready freed : List UInt64)
    (place : Nat → Place) : Prop where
  books : Books work.txn era.maxpg ready freed place
  entries : Entries work.txn freed era.Apart
  guarded : era.Guarded place
  intact : era.Intact work.file.pages
  unsynced : ∀ p ∈ work.file.unsynced, era.Apart p
  number : work.txn.txnid = era.latest + 1
  pgoldest : work.env.pgoldest ≤ era.floor
  maxpg : work.env.maxpg = era.maxpg

/-- No page function changes the records, and the freed pages only grow. -/
structure Frame (before after : Work Page) (freed freed' : List UInt64) : Prop where
  txnid : after.txn.txnid = before.txn.txnid
  freeDB : after.txn.freeDB = before.txn.freeDB
  fetched : Fetched before.txn before.txn.pglast after.txn.pglast
  freed : freed <+: freed'
  maxfree1pg : after.env.maxfree1pg = before.env.maxfree1pg

theorem Frame.refl (work : Work Page) (freed : List UInt64) : Frame work work freed freed :=
  ⟨rfl, rfl, ⟨Nat.le_refl _, Or.inl rfl⟩, List.prefix_rfl, rfl⟩

theorem Frame.trans {first second third : Work Page} {one two three : List UInt64}
    (frame : Frame first second one two) (frame' : Frame second third two three) :
    Frame first third one three where
  txnid := frame'.txnid.trans frame.txnid
  freeDB := frame'.freeDB.trans frame.freeDB
  fetched := by
    have later := frame'.fetched
    refine Fetched.trans frame.fetched ⟨later.grown, ?_⟩
    rw [← frame.freeDB]
    exact later.used
  freed := frame.freed.trans frame'.freed
  maxfree1pg := frame'.maxfree1pg.trans frame.maxfree1pg

/-- The allocation took pages that were idle. They are in use when its caller has put them into a
tree. -/
structure Took (before after : WriteTxn Page) (np num : Nat) : Prop where
  inUse : after.inUse = before.inUse
  freePgs : after.freePgs = before.freePgs
  spillPgs : after.spillPgs = before.spillPgs
  error : after.error = before.error
  loose : after.loosePgs <:+ before.loosePgs
  fresh : ∀ p ∈ Set.Ico np (np + num), p ∉ before.inUse
  entry : (np, num) ∈ after.dirtyList.map DirtyPage.span

section Alloc

variable {era : Era Page} {env : EnvPages} {txn : WriteTxn Page} {file : File Page}
  {ready freed : List UInt64} {place : Nat → Place}

/-- Idle pages are apart from the kept versions and in no list of the transaction. -/
theorem Working.idle (working : Working era ⟨env, txn, file⟩ ready freed place) {p : Nat}
    (idle : place p = .idle) : era.Apart p ∧ p ∉ txn.inUse ∧ p ∉ pagesOf freed := by
  refine ⟨working.guarded.idle p idle, fun inUse => ?_, fun inside => ?_⟩
  · have here := (working.books.used p).mpr (Or.inl inUse)
    rw [idle] at here
    cases here
  · have here := (working.books.retired p).mpr inside
    rw [idle] at here
    cases here

/-- When idle pages come into use, nothing becomes idle. -/
theorem Era.Guarded.take (guarded : era.Guarded place) (moved : Set Nat) :
    era.Guarded (relocate place moved .used) := by
  refine Reclaim.Guarded.move guarded ?_ ?_
  · intro p here
    rcases relocate_eq_iff.mp here with ⟨_, equal⟩ | ⟨_, idle⟩
    · cases equal
    · exact Or.inl idle
  · intro p k here
    rcases relocate_eq_iff.mp here with ⟨_, equal⟩ | ⟨_, limbo⟩
    · cases equal
    · exact limbo

/-- Pages that were idle come into use with an entry on the dirty list. -/
theorem Working.take (working : Working era ⟨env, txn, file⟩ ready freed place)
    (pgno next : Nat) (pages : List Page) (some' : pages ≠ []) (room : txn.dirtyRoom ≠ 0)
    (ready' : List UInt64) (pghead : Option Midl)
    (idle : ∀ p ∈ Set.Ico pgno (pgno + pages.length), place p = .idle)
    (notLoose : ∀ p ∈ Set.Ico pgno (pgno + pages.length), p ∉ txn.loosePgs)
    (fetched : pghead = none ↔ txn.pghead = none) (holds : HeadHolds pghead ready')
    (falls : ready'.Pairwise Falls)
    (fewer : ∀ p, (p ∈ pagesOf ready' ∨ next ≤ p) ↔ (p ∈ pagesOf ready ∨ txn.nextPgno ≤ p) ∧
      p ∉ Set.Ico pgno (pgno + pages.length))
    (later : txn.nextPgno ≤ next) (below : ∀ p ∈ pagesOf ready', p < next)
    (bound : next ≤ era.maxpg) :
    ∃ after, pageDirty {txn with pghead := pghead, nextPgno := next} ⟨pgno, pages⟩ = some after ∧
      Working era ⟨env, {after with
        inUse := after.inUse ∪ Finset.Ico pgno (pgno + pages.length)}, file⟩
        ready' freed (relocate place (Set.Ico pgno (pgno + pages.length)) .used) ∧
      Took txn after pgno pages.length ∧ Frame ⟨env, txn, file⟩ ⟨env, after, file⟩ freed freed := by
  have books : Books txn era.maxpg ready freed place := working.books
  obtain ⟨dirtyList, marked, entries, entry⟩ := @Entries.dirty _
    {txn with pghead := pghead, nextPgno := next} freed era.Apart
    ⟨working.entries.covered, working.entries.disjoint, working.entries.positive,
      working.entries.loose, working.entries.room⟩ ⟨pgno, pages⟩ some' room fun p inside => by
        have away := working.idle (idle p inside)
        exact ⟨away.1, away.2.1, away.2.2, notLoose p inside⟩
  have taken : Books {txn with
      pghead := pghead, loosePgs := txn.loosePgs, nextPgno := next
      inUse := txn.inUse ∪ Finset.Ico pgno (pgno + pages.length)} era.maxpg ready' freed
      (relocate place (Set.Ico pgno (pgno + pages.length)) .used) := by
    refine books.take idle fetched holds falls (fun p => ?_) books.looseOnce (fun p loose => ?_)
      below ⟨Nat.le_trans books.next.1 later, bound⟩
    · have kept := fewer p
      have away := notLoose p
      constructor
      · rintro (ready | loose | next)
        · have before := kept.mp (Or.inl ready)
          exact ⟨by tauto, before.2⟩
        · exact ⟨Or.inr (Or.inl loose), fun inside => away inside loose⟩
        · have before := kept.mp (Or.inr next)
          exact ⟨by tauto, before.2⟩
      · rintro ⟨ready | loose | next, outside⟩
        · exact Or.imp_right Or.inr (kept.mpr ⟨Or.inl ready, outside⟩)
        · exact Or.inr (Or.inl loose)
        · exact Or.imp_right Or.inr (kept.mpr ⟨Or.inr next, outside⟩)
    · have before := books.looseApart p loose
      refine ⟨Nat.lt_of_lt_of_le before.1 later, fun inside => ?_⟩
      rcases ((fewer p).mp (Or.inl inside)).1 with ready | next
      · exact before.2 ready
      · exact absurd next (Nat.not_le_of_lt before.1)
  refine ⟨_, marked, ?_, ⟨rfl, rfl, rfl, rfl, List.suffix_rfl, ?_, entry⟩,
    ⟨rfl, rfl, ⟨Nat.le_refl _, Or.inl rfl⟩, List.prefix_rfl, rfl⟩⟩
  · exact
      { books := taken.entries _ _ _ _
        entries := entries
        guarded := working.guarded.take _
        intact := working.intact
        unsynced := working.unsynced
        number := working.number
        pgoldest := working.pgoldest
        maxpg := working.maxpg }
  · intro p inside
    exact (working.idle (idle p inside)).2.1

/-- New pages come from the end of the map. -/
theorem Working.takeNew (working : Working era ⟨env, txn, file⟩ ready freed place)
    {pages : List Page} (some' : pages ≠ []) (room : txn.dirtyRoom ≠ 0)
    (fits : txn.nextPgno + pages.length ≤ era.maxpg) :
    ∃ after, pageDirty {txn with nextPgno := txn.nextPgno + pages.length} ⟨txn.nextPgno, pages⟩ =
        some after ∧
      Working era ⟨env, {after with
        inUse := after.inUse ∪ Finset.Ico txn.nextPgno (txn.nextPgno + pages.length)}, file⟩
        ready freed (relocate place (Set.Ico txn.nextPgno (txn.nextPgno + pages.length)) .used) ∧
      Took txn after txn.nextPgno pages.length ∧
      Frame ⟨env, txn, file⟩ ⟨env, after, file⟩ freed freed := by
  have books : Books txn era.maxpg ready freed place := working.books
  refine working.take txn.nextPgno (txn.nextPgno + pages.length) pages some' room ready txn.pghead
    ?_ ?_ Iff.rfl books.head books.falls ?_ (Nat.le_add_right _ _) ?_ fits
  · intro p inside
    exact (books.idle p).mpr (Or.inr (Or.inr inside.1))
  · intro p inside loose
    exact absurd inside.1 (Nat.not_le_of_lt (books.looseApart p loose).1)
  · intro p
    rw [Set.mem_Ico]
    constructor
    · rintro (ready | next)
      · have low := books.below p ready
        exact ⟨Or.inl ready, by omega⟩
      · exact ⟨Or.inr (by omega), by omega⟩
    · rintro ⟨ready | next, outside⟩
      · exact Or.inl ready
      · exact Or.inr (by omega)
  · intro p inside
    have low := books.below p inside
    omega

/-- A range that the search has found leaves the list of ready pages. -/
theorem Working.takeFound (working : Working era ⟨env, txn, file⟩ ready freed place)
    {pages : List Page} (some' : pages ≠ []) (room : txn.dirtyRoom ≠ 0) {i : Nat}
    (ends : EndsRange ready (pages.length - 1) i) :
    ∃ mop last ids after ready', txn.pghead = some mop ∧ mop.ids[i]? = some last ∧
      takeRange mop.ids ready.length i pages.length = some ids ∧
      pageDirty {txn with pghead := some {mop with ids := ids}} ⟨last.toNat, pages⟩ =
        some after ∧
      Working era ⟨env, {after with
        inUse := after.inUse ∪ Finset.Ico last.toNat (last.toNat + pages.length)}, file⟩
        ready' freed (relocate place (Set.Ico last.toNat (last.toNat + pages.length)) .used) ∧
      Took txn after last.toNat pages.length ∧
      Frame ⟨env, txn, file⟩ ⟨env, after, file⟩ freed freed := by
  have books : Books txn era.maxpg ready freed place := working.books
  have positive : 0 < pages.length := List.length_pos_iff.mpr some'
  obtain ⟨front, slice, back, start, split, end', range⟩ := ends
  have width : slice.length = pages.length := by
    have lengths := congrArg List.length range
    rw [length_pagesOf, List.length_reverse, List.length_range'] at lengths
    omega
  have inRange (p : Nat) : p ∈ pagesOf slice ↔ p ∈ Set.Ico start (start + pages.length) := by
    rw [range, List.mem_reverse, List.mem_range'_1, Set.mem_Ico]
    omega
  have head := books.head
  cases pghead : txn.pghead with
  | none =>
      rw [pghead] at head
      rw [show ready = [] from head] at split
      have lengths := congrArg List.length split
      rw [List.length_append, List.length_append, List.length_nil] at lengths
      omega
  | some mop =>
      rw [pghead] at head
      obtain ⟨unused, lists, size⟩ : mop.Holds ready := head
      have once : (pagesOf ready).Nodup := nodup_pagesOf.mpr (Falls.nodup books.falls)
      rw [split] at lists once
      rw [pagesOf_append, pagesOf_append] at once
      obtain ⟨ids, unused', takes, lists', size'⟩ := takeRange_spec lists
      -- The last cell of the range holds its first page.
      obtain ⟨last, atEnd, lastIs⟩ : ∃ last, mop.ids[i]? = some last ∧ last.toNat = start := by
        have inside : i - 1 < (front ++ slice ++ back).length := by
          rw [List.length_append, List.length_append]
          omega
        have cell := Counted.cell lists inside
        have position : i - 1 = front.length + (pages.length - 1) := by omega
        have number : (pagesOf slice)[pages.length - 1]? = some start := by
          rw [range, List.getElem?_reverse (by rw [List.length_range']; omega),
            List.length_range', List.getElem?_range' (by omega)]
          congr 1
          omega
        rw [show i - 1 + 1 = i by omega, position, List.append_assoc,
          List.getElem?_append_right (by omega), Nat.add_sub_cancel_left,
          List.getElem?_append_left (by omega)] at cell
        rw [pagesOf, List.getElem?_map, Option.map_eq_some_iff] at number
        obtain ⟨last, here, same⟩ := number
        exact ⟨last, cell.trans here, same⟩
      subst lastIs
      have members (p : Nat) : p ∈ pagesOf ready ↔
          p ∈ pagesOf (front ++ back) ∨ p ∈ Set.Ico last.toNat (last.toNat + pages.length) := by
        rw [split, pagesOf_append, pagesOf_append, pagesOf_append, ← inRange]
        simp only [List.mem_append]
        tauto
      have away (p : Nat) (inside : p ∈ pagesOf (front ++ back)) :
          p ∉ Set.Ico last.toNat (last.toNat + pages.length) := by
        rw [← inRange]
        intro taken
        rw [List.nodup_append, List.nodup_append] at once
        rw [pagesOf_append, List.mem_append] at inside
        rcases inside with inFront | inBack
        · exact once.1.2.2 p inFront p taken rfl
        · exact once.2.2 p (List.mem_append_right _ taken) p inBack rfl
      obtain ⟨after, marked, working', took, frame⟩ := working.take last.toNat txn.nextPgno pages
        some' room (front ++ back) (some {mop with ids := ids})
        (fun p inside => (books.idle p).mpr (Or.inl ((members p).mpr (Or.inr inside))))
        (fun p inside loose => (books.looseApart p loose).2 ((members p).mpr (Or.inr inside)))
        (by rw [pghead]; exact ⟨fun none' => (by cases none'), fun none' => (by cases none')⟩)
        ⟨unused', lists', by
          rw [List.length_append]
          rw [split, List.length_append, List.length_append] at size
          show front.length + back.length + unused'.length = mop.allocLen
          omega⟩
        (by
          rw [split] at books
          exact books.falls.sublist (by
            rw [List.append_assoc]
            exact List.Sublist.append_left (List.sublist_append_right _ _) _))
        (by
          intro p
          rw [members]
          constructor
          · rintro (kept | next)
            · exact ⟨Or.inl (Or.inl kept), away p kept⟩
            · refine ⟨Or.inr next, fun inside => ?_⟩
              exact absurd (books.below p ((members p).mpr (Or.inr inside))) (Nat.not_lt_of_le next)
          · rintro ⟨(kept | inside) | next, outside⟩
            · exact Or.inl kept
            · exact absurd inside outside
            · exact Or.inr next)
        (Nat.le_refl _)
        (fun p inside => books.below p ((members p).mpr (Or.inl inside)))
        books.next.2
      refine ⟨mop, last, ids, after, front ++ back, rfl, atEnd, ?_, marked, working', took, frame⟩
      rw [split, ← width, show i = front.length + slice.length by omega]
      exact takes

/-- The pages come from the list or from the end of the map, or the transaction is marked. -/
theorem takePages_spec (working : Working era ⟨env, txn, file⟩ ready freed place)
    {pages : List Page} (some' : pages ≠ []) (room : txn.dirtyRoom ≠ 0) {end' : FetchEnd}
    (ends : ∀ i, end' = .found i → EndsRange ready (pages.length - 1) i) (fault : Bool) :
    (∃ rc, takePages env txn pages end' fault = some (.error rc, {txn with error := true})) ∨
    ∃ np after ready' place', takePages env txn pages end' fault = some (.ok np, after) ∧
      Working era ⟨env, {after with
        inUse := after.inUse ∪ Finset.Ico np (np + pages.length)}, file⟩ ready' freed place' ∧
      Took txn after np pages.length ∧ Frame ⟨env, txn, file⟩ ⟨env, after, file⟩ freed freed := by
  cases end' with
  | failed => exact Or.inl ⟨_, rfl⟩
  | newPages =>
      simp only [takePages]
      by_cases full : txn.nextPgno + pages.length ≥ env.maxpg
      · rw [if_pos full]
        exact Or.inl ⟨_, rfl⟩
      · rw [if_neg full]
        cases fault with
        | true => exact Or.inl ⟨_, rfl⟩
        | false =>
            have maxpg : env.maxpg = era.maxpg := working.maxpg
            obtain ⟨after, marked, rest⟩ := working.takeNew some' room (by omega)
            refine Or.inr ⟨_, after, ready, _, ?_, rest⟩
            simp only [marked, Option.bind_eq_bind, Option.bind_some, Bool.false_eq_true, if_false]
            rfl
  | found i =>
      simp only [takePages]
      cases fault with
      | true => exact Or.inl ⟨_, rfl⟩
      | false =>
          have length := working.books.head_length
          have maxpg := era.maxpgLe
          obtain ⟨mop, last, ids, after, ready', pghead, atEnd, takes, marked, rest⟩ :=
            working.takeFound some' room (ends i rfl)
          have count := mopLength_spec working.books.head (show ready.length < 2 ^ 32 by omega)
          rw [pghead] at count
          refine Or.inr ⟨_, after, ready', _, ?_, rest⟩
          simp only [pghead, atEnd, count, takes, marked, Option.bind_eq_bind, Option.bind_some,
            Bool.false_eq_true, if_false]
          rfl

/-- The cursor starts behind the last record that was used. -/
theorem mem_recordsAhead {records : List FreeRecord}
    (ascends : records.Pairwise fun one other => one.txnid < other.txnid)
    (numbered : ∀ record ∈ records, 0 < record.txnid) (last : Nat) (record : FreeRecord) :
    record ∈ recordsAhead records last ↔ record ∈ records ∧ last < record.txnid := by
  unfold recordsAhead
  by_cases start : last = 0
  · rw [if_pos start, start]
    exact ⟨fun member => ⟨member, numbered record member⟩, fun member => member.1⟩
  · rw [if_neg start]
    clear numbered
    induction records with
    | nil => simp
    | cons first rest ih =>
        obtain ⟨order, ascends⟩ := List.pairwise_cons.mp ascends
        rw [List.dropWhile_cons]
        by_cases below : first.txnid < last + 1
        · rw [if_pos (by simpa using below), ih ascends, List.mem_cons]
          constructor
          · rintro ⟨member, above⟩
            exact ⟨Or.inr member, above⟩
          · rintro ⟨rfl | member, above⟩
            · omega
            · exact ⟨member, above⟩
        · rw [if_neg (by simpa using below), List.mem_cons]
          constructor
          · rintro (rfl | member)
            · exact ⟨Or.inl rfl, by omega⟩
            · exact ⟨Or.inr member, by have less := order record member; omega⟩
          · exact fun member => member.1

theorem recordsAhead_ascends {records : List FreeRecord}
    (ascends : records.Pairwise fun one other => one.txnid < other.txnid) (last : Nat) :
    (recordsAhead records last).Pairwise fun one other => one.txnid < other.txnid := by
  unfold recordsAhead
  split
  · exact ascends
  · exact ascends.sublist (List.dropWhile_sublist _)

/-- A failed call only marks the transaction. -/
theorem Working.marked (working : Working era ⟨env, txn, file⟩ ready freed place) (error : Bool) :
    Working era ⟨env, {txn with error := error}, file⟩ ready freed place where
  books := working.books.entries txn.dirtyList txn.dirtyRoom txn.spillPgs error
  entries := ⟨working.entries.covered, working.entries.disjoint, working.entries.positive,
    working.entries.loose, working.entries.room⟩
  guarded := working.guarded
  intact := working.intact
  unsynced := working.unsynced
  number := working.number
  pgoldest := working.pgoldest
  maxpg := working.maxpg

/-- The result of an allocation: pages for a tree, or a failure. -/
def Allocates (era : Era Page) (env : EnvPages) (txn : WriteTxn Page) (file : File Page)
    (freed : List UInt64) (num : Nat) (rc : Except PageRc Nat) (env' : EnvPages)
    (txn' : WriteTxn Page) : Prop :=
  Frame ⟨env, txn, file⟩ ⟨env', txn', file⟩ freed freed ∧
  match rc with
  | .error _ => txn'.loosePgs = txn.loosePgs ∧
      ∃ ready' place', Working era ⟨env', txn', file⟩ ready' freed place'
  | .ok np => Took txn txn' np num ∧ ∃ ready' place', Working era ⟨env', {txn' with
      inUse := txn'.inUse ∪ Finset.Ico np (np + num)}, file⟩ ready' freed place'

/-- Without a loose page the allocation uses old records and then new pages. -/
theorem allocSearch_spec (working : Working era ⟨env, txn, file⟩ ready freed place)
    {pages : List Page} (some' : pages ≠ []) (short : pages.length < 2 ^ 32) {found : Nat}
    (sound : found ≤ era.floor) (fault : Nat → Bool) :
    ∃ rc env' txn', allocSearch env txn pages found fault = some (rc, env', txn') ∧
      Allocates era env txn file freed pages.length rc env' txn' := by
  have books : Books txn era.maxpg ready freed place := working.books
  unfold allocSearch
  by_cases full : txn.dirtyRoom = 0
  · rw [if_pos full]
    exact ⟨_, _, _, rfl, ⟨rfl, rfl, ⟨Nat.le_refl _, Or.inl rfl⟩, List.prefix_rfl, rfl⟩, rfl, ready,
      place, working.marked true⟩
  · rw [if_neg full]
    have start : Fetches era txn freed (recordsAhead txn.freeDB txn.pglast)
        ⟨txn.pghead, txn.pglast, env.pgoldest, txn.pglast, env.pgoldest, false⟩ ready place :=
      { books := books
        guarded := working.guarded
        ahead := mem_recordsAhead books.records books.numbered txn.pglast
        ascends := recordsAhead_ascends books.records txn.pglast
        last := rfl
        oldest := working.pgoldest
        pgoldest := working.pgoldest }
    obtain ⟨end', loop, ready', place', rest, looped, fetches, fetched, ends⟩ :=
      fetchLoop_spec start working.number (show pages.length - 1 < 2 ^ 32 by omega) sound
        (fun call => fault (call + 1)) (pages.length * 60)
    have working' : Working era
        ⟨{env with pgoldest := loop.pgoldest},
          {txn with pghead := loop.pghead, pglast := loop.pglast}, file⟩ ready' freed place' :=
      { books := fetches.books
        entries := ⟨working.entries.covered, working.entries.disjoint, working.entries.positive,
          working.entries.loose, working.entries.room⟩
        guarded := fetches.guarded
        intact := working.intact
        unsynced := working.unsynced
        number := working.number
        pgoldest := fetches.pgoldest
        maxpg := working.maxpg }
    have frame : Frame ⟨env, txn, file⟩ ⟨{env with pgoldest := loop.pgoldest},
        {txn with pghead := loop.pghead, pglast := loop.pglast}, file⟩ freed freed :=
      ⟨rfl, rfl, fetched, List.prefix_rfl, rfl⟩
    simp only [looped, Option.bind_eq_bind, Option.bind_some]
    -- The map may have grown with another environment, so the pages are taken beside the new one.
    have same : takePages env {txn with pghead := loop.pghead, pglast := loop.pglast} pages end'
        (fault 0) = takePages {env with pgoldest := loop.pgoldest}
          {txn with pghead := loop.pghead, pglast := loop.pglast} pages end' (fault 0) := rfl
    rcases takePages_spec working' some' full ends (fault 0) with
      ⟨rc, failed⟩ | ⟨np, after, ready'', place'', takes, working'', took, frame'⟩
    · refine ⟨.error rc, _, _, by rw [same, failed]; rfl, ?_, ?_, ready', place',
        working'.marked true⟩
      · exact frame.trans ⟨rfl, rfl, ⟨Nat.le_refl _, Or.inl rfl⟩, List.prefix_rfl, rfl⟩
      · rfl
    · exact ⟨.ok np, _, _, by rw [same, takes]; rfl, frame.trans frame',
        ⟨took.inUse, took.freePgs, took.spillPgs, took.error, took.loose, took.fresh, took.entry⟩,
        ready'', place'', working''⟩

/-- A loose page comes back into use with the entry that it has. -/
theorem Working.takeLoose (working : Working era ⟨env, txn, file⟩ ready freed place) {np : Nat}
    {loose : List Nat} (first : txn.loosePgs = np :: loose) :
    Took txn {txn with loosePgs := loose} np 1 ∧
      Working era ⟨env, {txn with
        loosePgs := loose, inUse := txn.inUse ∪ Finset.Ico np (np + 1)}, file⟩ ready freed
        (relocate place (Set.Ico np (np + 1)) .used) := by
  have books : Books txn era.maxpg ready freed place := working.books
  have entries : Entries txn freed era.Apart := working.entries
  have member : np ∈ txn.loosePgs := by
    rw [first]
    exact List.mem_cons_self
  have once := books.looseOnce
  rw [first, List.nodup_cons] at once
  have only (p : Nat) : p ∈ Set.Ico np (np + 1) ↔ p = np := by
    rw [Set.mem_Ico]
    omega
  have idle : ∀ p ∈ Set.Ico np (np + 1), place p = .idle := by
    intro p inside
    rw [(only p).mp inside]
    exact (books.idle np).mpr (Or.inr (Or.inl member))
  have taken : Books {txn with
      pghead := txn.pghead, loosePgs := loose, nextPgno := txn.nextPgno
      inUse := txn.inUse ∪ Finset.Ico np (np + 1)} era.maxpg ready freed
      (relocate place (Set.Ico np (np + 1)) .used) := by
    refine books.take idle Iff.rfl books.head books.falls (fun p => ?_) once.2 (fun p inside => ?_)
      books.below books.next
    · have away := books.looseApart np member
      rw [only, first, List.mem_cons]
      constructor
      · rintro (ready | loose | next)
        · exact ⟨Or.inl ready, fun same => away.2 (same ▸ ready)⟩
        · exact ⟨Or.inr (Or.inl (Or.inr loose)), fun same => once.1 (same ▸ loose)⟩
        · exact ⟨Or.inr (Or.inr next), fun same => absurd next (Nat.not_le_of_lt (same ▸ away.1))⟩
      · rintro ⟨ready | (same | loose) | next, outside⟩
        · exact Or.inl ready
        · exact absurd same outside
        · exact Or.inr (Or.inl loose)
        · exact Or.inr (Or.inr next)
    · exact books.looseApart p (by rw [first]; exact List.mem_cons_of_mem _ inside)
  refine ⟨⟨rfl, rfl, rfl, rfl, ⟨[np], first.symm⟩, ?_, entries.loose np member⟩, ?_⟩
  · intro p inside
    exact (working.idle (idle p inside)).2.1
  · exact
      { books := taken.entries _ _ _ _
        entries :=
          { covered := by
              intro span inside p covers
              have known := entries.covered span inside p covers
              refine ⟨known.1, ?_⟩
              rcases known.2 with inUse | freed | inLoose
              · exact Or.inl (Finset.mem_union_left _ inUse)
              · exact Or.inr (Or.inl freed)
              · rw [first, List.mem_cons] at inLoose
                rcases inLoose with same | rest
                · exact Or.inl (Finset.mem_union_right _ (Finset.mem_Ico.mpr (by omega)))
                · exact Or.inr (Or.inr rest)
            disjoint := entries.disjoint
            positive := entries.positive
            loose := fun p inside =>
              entries.loose p (by rw [first]; exact List.mem_cons_of_mem _ inside)
            room := entries.room }
        guarded := working.guarded.take _
        intact := working.intact
        unsynced := working.unsynced
        number := working.number
        pgoldest := working.pgoldest
        maxpg := working.maxpg }

/-- The allocation stays inside of all lists, and what it takes was idle. -/
theorem pageAlloc_spec (working : Working era ⟨env, txn, file⟩ ready freed place)
    {pages : List Page} (some' : pages ≠ []) (short : pages.length < 2 ^ 32) {found : Nat}
    (sound : found ≤ era.floor) (fault : Nat → Bool) :
    ∃ rc env' txn', pageAlloc env txn pages found fault = some (rc, env', txn') ∧
      Allocates era env txn file freed pages.length rc env' txn' := by
  have search := allocSearch_spec working some' short sound fault
  match pages, loosePgs : txn.loosePgs with
  | [], _ => exact absurd rfl some'
  | [page], np :: loose =>
      obtain ⟨took, working'⟩ := working.takeLoose loosePgs
      exact ⟨.ok np, env, {txn with loosePgs := loose}, by simp only [pageAlloc, loosePgs]; rfl,
        ⟨rfl, rfl, ⟨Nat.le_refl _, Or.inl rfl⟩, List.prefix_rfl, rfl⟩, took, ready, _, working'⟩
  | [page], [] =>
      simp only [pageAlloc, loosePgs]
      exact search
  | page :: other :: rest, loose => exact search

end Alloc

end DbBench
