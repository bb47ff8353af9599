import DbBench.Proof.PageOps

/-
This file proves that the loop of the commit reserves room for all free pages, although the writing
of the records takes and frees pages itself.
-/

namespace DbBench

open Cells Reclaim

variable {Page : Type}

section Records

variable {freeDB : List FreeRecord} {record other : FreeRecord}

theorem mem_putRecord : other ∈ putRecord freeDB record ↔
    other = record ∨ other ∈ freeDB ∧ other.txnid ≠ record.txnid := by
  rw [putRecord, List.mem_orderedInsert, List.mem_filter, decide_eq_true_eq]

theorem putRecord_perm (freeDB : List FreeRecord) (record : FreeRecord) :
    (putRecord freeDB record).Perm
      (record :: freeDB.filter fun other => other.txnid ≠ record.txnid) :=
  List.perm_orderedInsert _ _ _

/-- The room of a record for page numbers. -/
def FreeRecord.room (record : FreeRecord) : Nat := record.idl.size - 1

/-- The room of all records up to a number. -/
def rooms (freeDB : List FreeRecord) (pglast : Nat) : Nat :=
  ((freeDB.filter fun record => record.txnid ≤ pglast).map FreeRecord.room).sum

theorem rooms_eq_zero {pglast : Nat} (none' : ∀ record ∈ freeDB, pglast < record.txnid) :
    rooms freeDB pglast = 0 := by
  have empty : (freeDB.filter fun record => record.txnid ≤ pglast) = [] := by
    rw [List.filter_eq_nil_iff]
    intro record member
    have above := none' record member
    simpa using above
  rw [rooms, empty]
  rfl

/-- The room without the record that is replaced. -/
theorem rooms_putRecord {pglast : Nat} (inside : record.txnid ≤ pglast) :
    rooms (putRecord freeDB record) pglast =
      record.room + rooms (freeDB.filter fun other => other.txnid ≠ record.txnid) pglast := by
  have order := ((putRecord_perm freeDB record).filter fun record => record.txnid ≤ pglast).map
    FreeRecord.room
  rw [rooms, order.sum_eq, List.filter_cons_of_pos (by simpa using inside), List.map_cons,
    List.sum_cons]
  rfl

/-- Every record is one of a kind. -/
theorem filter_txnid_perm (ascends : freeDB.Pairwise fun one other => one.txnid < other.txnid)
    (member : record ∈ freeDB) :
    freeDB.Perm (record :: freeDB.filter fun other => other.txnid ≠ record.txnid) := by
  have once : freeDB.Nodup := ascends.imp fun {_ _} less same => by
    rw [same] at less
    exact Nat.lt_irrefl _ less
  refine (List.perm_cons_erase member).trans (List.Perm.of_eq ?_)
  rw [once.erase_eq_filter]
  congr 1
  refine List.filter_congr fun other inside => ?_
  by_cases same : other = record
  · simp [same]
  · have different : other.txnid ≠ record.txnid :=
      fun equal => same (record_unique ascends inside member equal)
    simp [same, different]

theorem rooms_of_mem {pglast : Nat} (inside : record.txnid ≤ pglast)
    (ascends : freeDB.Pairwise fun one other => one.txnid < other.txnid)
    (member : record ∈ freeDB) : rooms freeDB pglast =
      record.room + rooms (freeDB.filter fun other => other.txnid ≠ record.txnid) pglast := by
  have order := ((filter_txnid_perm ascends member).filter
    fun record => record.txnid ≤ pglast).map FreeRecord.room
  rw [rooms, order.sum_eq, List.filter_cons_of_pos (by simpa using inside), List.map_cons,
    List.sum_cons]
  rfl

end Records

section Rewrites

variable {era : Era Page} {env : EnvPages} {txn : WriteTxn Page} {file : File Page}
  {ready freed : List UInt64} {place : Nat → Place}

/-- The records of the old transactions stay the same, and the books are about no other ones. -/
theorem Working.rewrite (working : Working era ⟨env, txn, file⟩ ready freed place)
    (freeDB : List FreeRecord)
    (ascends : freeDB.Pairwise fun one other => one.txnid < other.txnid)
    (numbered : ∀ record ∈ freeDB, 0 < record.txnid)
    (same : ∀ record, txn.pglast < record.txnid → record.txnid < txn.txnid →
      (record ∈ freeDB ↔ record ∈ txn.freeDB)) :
    Working era ⟨env, {txn with freeDB := freeDB}, file⟩ ready freed place where
  books :=
    { head := working.books.head
      free := working.books.free
      used := working.books.used
      aboveMetas := working.books.aboveMetas
      idle := working.books.idle
      retired := working.books.retired
      limbo := by
        intro p k
        rw [working.books.limbo]
        constructor
        · rintro ⟨above, late, record, member, number, inside⟩
          rw [← number] at above late
          exact ⟨number ▸ above, number ▸ late, record, (same record above late).mpr member, number,
            inside⟩
        · rintro ⟨above, late, record, member, number, inside⟩
          rw [← number] at above late
          exact ⟨number ▸ above, number ▸ late, record, (same record above late).mp member, number,
            inside⟩
      falls := working.books.falls
      freeOnce := working.books.freeOnce
      looseOnce := working.books.looseOnce
      looseApart := working.books.looseApart
      below := working.books.below
      records := ascends
      numbered := numbered
      sound := fun record member above late =>
        working.books.sound record ((same record above late).mp member) above late
      next := working.books.next
      fetched := working.books.fetched
      late := working.books.late }
  entries := ⟨working.entries.covered, working.entries.disjoint, working.entries.positive,
    working.entries.loose, working.entries.room⟩
  guarded := working.guarded
  intact := working.intact
  unsynced := working.unsynced
  number := working.number
  pgoldest := working.pgoldest
  maxpg := working.maxpg

end Rewrites

/-- The records that are reserved for the ready pages have numbers up to the last one used, and the
state of the loop knows their room. -/
structure Reserved (state : Saving) (freeDB : List FreeRecord) (pglast : Nat) : Prop where
  head : state.headId ≤ pglast ∧ (0 < pglast → 0 < state.headId)
  least : ∀ record ∈ freeDB, record.txnid ≤ pglast → state.headId ≤ record.txnid
  empty : ∀ record ∈ freeDB, record.txnid ≤ pglast → record.idl[0]? = some 0
  current : ∀ record ∈ freeDB, record.txnid = state.headId → (record.room : Int) = state.headRoom
  fresh : (∀ record ∈ freeDB, record.txnid ≠ state.headId) → state.headRoom = 0
  total : state.totalRoom = rooms freeDB pglast

/-- The record of this transaction holds the pages that it had freed when the record was written. -/
def Own (state : Saving) (txn : WriteTxn Page) (freed : List UInt64) : Prop :=
  state.freecnt = 0 ∧ state.putting = false ∧ (∀ record ∈ txn.freeDB, record.txnid < txn.txnid) ∨
    state.freecnt ≤ freed.length ∧ (state.putting = false → ∃ record ∈ txn.freeDB,
      record.txnid = txn.txnid ∧ Midl.Lists record.idl (freed.take state.freecnt) [] ∧
        (freed.take state.freecnt).Pairwise Falls)

/-- The invariant of the loop. While a record that was used is still there, the reserved ones may be
out of date. -/
structure Saves (era : Era Page) (state : Saving) (work : Work Page) (ready freed : List UInt64)
    (place : Nat → Place) : Prop where
  working : Working era work ready freed place
  pool : work.txn.loosePgs ≠ [] → 0 < work.txn.pglast
  order : state.pglast ≤ work.txn.pglast
  ahead : state.pglast < work.txn.pglast →
    ∃ record ∈ work.txn.freeDB, record.txnid = work.txn.pglast
  latest : ∀ record ∈ work.txn.freeDB, record.txnid ≤ work.txn.txnid
  reserved : state.pglast = work.txn.pglast → Reserved state work.txn.freeDB work.txn.pglast
  own : Own state work.txn freed

/-- A part of the commit ends in a disabled step, or with books that are right. -/
def Completes {Result : Type} (era : Era Page)
    (outcome : Except Stop (Except PageRc Result × Work Page))
    (good : Result → Work Page → Prop) : Prop :=
  outcome = .error .disabled ∨ ∃ rc after, outcome = .ok (rc, after) ∧
    (∃ ready freed place, Working era after ready freed place) ∧
    ∀ result, rc = .ok result → good result after

section Loop

variable {era : Era Page} {state : Saving} {work : Work Page} {ready freed : List UInt64}
  {place : Nat → Place} {found : List Nat}

/-- The page functions change neither the records nor the freed pages that were counted. -/
theorem Saves.perform (saves : Saves era state work ready freed place)
    (sound : ∀ oldest ∈ found, oldest ≤ era.floor) {ops : List (PageOp Page)}
    (uses : ops.all (·.uses found) = true) :
    performFree ops work = .error .disabled ∨ ∃ rc after ready' freed' place',
      performFree ops work = .ok (rc, after) ∧ Saves era state after ready' freed' place' ∧
      Frame work after freed freed' := by
  unfold performFree
  by_cases inFreeDb : ops.all PageOp.inFreeDb = true
  · rw [if_pos inFreeDb]
    rcases performAll_spec saves.working sound uses inFreeDb with
      disabled | ⟨rc, after, ready', freed', place', performed, working, frame, loose⟩
    · exact Or.inl disabled
    · refine Or.inr ⟨rc, after, ready', freed', place', performed, ?_, frame⟩
      have grown := frame.fetched.grown
      exact
        { working := working
          pool := by
            intro some'
            refine Nat.lt_of_lt_of_le (saves.pool fun none' => some' ?_) grown
            have suffix' := loose rfl
            rw [none'] at suffix'
            exact List.suffix_nil.mp suffix'
          order := Nat.le_trans saves.order grown
          ahead := by
            intro behind
            rw [frame.freeDB]
            rcases frame.fetched.used with same | used
            · rw [same] at behind ⊢
              exact saves.ahead behind
            · exact used
          latest := by
            rw [frame.freeDB, frame.txnid]
            exact saves.latest
          reserved := by
            intro equal
            have order := saves.order
            rw [frame.freeDB, show after.txn.pglast = work.txn.pglast by omega]
            exact saves.reserved (by omega)
          own := by
            unfold Own
            rw [frame.freeDB, frame.txnid]
            obtain ⟨more, split⟩ := frame.freed
            rcases saves.own with none' | ⟨count, own⟩
            · exact Or.inl none'
            · refine Or.inr ⟨?_, ?_⟩
              · rw [← split, List.length_append]
                omega
              · rw [← split, List.take_append_of_le_length count]
                exact own }
  · rw [if_neg inFreeDb]
    exact Or.inl rfl

/-- The loop may change what it knows about its own record. -/
theorem Reserved.counted {freeDB : List FreeRecord} {pglast : Nat}
    (reserved : Reserved state freeDB pglast) (freecnt : Nat) (putting : Bool) :
    Reserved {state with freecnt := freecnt, putting := putting} freeDB pglast :=
  ⟨reserved.head, reserved.least, reserved.empty, reserved.current, reserved.fresh, reserved.total⟩

/-- What the loop knows about the record that it puts next. -/
structure Chosen (state next : Saving) (freeDB : List FreeRecord) (pglast : Nat) : Prop where
  used : next.pglast = state.pglast
  freecnt : next.freecnt = state.freecnt
  putting : next.putting = state.putting
  head : 0 < next.headId ∧ next.headId ≤ pglast
  least : ∀ record ∈ freeDB, record.txnid ≤ pglast → next.headId ≤ record.txnid
  room : 0 ≤ next.headRoom
  total : next.totalRoom = next.headRoom +
    rooms (freeDB.filter fun record => record.txnid ≠ next.headId) pglast

/-- The record of the state is replaced, or the next one is put before it. -/
theorem Saving.reserve_spec {freeDB : List FreeRecord} {pglast mopLen maxfree1pg : Nat}
    {next : Saving} (reserved : Reserved state freeDB pglast)
    (ascends : freeDB.Pairwise fun one other => one.txnid < other.txnid)
    (numbered : ∀ record ∈ freeDB, 0 < record.txnid) (pool : 0 < mopLen → 0 < pglast)
    (chosen : state.reserve mopLen maxfree1pg = some next) : Chosen state next freeDB pglast := by
  have pooled (differs : state.totalRoom ≠ mopLen) : 0 < pglast := by
    by_contra zero
    have none' : rooms freeDB pglast = 0 := by
      refine rooms_eq_zero fun record member => ?_
      have positive := numbered record member
      omega
    have total := reserved.total
    have empty : ¬ 0 < mopLen := fun some' => zero (pool some')
    omega
  have others : state.totalRoom - state.headRoom =
      rooms (freeDB.filter fun record => record.txnid ≠ state.headId) pglast := by
    by_cases present : ∃ record ∈ freeDB, record.txnid = state.headId
    · obtain ⟨record, member, number⟩ := present
      have split := rooms_of_mem (show record.txnid ≤ pglast by
        have head := reserved.head.1
        omega) ascends member
      have current := reserved.current record member number
      rw [number] at split
      have total := reserved.total
      omega
    · have absent : ∀ record ∈ freeDB, record.txnid ≠ state.headId :=
        fun record member number => present ⟨record, member, number⟩
      rw [List.filter_eq_self.mpr fun record member => decide_eq_true (absent record member),
        reserved.fresh absent, reserved.total, Int.sub_zero]
  unfold Saving.reserve at chosen
  by_cases done : state.totalRoom ≥ mopLen ∧ (state.totalRoom = mopLen ∨ state.more - 1 < 0)
  · rw [if_pos done] at chosen
    cases chosen
  · rw [if_neg done] at chosen
    have differs : state.totalRoom ≠ mopLen := fun equal =>
      done ⟨Int.le_of_eq equal.symm, Or.inl equal⟩
    have positive := reserved.head.2 (pooled differs)
    have share (room : Int) (headId : Nat) : 0 ≤ (if room > maxfree1pg ∧ headId > 1 then
        ((room.toNat / headId + (maxfree1pg - room.toNat / headId % (maxfree1pg + 1)) : Nat) : Int)
        else if room < 0 then 0 else room) := by
      split_ifs with large negative
      · exact Int.natCast_nonneg _
      · exact Int.le_refl 0
      · exact Int.not_lt.mp negative
    by_cases before : state.totalRoom < mopLen ∧ state.headRoom ≥ maxfree1pg ∧ state.headId > 1
    · simp only [if_pos before, Option.some.injEq] at chosen
      subst chosen
      have head := reserved.head.1
      have absent : ∀ record ∈ freeDB, record.txnid ≠ state.headId - 1 := by
        intro record member number
        have least := reserved.least record member (by omega)
        omega
      exact
        { used := rfl
          freecnt := rfl
          putting := rfl
          head := ⟨by show 0 < state.headId - 1; omega, by show state.headId - 1 ≤ pglast; omega⟩
          least := by
            intro record member low
            have least := reserved.least record member low
            show state.headId - 1 ≤ record.txnid
            omega
          room := share _ _
          total := by
            have same : (freeDB.filter fun record => record.txnid ≠ state.headId - 1) = freeDB :=
              List.filter_eq_self.mpr fun record member => decide_eq_true (absent record member)
            show _ = _ + ((rooms (freeDB.filter fun record => record.txnid ≠ state.headId - 1)
              pglast : Nat) : Int)
            rw [same, ← reserved.total]
            dsimp only
            rw [Int.sub_zero]
            exact Int.add_comm _ _ }
    · simp only [if_neg before, Option.some.injEq] at chosen
      subst chosen
      exact
        { used := rfl
          freecnt := rfl
          putting := rfl
          head := ⟨positive, reserved.head.1⟩
          least := reserved.least
          room := share _ _
          total := by
            show _ = _ + ((rooms (freeDB.filter fun record => record.txnid ≠ state.headId)
              pglast : Nat) : Int)
            rw [← others]
            exact Int.add_comm _ _ }

/-- The chosen record has the room that the loop has reckoned with. -/
theorem Reserved.put {freeDB : List FreeRecord} {pglast : Nat} {next : Saving}
    {record : FreeRecord} (before : Reserved state freeDB pglast)
    (chosen : Chosen state next freeDB pglast) (number : record.txnid = next.headId)
    (first : record.idl[0]? = some 0) (room : (record.room : Int) = next.headRoom) :
    Reserved next (putRecord freeDB record) pglast where
  head := ⟨chosen.head.2, fun _ => chosen.head.1⟩
  least other member low := by
    rcases mem_putRecord.mp member with here | ⟨inside, _⟩
    · rw [here, number]
    · exact chosen.least other inside low
  empty other member low := by
    rcases mem_putRecord.mp member with here | ⟨inside, _⟩
    · rw [here]
      exact first
    · exact before.empty other inside low
  current other member same := by
    rcases mem_putRecord.mp member with here | ⟨inside, away⟩
    · rw [here]
      exact room
    · exact absurd (same.trans number.symm) away
  fresh absent := absurd number (absent record (mem_putRecord.mpr (Or.inl rfl)))
  total := by
    have total := chosen.total
    rw [rooms_putRecord (number ▸ chosen.head.2), number, total, Int.natCast_add, room]

/-- The loop has ended, and the reserved records have room for all pages. -/
structure Finished (era : Era Page) (state : Saving) (work : Work Page)
    (ready freed : List UInt64) (place : Nat → Place) : Prop where
  saves : Saves era state work ready freed place
  quiet : state.putting = false
  used : state.pglast = work.txn.pglast
  counted : freed.length ≤ state.freecnt
  room : ready.length + work.txn.loosePgs.length ≤ rooms work.txn.freeDB work.txn.pglast

/-- The next part runs with the result of the first one. -/
theorem Completes.andThen {First Second : Type}
    {outcome : Except Stop (Except PageRc First × Work Page)} {good : First → Work Page → Prop}
    (ends : Completes era outcome good)
    {next : First → Work Page → Except Stop (Except PageRc Second × Work Page)}
    {good' : Second → Work Page → Prop}
    (continues : ∀ first after, good first after → Completes era (next first after) good') :
    Completes era (DbBench.andThen outcome next) good' := by
  rcases ends with disabled | ⟨rc, after, ended, books, holds⟩
  · rw [disabled]
    exact Or.inl rfl
  · rw [ended]
    cases rc with
    | error rc => exact Or.inr ⟨_, _, rfl, books, fun _ equal => by cases equal⟩
    | ok first => exact continues first after (holds first rfl)

/-- The check at the end of the loop finds room for all pages. -/
theorem Saves.finish (saves : Saves era state work ready freed place)
    (used : ¬ (¬ state.putting = true ∧ state.pglast < work.txn.pglast))
    (counted : ¬ (state.putting = true ∨ state.freecnt < freed.length))
    (enough : state.reserve (ready.length + work.txn.loosePgs.length) work.env.maxfree1pg = none) :
    Finished era state work ready freed place := by
  have quiet : state.putting = false :=
    Bool.eq_false_iff.mpr fun putting => counted (Or.inl putting)
  have order := saves.order
  have behind : ¬ state.pglast < work.txn.pglast := fun behind =>
    used ⟨fun putting => counted (Or.inl putting), behind⟩
  have equal : state.pglast = work.txn.pglast := by omega
  have total := (saves.reserved equal).total
  refine ⟨saves, quiet, equal, Nat.le_of_not_lt fun more => counted (Or.inr more), ?_⟩
  unfold Saving.reserve at enough
  by_cases done : state.totalRoom ≥ (ready.length + work.txn.loosePgs.length : Nat) ∧
      (state.totalRoom = (ready.length + work.txn.loosePgs.length : Nat) ∨ state.more - 1 < 0)
  · have room := done.1
    omega
  · rw [if_neg done] at enough
    cases enough

/-- The state of the loop has room for the ready pages, or the next record gets some. -/
theorem Saves.choose (saves : Saves era state work ready freed place)
    (used : ¬ (¬ state.putting = true ∧ state.pglast < work.txn.pglast))
    (counted : ¬ (state.putting = true ∨ state.freecnt < freed.length)) {next : Saving}
    (chosen : state.reserve (ready.length + work.txn.loosePgs.length) work.env.maxfree1pg =
      some next) : Chosen state next work.txn.freeDB work.txn.pglast := by
  have order := saves.order
  have behind : ¬ state.pglast < work.txn.pglast := fun behind =>
    used ⟨fun putting => counted (Or.inl putting), behind⟩
  have books := saves.working.books
  refine Saving.reserve_spec (saves.reserved (by omega)) books.records books.numbered ?_ chosen
  intro some'
  by_cases loose : work.txn.loosePgs = []
  · rw [loose, List.length_nil, Nat.add_zero] at some'
    refine Nat.pos_of_ne_zero fun zero => ?_
    have head := books.head
    rw [books.fetched.mpr zero] at head
    rw [show ready = [] from head] at some'
    exact Nat.lt_irrefl _ some'
  · exact saves.pool loose

end Loop

end DbBench
