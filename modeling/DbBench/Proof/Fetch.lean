import DbBench.Proof.Books

/-
This file proves that the loop of the page allocation uses only records that are old enough, and
that the books of the transaction stay right.
-/

namespace DbBench

open Cells Reclaim

variable {Page : Type}

/-- The committed versions beside which a transaction works. A reader or a restart may still see
those from the floor on. -/
structure Era (Page : Type) where
  live : Nat → Set Nat
  image : Nat → Nat → Page
  floor : Nat
  latest : Nat
  maxpg : Nat
  floorLe : floor ≤ latest
  maxpgLe : maxpg ≤ 2 ^ 29

namespace Era

def Apart (era : Era Page) : Nat → Prop := Reclaim.Apart era.live era.floor era.latest

def Guarded (era : Era Page) : (Nat → Place) → Prop :=
  Reclaim.Guarded era.live era.floor era.latest

def Intact (era : Era Page) : (Nat → Page) → Prop :=
  Reclaim.Intact era.live era.image era.floor era.latest

end Era

section Pool

theorem mopLength_spec {pghead : Option Midl} {ready : List UInt64}
    (holds : HeadHolds pghead ready) (small : ready.length < 2 ^ 32) :
    mopLength pghead = some ready.length := by
  cases pghead with
  | none =>
      rw [show ready = [] from holds]
      rfl
  | some mop =>
      have holds : mop.Holds ready := holds
      have count : (UInt64.ofNat ready.length).toUInt32.toNat = ready.length := by
        rw [UInt64.toNat_toUInt32, holds.toNat_count, Nat.mod_eq_of_lt small]
      simp only [mopLength, holds.count, Option.map_some, count]

/-- The search finds a range of the list or nothing. -/
theorem seek_spec {pghead : Option Midl} {ready : List UInt64} (holds : HeadHolds pghead ready)
    (falls : ready.Pairwise Falls) {bound : Nat} (below : IdsBelow bound ready) (n2 : Nat)
    (small : ready.length < 2 ^ 32) (fits : bound + n2 < 2 ^ 64) :
    ∃ place, seek pghead n2 = some place ∧ ∀ i, place = some i →
      ∃ front slice back last, ready = front ++ slice ++ back ∧ front.length + (n2 + 1) = i ∧
        pagesOf slice = (List.range' last (n2 + 1)).reverse := by
  cases pghead with
  | none => exact ⟨none, rfl, fun i found => by cases found⟩
  | some mop =>
      have length := mopLength_spec holds small
      obtain ⟨unused, lists, _⟩ : mop.Holds ready := holds
      simp only [seek, length, Option.bind_eq_bind, Option.bind_some]
      by_cases long : ready.length > n2
      · rw [if_pos long]
        obtain ⟨place, sought, finds⟩ := seekRange_spec lists n2 ready.length long (Nat.le_refl _)
        refine ⟨place, sought, fun i found => ?_⟩
        obtain ⟨enough, inside, last, first, atLast, atFirst, range⟩ := finds i found
        obtain ⟨front, slice, back, split, place', pages⟩ :=
          found_range falls below fits enough inside atLast atFirst range
        exact ⟨front, slice, back, _, split, place', pages⟩
      · rw [if_neg long]
        exact ⟨none, rfl, fun i found => by cases found⟩

/-- The list has room for more pages, or there was no memory. -/
theorem poolRoom_spec {pghead : Option Midl} {ready : List UInt64} (holds : HeadHolds pghead ready)
    {i : Nat} (small : i + ready.length < 2 ^ 31) (fault : Bool) :
    poolRoom pghead i fault = some none ∨ ∃ mop, poolRoom pghead i fault = some (some mop) ∧
      mop.Holds ready ∧ ready.length + i ≤ mop.allocLen := by
  cases pghead with
  | none =>
      rw [show ready = [] from holds]
      rcases Midl.alloc_spec i fault with ⟨failed, _⟩ | ⟨mop, alloc, holds', length⟩
      · exact Or.inl (by simp only [poolRoom, failed]; rfl)
      · refine Or.inr ⟨mop, by simp only [poolRoom, alloc]; rfl, holds', ?_⟩
        rw [length, List.length_nil, Nat.zero_add]
  | some mop =>
      rcases Midl.need_spec (show mop.Holds ready from holds) small fault with
        ⟨failed, _⟩ | ⟨grown, need, holds', room⟩
      · exact Or.inl (by
          simp only [poolRoom, failed, Option.bind_eq_bind, Option.bind_some]
          rfl)
      · exact Or.inr ⟨grown, by
          simp only [poolRoom, need, Option.bind_eq_bind, Option.bind_some]
          rfl, holds', room⟩

/-- The pages of a record join the ready ones in order. -/
theorem Fetching.merge_spec (loop : Fetching) {record : FreeRecord}
    {entries unused ready : List UInt64} (holds : HeadHolds loop.pghead ready)
    (lists : Midl.Lists record.idl entries unused) (falls : ready.Pairwise Falls)
    (falls' : entries.Pairwise Falls) (apart : ∀ id ∈ ready, id ∉ entries)
    (small : entries.length + ready.length < 2 ^ 31) (fault : Bool) :
    loop.merge record fault = some none ∨ ∃ mop merged, loop.merge record fault =
        some (some {loop with
          pghead := some mop, pglast := record.txnid, last := record.txnid}) ∧
      mop.Holds merged ∧ merged.Perm (ready ++ entries) ∧ merged.Pairwise Falls := by
  have count : (UInt64.ofNat entries.length).toUInt32.toNat = entries.length := by
    rw [UInt64.toNat_toUInt32, lists.toNat_count, Nat.mod_eq_of_lt (by omega)]
  simp only [Fetching.merge, lists.counted.1, count, Option.bind_eq_bind, Option.bind_some]
  rcases poolRoom_spec holds small fault with failed | ⟨mop, room, holds', enough⟩
  · rw [failed]
    exact Or.inl rfl
  · obtain ⟨ids, merged, merges, holds'', perm, descends⟩ := holds'.xmerge lists
      (descends_of_falls falls) (descends_of_falls falls') enough (by omega)
    rw [room]
    refine Or.inr ⟨{mop with ids := ids}, merged, ?_, holds'', perm, ?_⟩
    · simp only [merges, Option.bind_some]
      rfl
    · refine falls_of_descends descends (perm.nodup_iff.mpr ?_)
      rw [List.nodup_append]
      refine ⟨Falls.nodup falls, Falls.nodup falls', ?_⟩
      intro id member id' member' same
      exact apart id member (same ▸ member')

/-- A record passes the check when it is older than all that is found. -/
theorem Fetching.tooRecent_spec (loop : Fetching) {found last floor : Nat} (oldest : loop.oldest ≤ floor)
    (pgoldest : loop.pgoldest ≤ floor) (sound : found ≤ floor) :
    ∃ recent after, loop.tooRecent found last = (recent, after) ∧ after.pghead = loop.pghead ∧
      after.pglast = loop.pglast ∧ after.last = loop.last ∧ after.oldest ≤ floor ∧
      after.pgoldest ≤ floor ∧ (recent = false → last < floor) := by
  unfold Fetching.tooRecent
  by_cases young : loop.oldest ≤ last
  · rw [if_pos young]
    by_cases asked : loop.foundOld
    · simp only [asked, if_true]
      refine ⟨_, _, rfl, rfl, rfl, rfl, oldest, pgoldest, fun no => ?_⟩
      rw [decide_eq_false_iff_not] at no
      exact absurd young no
    · simp only [asked, if_false, Bool.false_eq_true]
      refine ⟨_, _, rfl, rfl, rfl, rfl, sound, sound, fun no => ?_⟩
      rw [decide_eq_false_iff_not] at no
      omega
  · rw [if_neg young]
    exact ⟨_, _, rfl, rfl, rfl, rfl, oldest, pgoldest, fun _ => by omega⟩

end Pool

/-- The loop of the allocation keeps the books. The records ahead are the ones that it has not used. -/
structure Fetches (era : Era Page) (txn : WriteTxn Page) (freed : List UInt64)
    (records : List FreeRecord) (loop : Fetching) (ready : List UInt64) (place : Nat → Place) :
    Prop where
  books : Books {txn with pghead := loop.pghead, pglast := loop.pglast} era.maxpg ready freed place
  guarded : era.Guarded place
  ahead : ∀ record, record ∈ records ↔ record ∈ txn.freeDB ∧ loop.pglast < record.txnid
  ascends : records.Pairwise fun one other => one.txnid < other.txnid
  last : loop.last = loop.pglast
  oldest : loop.oldest ≤ era.floor
  pgoldest : loop.pgoldest ≤ era.floor

/-- The loop has used some of the records. -/
structure Fetched (txn : WriteTxn Page) (before after : Nat) : Prop where
  grown : before ≤ after
  used : after = before ∨ ∃ record ∈ txn.freeDB, record.txnid = after

theorem Fetched.trans {txn : WriteTxn Page} {first second third : Nat}
    (one : Fetched txn first second) (other : Fetched txn second third) :
    Fetched txn first third := by
  refine ⟨Nat.le_trans one.grown other.grown, ?_⟩
  rcases other.used with same | used
  · rw [same]
    exact one.used
  · exact Or.inr used

/-- The end of a range in the list of ready pages. -/
def EndsRange (ready : List UInt64) (n2 i : Nat) : Prop :=
  ∃ front slice back last, ready = front ++ slice ++ back ∧ front.length + (n2 + 1) = i ∧
    pagesOf slice = (List.range' last (n2 + 1)).reverse

section Loop

variable {era : Era Page} {txn : WriteTxn Page} {freed : List UInt64} {records : List FreeRecord}
  {loop : Fetching} {ready : List UInt64} {place : Nat → Place}

/-- The check of a number changes nothing in the books. -/
theorem Fetches.tooRecent (fetches : Fetches era txn freed records loop ready place)
    {found : Nat} (sound : found ≤ era.floor) (last : Nat) :
    ∃ recent after, loop.tooRecent found last = (recent, after) ∧
      Fetches era txn freed records after ready place ∧ after.pglast = loop.pglast ∧
      (recent = false → last < era.floor) := by
  obtain ⟨recent, after, checked, pghead, pglast, same, oldest, pgoldest, old⟩ :=
    @Fetching.tooRecent_spec loop found last era.floor fetches.oldest fetches.pgoldest sound
  refine ⟨recent, after, checked, ?_, pglast, old⟩
  exact
    { books := by
        rw [pghead, pglast]
        exact fetches.books
      guarded := fetches.guarded
      ahead := by
        rw [pglast]
        exact fetches.ahead
      ascends := fetches.ascends
      last := by rw [same, pglast, fetches.last]
      oldest := oldest
      pgoldest := pgoldest }

/-- An old record is merged into the ready pages. -/
theorem Fetches.merge {record : FreeRecord} {rest : List FreeRecord}
    (fetches : Fetches era txn freed (record :: rest) loop ready place)
    (number : txn.txnid = era.latest + 1) (old : record.txnid < era.floor) (fault : Bool) :
    loop.merge record fault = some none ∨ ∃ after ready' place',
      loop.merge record fault = some (some after) ∧
      Fetches era txn freed rest after ready' place' ∧ after.pglast = record.txnid := by
  obtain ⟨member, ahead⟩ := (fetches.ahead record).mp List.mem_cons_self
  have floorLe := era.floorLe
  have maxpg := era.maxpgLe
  have late : record.txnid < txn.txnid := by omega
  obtain ⟨entries, unused, lists, falls⟩ := fetches.books.sound record member ahead late
  have pages := FreeRecord.pages_of_lists lists
  have limbo (p : Nat) (inside : p ∈ pagesOf entries) : place p = .limbo record.txnid :=
    (fetches.books.limbo p record.txnid).mpr
      ⟨ahead, late, record, member, rfl, by rw [pages]; exact inside⟩
  have apart : ∀ id ∈ ready, id ∉ entries := by
    intro id inReady inEntries
    have idle := (fetches.books.idle id.toNat).mpr (Or.inl (List.mem_map_of_mem inReady))
    rw [limbo _ (List.mem_map_of_mem inEntries)] at idle
    cases idle
  have short : entries.length ≤ era.maxpg := by
    have order := @length_le_of_below (pagesOf entries) txn.nextPgno
      (nodup_pagesOf.mpr (Falls.nodup falls)) (fun p inside =>
        fetches.books.lt_next (by rw [limbo p inside]; exact Place.noConfusion))
    rw [length_pagesOf] at order
    exact Nat.le_trans order fetches.books.next.2
  have length := fetches.books.head_length
  rcases loop.merge_spec fetches.books.head lists fetches.books.falls falls apart (by omega)
    fault with failed | ⟨mop, merged, merges, holds, perm, falls'⟩
  · exact Or.inl failed
  · have order := List.pairwise_cons.mp fetches.ascends
    refine Or.inr ⟨_, merged, relocate place {p | place p = .limbo record.txnid} .idle, merges, ?_,
      rfl⟩
    exact
      { books := fetches.books.merge member ahead late
          (fun other member' ahead' => by
            rcases List.mem_cons.mp ((fetches.ahead other).mpr ⟨member', ahead'⟩) with same | later
            · rw [same]
            · exact Nat.le_of_lt (order.1 other later))
          lists holds perm falls'
        guarded := by
          refine Reclaim.Guarded.move fetches.guarded ?_ ?_
          · intro p here
            rcases relocate_eq_iff.mp here with ⟨inside, _⟩ | ⟨_, idle⟩
            · exact Or.inr (fetches.guarded.apart inside old)
            · exact Or.inl idle
          · intro p k here
            rcases relocate_eq_iff.mp here with ⟨_, equal⟩ | ⟨_, limbo⟩
            · cases equal
            · exact limbo
        ahead := by
          intro other
          show other ∈ rest ↔ other ∈ txn.freeDB ∧ record.txnid < other.txnid
          constructor
          · intro later
            exact ⟨((fetches.ahead other).mp (List.mem_cons_of_mem _ later)).1,
              order.1 other later⟩
          · rintro ⟨member', less⟩
            rcases List.mem_cons.mp ((fetches.ahead other).mpr
              ⟨member', Nat.lt_trans ahead less⟩) with same | later
            · exact absurd less (by rw [same]; exact Nat.lt_irrefl _)
            · exact later
        ascends := order.2
        last := rfl
        oldest := fetches.oldest
        pgoldest := fetches.pgoldest }

/-- A round stops with the books as they are, or it has merged the first record. -/
theorem fetchRound_spec (fetches : Fetches era txn freed records loop ready place)
    (number : txn.txnid = era.latest + 1) {n2 : Nat} (fits : n2 < 2 ^ 32) {found : Nat}
    (sound : found ≤ era.floor) (fault : Bool) (retry : Int) :
    (∃ end' after, fetchRound n2 found records.head? fault retry loop = some (.stop end' after) ∧
      Fetches era txn freed records after ready place ∧ after.pglast = loop.pglast ∧
      ∀ i, end' = .found i → EndsRange ready n2 i) ∨
    ∃ record rest retry' after ready' place', records = record :: rest ∧
      fetchRound n2 found records.head? fault retry loop = some (.again retry' after) ∧
      Fetches era txn freed rest after ready' place' ∧ after.pglast = record.txnid := by
  have books := fetches.books
  have maxpg := era.maxpgLe
  have length := books.head_length
  have bound : txn.nextPgno ≤ era.maxpg := books.next.2
  obtain ⟨at', sought, finds⟩ := @seek_spec _ ready books.head books.falls txn.nextPgno
    (fun id member => books.below _ (List.mem_map_of_mem member)) n2 (by omega) (by omega)
  simp only [fetchRound, sought, mopLength_spec books.head (show ready.length < 2 ^ 32 by omega),
    Option.bind_eq_bind, Option.bind_some]
  cases at' with
  | some i => exact Or.inl ⟨_, _, rfl, fetches, rfl, fun i' same => by cases same; exact finds i rfl⟩
  | none =>
      by_cases spent : ready.length > n2 ∧ (if ready.length > n2 then retry - 1 else retry) < 0
      · rw [if_pos spent]
        exact Or.inl ⟨_, _, rfl, fetches, rfl, fun i same => by cases same⟩
      · rw [if_neg spent]
        obtain ⟨recent, first, checked, fetches', pglast, _⟩ :=
          fetches.tooRecent sound (loop.last + 1)
        rw [checked]
        cases recent with
        | true => exact Or.inl ⟨_, _, rfl, fetches', pglast, fun i same => by cases same⟩
        | false =>
            cases records with
            | nil => exact Or.inl ⟨_, _, rfl, fetches', pglast, fun i same => by cases same⟩
            | cons record rest =>
                obtain ⟨recent, second, checked', fetches'', pglast', old⟩ :=
                  fetches'.tooRecent sound record.txnid
                simp only [List.head?_cons, checked']
                cases recent with
                | true =>
                    exact Or.inl ⟨_, _, rfl, fetches'', pglast'.trans pglast,
                      fun i same => by cases same⟩
                | false =>
                    rcases fetches''.merge number (old rfl) fault with
                      failed | ⟨after, ready', place', merges, next, pglast''⟩
                    · rw [failed]
                      exact Or.inl ⟨_, _, rfl, fetches'', pglast'.trans pglast,
                        fun i same => by cases same⟩
                    · rw [merges]
                      exact Or.inr ⟨record, rest, _, after, ready', place', rfl, rfl, next, pglast''⟩

/-- The loop ends, and the books are right. -/
theorem fetchLoop_spec (fetches : Fetches era txn freed records loop ready place)
    (number : txn.txnid = era.latest + 1) {n2 : Nat} (fits : n2 < 2 ^ 32) {found : Nat}
    (sound : found ≤ era.floor) (fault : Nat → Bool) (retry : Int) :
    ∃ end' after ready' place' rest, fetchLoop n2 found fault records retry loop =
        some (end', after) ∧ Fetches era txn freed rest after ready' place' ∧
      Fetched txn loop.pglast after.pglast ∧ ∀ i, end' = .found i → EndsRange ready' n2 i := by
  induction records generalizing retry loop ready place with
  | nil =>
      rcases fetchRound_spec fetches number fits sound false retry with
        ⟨end', after, stops, fetches', same, ends⟩ | ⟨record, rest, _, _, _, _, equal, _⟩
      · refine ⟨end', after, ready, place, [], ?_, fetches', ?_, ends⟩
        · rw [List.head?_nil] at stops
          simp only [fetchLoop, stops, Option.bind_eq_bind, Option.bind_some]
          rfl
        · rw [same]
          exact ⟨Nat.le_refl _, Or.inl rfl⟩
      · cases equal
  | cons record records ih =>
      obtain ⟨member, ahead⟩ := (fetches.ahead record).mp List.mem_cons_self
      rcases fetchRound_spec fetches number fits sound (fault records.length) retry with
        ⟨end', after, stops, fetches', same, ends⟩ |
          ⟨_, _, retry', after, ready', place', equal, again, fetches', pglast⟩
      · refine ⟨end', after, ready, place, record :: records, ?_, fetches', ?_, ends⟩
        · rw [List.head?_cons] at stops
          simp only [fetchLoop, stops, Option.bind_eq_bind, Option.bind_some]
          rfl
        · rw [same]
          exact ⟨Nat.le_refl _, Or.inl rfl⟩
      · cases equal
        obtain ⟨end', final, ready'', place'', rest, looped, fetches'', fetched, ends⟩ :=
          ih fetches' retry'
        refine ⟨end', final, ready'', place'', rest, ?_, fetches'', ?_, ends⟩
        · rw [List.head?_cons] at again
          simp only [fetchLoop, again, Option.bind_eq_bind, Option.bind_some]
          exact looped
        · rw [pglast] at fetched
          exact Fetched.trans ⟨Nat.le_of_lt ahead, Or.inr ⟨record, member, rfl⟩⟩ fetched

end Loop

end DbBench
