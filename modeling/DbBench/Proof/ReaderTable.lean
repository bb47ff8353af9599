import DbBench.Construction.MdbTxn

/-
This file proves that each reader has its own slot, and that the scan of the slots finds the oldest
reader although readers come and go meanwhile.
-/

namespace DbBench

variable {Page : Type}

/-- The slot of a reader. -/
def Reader.slot? : Reader Page → Option Nat
  | .out => none
  | .waiting slot => some slot
  | .loaded slot _ => some slot
  | .announced slot _ => some slot
  | .begun slot _ => some slot
  | .copied slot _ _ => some slot
  | .sized slot _ _ _ => some slot
  | .reading slot _ _ _ => some slot

/-- The slot and the number that the reader has stored there. -/
def Reader.stored? : Reader Page → Option (Nat × Nat)
  | .announced slot txnid => some (slot, txnid)
  | .begun slot txnid => some (slot, txnid)
  | .copied slot txnid _ => some (slot, txnid)
  | .sized slot txnid _ _ => some (slot, txnid)
  | .reading slot txnid _ _ => some (slot, txnid)
  | _ => none

/-- The slot and the number of a reader that has checked its number. -/
def Reader.holds? : Reader Page → Option (Nat × Nat)
  | .begun slot txnid => some (slot, txnid)
  | .copied slot txnid _ => some (slot, txnid)
  | .sized slot txnid _ _ => some (slot, txnid)
  | .reading slot txnid _ _ => some (slot, txnid)
  | _ => none

theorem Reader.stored_of_holds {reader : Reader Page} {held : Nat × Nat}
    (holds : reader.holds? = some held) : reader.stored? = some held := by
  cases reader with
  | begun slot txnid => exact holds
  | copied slot txnid dbs => exact holds
  | sized slot txnid dbs nextPgno => exact holds
  | reading slot txnid dbs nextPgno => exact holds
  | _ => cases holds

theorem Reader.slot_of_stored {reader : Reader Page} {slot txnid : Nat}
    (stored : reader.stored? = some (slot, txnid)) : reader.slot? = some slot := by
  cases reader with
  | announced slot' txnid' =>
      cases stored
      rfl
  | begun slot' txnid' =>
      cases stored
      rfl
  | copied slot' txnid' dbs =>
      cases stored
      rfl
  | sized slot' txnid' dbs nextPgno =>
      cases stored
      rfl
  | reading slot' txnid' dbs nextPgno =>
      cases stored
      rfl
  | _ => cases stored

/-- The slots of the readers are in the table and belong to one thread each. -/
structure Table (readers : Nat → Reader Page) (slots : Nat → Slot) (numReaders : Nat) : Prop where
  owner : ∀ thread slot, (readers thread).slot? = some slot →
    slot < numReaders ∧ (slots slot).pid = true
  apart : ∀ thread other slot, (readers thread).slot? = some slot →
    (readers other).slot? = some slot → thread = other
  number : ∀ thread slot txnid, (readers thread).stored? = some (slot, txnid) →
    (slots slot).txnid = some txnid

section Table

variable {readers : Nat → Reader Page} {slots slots' : Nat → Slot} {numReaders : Nat}

/-- A reader goes on with its own slot. -/
theorem Table.move (table : Table readers slots numReaders) {thread slot : Nat}
    (own : (readers thread).slot? = some slot)
    (others : ∀ other, other ≠ slot → slots' other = slots other)
    (pid : (slots' slot).pid = true) {reader : Reader Page} (same : reader.slot? = some slot)
    (stored : ∀ txnid, reader.stored? = some (slot, txnid) → (slots' slot).txnid = some txnid) :
    Table (Function.update readers thread reader) slots' numReaders := by
  have slotOf (other : Nat) : (Function.update readers thread reader other).slot? =
      (readers other).slot? := by
    by_cases here : other = thread
    · rw [here, Function.update_self, same, own]
    · rw [Function.update_of_ne here]
  exact
    { owner := by
        intro other place known
        rw [slotOf] at known
        have before := table.owner other place known
        refine ⟨before.1, ?_⟩
        by_cases here : place = slot
        · rw [here]
          exact pid
        · rw [others place here]
          exact before.2
      apart := by
        intro one other place known known'
        rw [slotOf] at known known'
        exact table.apart one other place known known'
      number := by
        intro other place txnid known
        by_cases here : other = thread
        · rw [here, Function.update_self] at known
          have equal := Reader.slot_of_stored known
          rw [same, Option.some.injEq] at equal
          rw [← equal] at known ⊢
          exact stored txnid known
        · rw [Function.update_of_ne here] at known
          have away : place ≠ slot := fun equal =>
            here (table.apart other thread place (Reader.slot_of_stored known) (equal ▸ own))
          rw [others place away]
          exact table.number other place txnid known }

/-- A thread takes a slot that no reader has. -/
theorem Table.claim (table : Table readers slots numReaders) {thread slot : Nat}
    (free : ∀ other, (readers other).slot? ≠ some slot)
    {numReaders' : Nat} (grown : numReaders ≤ numReaders') (inside : slot < numReaders') :
    Table (Function.update readers thread (.waiting slot))
      (Function.update slots slot ⟨true, none⟩) numReaders' where
  owner other place known := by
    by_cases here : other = thread
    · rw [here, Function.update_self] at known
      cases known
      exact ⟨inside, by rw [Function.update_self]⟩
    · rw [Function.update_of_ne here] at known
      have before := table.owner other place known
      have away : place ≠ slot := fun equal => free other (equal ▸ known)
      rw [Function.update_of_ne away]
      exact ⟨Nat.lt_of_lt_of_le before.1 grown, before.2⟩
  apart one other place known known' := by
    by_cases here : one = thread
    · by_cases here' : other = thread
      · rw [here, here']
      · rw [here, Function.update_self] at known
        rw [Function.update_of_ne here'] at known'
        cases known
        exact absurd known' (free other)
    · rw [Function.update_of_ne here] at known
      by_cases here' : other = thread
      · rw [here', Function.update_self] at known'
        cases known'
        exact absurd known (free one)
      · rw [Function.update_of_ne here'] at known'
        exact table.apart one other place known known'
  number other place txnid known := by
    by_cases here : other = thread
    · rw [here, Function.update_self] at known
      cases known
    · rw [Function.update_of_ne here] at known
      have away : place ≠ slot := fun equal =>
        free other (equal ▸ Reader.slot_of_stored known)
      rw [Function.update_of_ne away]
      exact table.number other place txnid known

/-- A thread gives its slot back. -/
theorem Table.exit (table : Table readers slots numReaders) {thread slot : Nat}
    (own : (readers thread).slot? = some slot)
    (others : ∀ other, other ≠ slot → slots' other = slots other) :
    Table (Function.update readers thread .out) slots' numReaders := by
  have away {other place : Nat} (here : other ≠ thread)
      (known : (readers other).slot? = some place) : place ≠ slot := fun equal =>
    here (table.apart other thread place known (equal ▸ own))
  exact
    { owner := by
        intro other place known
        by_cases here : other = thread
        · rw [here, Function.update_self] at known
          cases known
        · rw [Function.update_of_ne here] at known
          rw [others place (away here known)]
          exact table.owner other place known
      apart := by
        intro one other place known known'
        by_cases here : one = thread
        · rw [here, Function.update_self] at known
          cases known
        · by_cases here' : other = thread
          · rw [here', Function.update_self] at known'
            cases known'
          · rw [Function.update_of_ne here] at known
            rw [Function.update_of_ne here'] at known'
            exact table.apart one other place known known'
      number := by
        intro other place txnid known
        by_cases here : other = thread
        · rw [here, Function.update_self] at known
          cases known
        · rw [Function.update_of_ne here] at known
          rw [others place (away here (Reader.slot_of_stored known))]
          exact table.number other place txnid known }

/-- The search for a free slot finds none that a reader has. -/
theorem Table.free (table : Table readers slots numReaders) (thread : Nat) :
    (readers thread).slot? ≠ some (freeSlot slots numReaders) := by
  intro known
  obtain ⟨inside, pid⟩ := table.owner thread _ known
  unfold freeSlot at inside pid
  cases sought : (List.range numReaders).find? fun i => (slots i).pid = false with
  | none =>
      rw [sought] at inside
      exact Nat.lt_irrefl _ inside
  | some i =>
      rw [sought] at pid
      have unused := List.find?_some sought
      rw [decide_eq_true_eq] at unused
      rw [Option.getD_some, unused] at pid
      cases pid

/-- The scan has passed the slots from `i` on, and the readers there are not older than `oldest`. -/
def Scanned (readers : Nat → Reader Page) (i oldest : Nat) : Prop :=
  ∀ thread slot txnid, (readers thread).holds? = some (slot, txnid) → slot < i ∨ oldest ≤ txnid

theorem olderReader_le (slot : Slot) (oldest : Nat) : olderReader slot oldest ≤ oldest := by
  unfold olderReader
  split
  · split
    · omega
    · exact Nat.le_refl _
  · exact Nat.le_refl _

/-- The scan looks at one more slot. -/
theorem Scanned.step {i oldest : Nat} (scanned : Scanned readers (i + 1) oldest)
    (table : Table readers slots numReaders) :
    Scanned readers i (olderReader (slots i) oldest) := by
  intro thread slot txnid holds
  have lower := olderReader_le (slots i) oldest
  rcases scanned thread slot txnid holds with before | after
  · by_cases here : slot = i
    · subst here
      have stored := Reader.stored_of_holds holds
      have pid := (table.owner thread slot (Reader.slot_of_stored stored)).2
      have number := table.number thread slot txnid stored
      refine Or.inr ?_
      unfold olderReader
      rw [pid, number]
      dsimp only
      split <;> omega
    · exact Or.inl (by omega)
  · exact Or.inr (by omega)

/-- A reader that checks its number during the scan is young enough. -/
theorem Scanned.move {i oldest : Nat} (scanned : Scanned readers i oldest) (thread : Nat)
    {reader : Reader Page}
    (young : ∀ slot txnid, reader.holds? = some (slot, txnid) →
      (readers thread).holds? = some (slot, txnid) ∨ oldest ≤ txnid) :
    Scanned (Function.update readers thread reader) i oldest := by
  intro other slot txnid holds
  by_cases here : other = thread
  · rw [here, Function.update_self] at holds
    rcases young slot txnid holds with before | after
    · exact scanned thread slot txnid before
    · exact Or.inr after
  · rw [Function.update_of_ne here] at holds
    exact scanned other slot txnid holds

end Table

end DbBench
