import DbBench.Proof.Versions

/-
This file proves that the steps of the readers keep the invariant of the environment.
-/

namespace DbBench

open Cells Reclaim Transition

variable {Page : Type}

section Readers

variable {world : World Page} {era : Era Page} {history : Nat → Meta Page}

/-- A reader makes a step. Nothing else changes. -/
theorem Sound.move (sound : Sound world era history) {thread : Nat} {reader : Reader Page}
    {slots : Nat → Slot} {numReaders : Nat}
    (table : Table (Function.update world.readers thread reader) slots numReaders)
    (holds : ∀ slot txnid, reader.holds? = some (slot, txnid) →
      (world.readers thread).holds? = some (slot, txnid) ∨ txnid = world.mtiTxnid)
    (sees : Sees world era history reader) :
    Sound {world with
      readers := Function.update world.readers thread reader, slots := slots
      numReaders := numReaders} era history where
  storage := ⟨sound.storage.chronicle, sound.storage.intact, sound.storage.unsynced,
    sound.storage.maxpg, sound.storage.pgoldest, sound.storage.visible, sound.storage.hidden,
    sound.storage.durable, sound.storage.older, sound.storage.floor, sound.storage.range,
    sound.storage.stored⟩
  table := table
  shown :=
    { young := by
        intro other slot txnid known
        dsimp only at known
        by_cases here : other = thread
        · rw [here, Function.update_self] at known
          rcases holds slot txnid known with before | now
          · exact sound.shown.young thread slot txnid before
          · rw [now]
            exact sound.storage.floor
        · rw [Function.update_of_ne here] at known
          exact sound.shown.young other slot txnid known
      sees := by
        intro other
        dsimp only
        by_cases here : other = thread
        · rw [here, Function.update_self]
          exact sees.keep rfl rfl fun v _ failed => failed
        · rw [Function.update_of_ne here]
          exact (sound.shown.sees other).keep rfl rfl fun v _ failed => failed }
  writes := by
    have before := sound.writes
    unfold Writes at before ⊢
    dsimp only
    match active : world.writer with
    | none =>
        rw [active] at before
        exact before
    | some ⟨txn, found, phase⟩ =>
        rw [active] at before
        cases phase with
        | scanning i oldest =>
            obtain ⟨calm, inTxn, bound, scanned⟩ := before
            refine ⟨calm, inTxn, bound, scanned.move thread fun slot txnid known => ?_⟩
            rcases holds slot txnid known with same | now
            · exact Or.inl same
            · exact Or.inr (now ▸ bound)
        | _ => exact before

/-- A reader goes on with its slot and holds nothing that it has to keep. -/
theorem Sound.idle (sound : Sound world era history) {thread slot : Nat}
    (own : (world.readers thread).slot? = some slot) {reader : Reader Page}
    (same : reader.slot? = some slot) {value : Slot} (pid : value.pid = true)
    (stored : ∀ txnid, reader.stored? = some (slot, txnid) → value.txnid = some txnid)
    (holds : reader.holds? = none) :
    Sound ((world.setSlot slot value).setReader thread reader) era history := by
  refine sound.move ?_ ?_ ?_
  · refine sound.table.move own (fun other away => Function.update_of_ne away _ _) ?_ same ?_
    · show (Function.update world.slots slot value slot).pid = true
      rw [Function.update_self]
      exact pid
    · intro txnid known
      show (Function.update world.slots slot value slot).txnid = some txnid
      rw [Function.update_self]
      exact stored txnid known
  · intro slot' txnid known
    rw [holds] at known
    cases known
  · cases reader with
    | begun slot txnid => cases holds
    | copied slot txnid dbs => cases holds
    | sized slot txnid dbs nextPgno => cases holds
    | reading slot txnid dbs nextPgno => cases holds
    | _ => trivial

/-- The old numbers never go back to the page of the announced commit. -/
theorem Sound.backPg (sound : Sound world era history) :
    world.backPg (toggle world.mtiTxnid) = (world.metas (toggle world.mtiTxnid)).lastPg := by
  have writes := sound.writes
  unfold Writes at writes
  unfold World.backPg
  split
  · rename_i txn found txnid lastPg dbs phase
    rw [phase] at writes
    obtain ⟨⟨latest, _, number, _⟩, _⟩ := writes
    rw [number, latest, if_neg (toggle_succ_ne _)]
  · rfl

/-- A reader that has checked its number goes on and keeps it. -/
theorem Sound.advance (sound : Sound world era history) {thread slot txnid : Nat}
    (holds : (world.readers thread).holds? = some (slot, txnid)) {reader : Reader Page}
    (holds' : reader.holds? = some (slot, txnid)) (sees : Sees world era history reader) :
    Sound (world.setReader thread reader) era history := by
  have stored := Reader.stored_of_holds holds
  have own := Reader.slot_of_stored stored
  have stored' := Reader.stored_of_holds holds'
  refine sound.move ?_ ?_ sees
  · refine sound.table.move own (fun _ _ => rfl) (sound.table.owner thread slot own).2
      (Reader.slot_of_stored stored') ?_
    intro txnid' known
    rw [stored', Option.some.injEq, Prod.mk.injEq] at known
    rw [← known.2]
    exact sound.table.number thread slot txnid stored
  · intro slot' txnid' known
    rw [holds'] at known
    exact Or.inl (holds.trans known)

end Readers

end DbBench
