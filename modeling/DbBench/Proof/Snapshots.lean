import DbBench.Proof.Restarts

/-
This file contains the results about the pages of liblmdb in whole runs of the environment.
-/

namespace DbBench

open Cells Reclaim Transition

variable {Page : Type}

section Consistent

variable {world : World Page} {era : Era Page} {history : Nat → Meta Page}

theorem Sound.accounted (sound : Sound world era history) : world.Accounted := by
  have storage := sound.storage
  obtain ⟨v, bound, newest⟩ := storage.pick
  constructor
  · rw [storage.visible]
    exact storage.chronicle.accounted _ storage.range.1
  · rw [newest]
    exact storage.chronicle.accounted v bound

/-- A version that is kept is in the file. -/
theorem Storage.holds (storage : Storage world era history) {v : Nat}
    (kept : Kept era.floor era.latest v) : (history v).dbs.Intact world.file := by
  intro p member
  rw [← storage.chronicle.image v]
  refine storage.intact v kept p ?_
  rw [storage.chronicle.live v]
  exact Or.inl member

theorem Sound.isolated (sound : Sound world era history) : world.Isolated := by
  intro thread slot txnid dbs nextPgno phase
  have sees := sound.shown.sees thread
  rw [phase] at sees
  obtain ⟨v, ⟨order, bound, same, roots⟩, inside⟩ := sees
  have young := sound.shown.young thread slot txnid (by rw [phase]; rfl)
  have range := sound.storage.range
  have commit : dbs.commit = v := by
    rw [roots]
    exact (sound.storage.chronicle.numbers v bound).2
  have intact : dbs.Intact world.file := by
    rw [roots]
    exact sound.storage.holds ⟨by omega, bound⟩
  refine ⟨⟨by omega, by rw [commit]; exact same, by omega⟩, intact, ?_⟩
  intro pgno answer next fetched
  unfold World.fetch at fetched
  rw [phase] at fetched
  dsimp only at fetched
  by_cases member : pgno ∈ dbs.inUse
  · rw [if_pos member] at fetched
    by_cases outside : pgno ≥ nextPgno
    · rw [if_pos outside] at fetched
      cases fetched
      rcases inside with ⟨failing, later⟩ | inside
      · exact Or.inr ⟨rfl, by omega, failing⟩
      · exact absurd (inside pgno member) (Nat.not_lt_of_le outside)
    · rw [if_neg outside] at fetched
      cases fetched
      rw [intact pgno member]
      exact Or.inl rfl
  · rw [if_neg member] at fetched
    cases fetched

/-- The newest version is a later one when its meta page has been written or the write has
failed. -/
theorem Sound.latest (sound : Sound world era history) :
    era.latest = if world.written || world.failing then world.mtiTxnid + 1 else world.mtiTxnid := by
  have writes := sound.writes
  unfold Writes at writes
  unfold World.written World.failing
  match active : world.writer with
  | none =>
      rw [active] at writes
      rw [writes.1]
      cases world.fatal <;> rfl
  | some ⟨txn, found, phase⟩ =>
      rw [active] at writes
      cases phase with
      | working => rw [writes.1.1, writes.1.2]; rfl
      | scanning i oldest => rw [writes.1.1, writes.1.2]; rfl
      | flushing dbs ahead => rw [writes.1.1, writes.1.2]; rfl
      | synced dbs => rw [writes.1.1, writes.1.2]; rfl
      | written => rw [writes.1.1, writes.1.2.1]; rfl
      | unwritten txnid lastPg dbs => rw [writes.1.1, writes.1.2.1]; rfl
      | writtenBack => rw [writes.1, writes.2.1]; rfl
      | failed => rw [writes.1, writes.2.1]; rfl

end Consistent

end DbBench
