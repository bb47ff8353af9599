import DbBench.Proof.ReaderSteps
import DbBench.Proof.WriterSteps

/-
This file proves that the write of the meta page, its failure and the restart after a crash keep the
invariant of the environment.
-/

namespace DbBench

open Cells Reclaim Transition

variable {Page : Type}

section Publish

variable {world next : World Page} {era era' : Era Page} {history history' : Nat → Meta Page}
  {txn : WriteTxn Page} {dbs : Dbs Page}

/-- The versions with the one that the commit adds. -/
theorem Chronicle.publish (chronicle : Chronicle era history) {place : Nat → Place}
    {page : Meta Page}
    (used : ∀ p, place p = .used ↔ p ∈ page.dbs.inUse ∨ p < 2)
    (number : page.txnid = era.latest + 1 ∧ page.dbs.commit = era.latest + 1)
    (inside : ∀ p ∈ page.dbs.inUse, p ≤ page.lastPg) (accounted : page.Accounted) :
    Chronicle (era.publish place page.dbs.image)
      (Function.update history (era.latest + 1) page) where
  live v := by
    show Function.update era.live (era.latest + 1) {p | place p = .used} v = _
    by_cases here : v = era.latest + 1
    · rw [here, Function.update_self, Function.update_self]
      ext p
      exact used p
    · rw [Function.update_of_ne here, Function.update_of_ne here]
      exact chronicle.live v
  image v := by
    show Function.update era.image (era.latest + 1) page.dbs.image v = _
    by_cases here : v = era.latest + 1
    · rw [here, Function.update_self, Function.update_self]
    · rw [Function.update_of_ne here, Function.update_of_ne here]
      exact chronicle.image v
  numbers v bound := by
    have bound' : v ≤ era.latest + 1 := bound
    by_cases here : v = era.latest + 1
    · rw [here, Function.update_self]
      exact number
    · rw [Function.update_of_ne here]
      exact chronicle.numbers v (by omega)
  inside v bound p member := by
    have bound' : v ≤ era.latest + 1 := bound
    by_cases here : v = era.latest + 1
    · rw [here, Function.update_self] at member ⊢
      exact inside p member
    · rw [Function.update_of_ne here] at member ⊢
      exact chronicle.inside v (by omega) p member
  accounted v bound := by
    have bound' : v ≤ era.latest + 1 := bound
    by_cases here : v = era.latest + 1
    · rw [here, Function.update_self]
      exact accounted
    · rw [Function.update_of_ne here]
      exact chronicle.accounted v (by omega)
  first := by
    rw [Function.update_of_ne (Nat.succ_ne_zero era.latest).symm]
    exact chronicle.first

/-- The commit adds a version, whether or not its meta page can be written. -/
structure Published (world : World Page) (era era' : Era Page) (history history' : Nat → Meta Page)
    (txn : WriteTxn Page) (dbs : Dbs Page) : Prop where
  calm : Calm world era
  number : txn.txnid = world.mtiTxnid + 1
  block : txn.freePgs.Block
  latest : era'.latest = world.mtiTxnid + 1
  floor : era'.floor = era.floor
  maxpg : era'.maxpg = era.maxpg
  old : ∀ v ≤ era.latest, history' v = history v
  new : history' era'.latest = txn.page dbs
  chronicle : Chronicle era' history'
  intact : era'.Intact world.file.pages
  stored : ∀ v, world.mtiTxnid ≤ v → v ≤ era'.latest → ∃ place,
    Stored (history' v).dbs.inUse (history' v).dbs.freeDB ((history' v).lastPg + 1) v era'.maxpg
      place ∧ Reclaim.Guarded era'.live era'.floor v place
  covers : ∀ v, Kept era.floor era.latest v → ∀ p ∈ (history v).dbs.inUse, p ≤ txn.nextPgno - 1

/-- The storage has the new version on one of its meta pages or nowhere yet. -/
theorem Published.storage (published : Published world era era' history history' txn dbs)
    (storage : Storage world era history) (synced : world.file.unsynced = [])
    (file : next.file = world.file) (env : next.env = world.env)
    (number : next.mtiTxnid = world.mtiTxnid)
    (visible : next.metas (toggle world.mtiTxnid) = world.metas (toggle world.mtiTxnid))
    (hidden : Behind era' history' world.mtiTxnid (next.metas (!toggle world.mtiTxnid)))
    (durable : next.disk (toggle world.mtiTxnid) = [some (world.metas (toggle world.mtiTxnid))])
    (older : ∀ page ∈ next.disk (!toggle world.mtiTxnid), ∃ found, page = some found ∧
      Behind era' history' world.mtiTxnid found) : Storage next era' history' where
  chronicle := published.chronicle
  intact := by
    rw [file]
    exact published.intact
  unsynced := by
    rw [file, synced]
    exact fun p member => by cases member
  maxpg := by
    rw [env, published.maxpg]
    exact storage.maxpg
  pgoldest := by
    rw [env, published.floor]
    exact storage.pgoldest
  visible := by
    rw [number, visible, storage.visible, published.old _ storage.range.1]
  hidden := by
    rw [number]
    exact hidden
  durable := by
    rw [number, durable]
    intro page member
    rw [List.mem_singleton.mp member]
    exact Or.inl ⟨_, rfl, by rw [storage.visible, published.old _ storage.range.1]⟩
  older := by
    rw [number]
    exact fun page member => Or.inl (older page member)
  floor := by
    rw [number, published.floor]
    exact storage.floor
  range := by
    rw [number, published.latest]
    exact ⟨Nat.le_succ _, Nat.le_refl _⟩
  stored := by
    rw [number]
    exact published.stored

/-- A reader goes on with an old version, or it may find the new one. -/
theorem Published.sees (published : Published world era era' history history' txn dbs)
    {reader : Reader Page} (sees : Sees world era history reader)
    (young : ∀ slot txnid, reader.holds? = some (slot, txnid) → era.floor ≤ txnid)
    (back : writesBack world.writer = false)
    (number : next.mtiTxnid = world.mtiTxnid)
    (metas : ∀ odd, next.metas odd = world.metas odd ∨
      odd = toggle txn.txnid ∧ next.metas odd = txn.page dbs)
    (back' : ∀ odd, next.backPg odd = (world.metas odd).lastPg ∨
      next.backPg odd = txn.nextPgno - 1)
    (fresh : next.failing = true ∨ ∀ odd, next.backPg odd = (next.metas odd).lastPg) :
    Sees next era' history' reader := by
  have latest := published.calm.1
  have grown : era.latest ≤ era'.latest := by
    rw [published.latest, latest]
    exact Nat.le_succ _
  have written (v : Nat) : ¬ Unwritten world v := by
    intro failed
    have failing := failed.1
    unfold World.failing at failing
    rw [published.calm.2, back] at failing
    cases failing
  have reaches {txnid nextPgno : Nat} {dbs : Dbs Page}
      (known : Reaches world era history txnid dbs nextPgno) :
      Reaches next era' history' txnid dbs nextPgno := by
    obtain ⟨v, roots, inside⟩ := known
    exact ⟨v, roots.grow grown published.old,
      inside.imp_left fun failed => absurd failed (written v)⟩
  have shows {slot txnid : Nat} {dbs' : Dbs Page} (holds : reader.holds? = some (slot, txnid))
      (known : Displays world era history txnid dbs') : Displays next era' history' txnid dbs' := by
    obtain ⟨v, roots, failed | inside⟩ := known
    · exact absurd failed (written v)
    · refine ⟨v, roots.grow grown published.old, Or.inr fun p member => ?_⟩
      have first := (inside p member).1
      have old := young slot txnid holds
      have order := roots.1
      have covered := published.covers v ⟨by omega, roots.2.1⟩ p (roots.2.2.2 ▸ member)
      refine ⟨?_, ?_⟩
      · rcases metas (toggle txnid) with same | ⟨_, page⟩
        · rw [same]
          exact first
        · rw [page]
          exact covered
      · rcases back' (toggle txnid) with same | page
        · rw [same]
          exact first
        · rw [page]
          exact covered
  cases reader with
  | begun slot txnid =>
      show Displays next era' history' txnid (next.metas (toggle txnid)).dbs
      rcases metas (toggle txnid) with same | ⟨odd, page⟩
      · rw [same]
        exact shows rfl sees
      · obtain ⟨v, roots, _⟩ := sees
        have order := roots.1
        have bound := roots.2.1
        refine ⟨era'.latest, ⟨by omega, Nat.le_refl _, ?_, ?_⟩, ?_⟩
        · rw [odd, published.latest, published.number]
        · rw [page, published.new]
        · rcases fresh with failing | back
          · refine Or.inl ⟨failing, ?_⟩
            rw [number, published.latest]
            exact Nat.lt_succ_self _
          · refine Or.inr fun p member => ?_
            rw [back, page]
            rw [page] at member
            have inside := published.chronicle.inside _ (Nat.le_refl _) p (published.new ▸ member)
            rw [published.new] at inside
            exact ⟨inside, inside⟩
  | copied slot txnid dbs => exact shows rfl sees
  | sized slot txnid dbs nextPgno => exact reaches sees
  | reading slot txnid dbs nextPgno => exact reaches sees
  | _ => trivial

/-- The old numbers come back with the roots of the commit that failed. -/
theorem Sees.writeBack {reader : Reader Page} (sees : Sees world era history reader)
    (latest : era.latest = world.mtiTxnid + 1) (failing : next.failing = true)
    (number : next.mtiTxnid = world.mtiTxnid) {odd : Bool} (newest : toggle era.latest = odd)
    {page : Meta Page} (roots : page.dbs = (history era.latest).dbs)
    (lastPg : page.lastPg = world.backPg odd)
    (metas : ∀ b, next.metas b = world.metas b ∨ b = odd ∧ next.metas b = page)
    (back : ∀ b, next.backPg b = (next.metas b).lastPg) : Sees next era history reader := by
  have unwritten {v : Nat} (failed : Unwritten world v) : Unwritten next v := by
    refine ⟨failing, ?_⟩
    rw [number]
    exact failed.2
  have shows {txnid : Nat} {dbs : Dbs Page} (known : Displays world era history txnid dbs) :
      Displays next era history txnid dbs := by
    obtain ⟨v, roots, failed | inside⟩ := known
    · exact ⟨v, roots, Or.inl (unwritten failed)⟩
    · refine ⟨v, roots, Or.inr fun p member => ?_⟩
      have bounds := inside p member
      rw [back]
      rcases metas (toggle txnid) with same | ⟨here, equal⟩
      · rw [same]
        exact ⟨bounds.1, bounds.1⟩
      · rw [equal, lastPg, ← here]
        exact ⟨bounds.2, bounds.2⟩
  cases reader with
  | begun slot txnid =>
      show Displays next era history txnid (next.metas (toggle txnid)).dbs
      rcases metas (toggle txnid) with same | ⟨here, equal⟩
      · rw [same]
        exact shows sees
      · obtain ⟨v, known, _⟩ := sees
        refine ⟨era.latest, ⟨Nat.le_trans known.1 known.2.1, Nat.le_refl _, ?_, ?_⟩,
          Or.inl ⟨failing, ?_⟩⟩
        · rw [newest, here]
        · rw [equal, roots]
        · rw [number, latest]
          exact Nat.lt_succ_self _
  | copied slot txnid dbs => exact shows sees
  | sized slot txnid dbs nextPgno =>
      obtain ⟨v, known, inside⟩ := sees
      exact ⟨v, known, inside.imp_left unwritten⟩
  | reading slot txnid dbs nextPgno =>
      obtain ⟨v, known, inside⟩ := sees
      exact ⟨v, known, inside.imp_left unwritten⟩
  | _ => trivial

end Publish

section Commit

variable {world : World Page} {era : Era Page} {history : Nat → Meta Page}

end Commit

end DbBench
