import DbBench.Proof.CommitSteps

/-
This file proves that a restart finds a version that is complete, and that every step of the
environment keeps the invariant.
-/

namespace DbBench

open Cells Reclaim Transition

variable {Page : Type}

section Restart

variable {world : World Page} {era : Era Page} {history : Nat → Meta Page}

theorem newFreePgs_block : newFreePgs.Block := Array.size_replicate

/-- The versions up to one of them. -/
def Era.upTo (era : Era Page) (v : Nat) (floorLe : era.floor ≤ v) : Era Page :=
  {era with latest := v, floorLe := floorLe}

/-- The newer meta page counts. -/
theorem pickMeta_of_older {metas : Bool → Meta Page} {v : Nat}
    (number : (metas (toggle v)).txnid = v) (older : (metas (!toggle v)).txnid ≤ v - 1) :
    pickMeta metas = metas (toggle v) := by
  unfold pickMeta
  by_cases odd : toggle v = true
  · rw [odd] at number older ⊢
    have positive : 0 < v := by
      refine Nat.pos_of_ne_zero fun zero => ?_
      rw [zero] at odd
      cases odd
    rw [decide_eq_true (by show (metas (!true)).txnid < _; omega)]
  · rw [Bool.not_eq_true] at odd
    rw [odd] at number older ⊢
    rw [decide_eq_false (by show ¬ _ < (metas (!false)).txnid; omega)]

/-- The newest meta page in the cache is the announced one or the one of the next commit. -/
theorem Storage.pick (storage : Storage world era history) :
    ∃ v ≤ era.latest, pickMeta world.metas = history v := by
  have numbers := storage.chronicle.numbers
  have range := storage.range
  rcases storage.hidden with older | ⟨latest, page⟩
  · refine ⟨world.mtiTxnid, range.1, ?_⟩
    rw [← storage.visible]
    refine pickMeta_of_older ?_ older
    rw [storage.visible]
    exact (numbers _ range.1).1
  · refine ⟨era.latest, Nat.le_refl _, ?_⟩
    have newest : toggle era.latest = !toggle world.mtiTxnid := by
      rw [latest]
      exact toggle_succ _
    rw [← newest] at page
    rw [← page]
    refine pickMeta_of_older ?_ ?_
    · rw [page]
      exact (numbers _ (Nat.le_refl _)).1
    · rw [newest, Bool.not_not, storage.visible, (numbers _ range.1).1]
      omega

/-- The environment as a restart opens it with both meta pages. -/
def World.reopened (world : World Page) (file : File Page) (metas : Bool → Meta Page) :
    World Page :=
  { file := file
    metas := metas
    disk := fun odd => [some (metas odd)]
    mtiTxnid := (pickMeta metas).txnid
    numReaders := 0
    slots := fun _ => ⟨false, none⟩
    readers := fun _ => .out
    env := {world.env with pgoldest := 0}
    freePgs := newFreePgs
    writer := none
    fatal := false }

/-- A version that both meta pages allow is what a restart goes on with. -/
theorem Storage.restarted (storage : Storage world era history) (lost : Nat → Page)
    {metas : Bool → Meta Page} {v : Nat} (low : world.mtiTxnid ≤ v) (high : v ≤ era.latest)
    (current : metas (toggle v) = history v) (older : (metas (!toggle v)).txnid ≤ v - 1) :
    Sound (world.reopened (world.file.survive lost) metas)
      (era.upTo v (Nat.le_trans storage.floor low)) history := by
  have chronicle := storage.chronicle
  have number : (metas (toggle v)).txnid = v := by
    rw [current]
    exact (chronicle.numbers v high).1
  unfold World.reopened
  rw [pickMeta_of_older number older, number]
  exact
    { storage :=
        { chronicle :=
            { live := chronicle.live
              image := chronicle.image
              numbers := fun v' bound => chronicle.numbers v' (Nat.le_trans bound high)
              inside := fun v' bound => chronicle.inside v' (Nat.le_trans bound high)
              accounted := fun v' bound => chronicle.accounted v' (Nat.le_trans bound high)
              first := chronicle.first }
          intact := by
            refine Intact.lose (Intact.change storage.intact fun p kept => ?_) high
            exact if_neg fun member => kept (storage.unsynced p member)
          unsynced := fun p member => by cases member
          maxpg := storage.maxpg
          pgoldest := Nat.zero_le _
          visible := current
          hidden := Or.inl older
          durable := fun page member => Or.inl ⟨_, List.mem_singleton.mp member, current⟩
          older := fun page member => Or.inl ⟨_, List.mem_singleton.mp member, Or.inl older⟩
          floor := Nat.le_trans storage.floor low
          range := ⟨Nat.le_refl _, Nat.le_succ _⟩
          stored := by
            intro v' low' high'
            have order : v ≤ v' := low'
            exact storage.stored v' (Nat.le_trans low order) (Nat.le_trans high' high) }
      table :=
        { owner := fun thread slot known => by cases known
          apart := fun thread other slot known => by cases known
          number := fun thread slot txnid known => by cases known }
      shown :=
        { young := fun thread slot txnid known => by cases known
          sees := fun _ => trivial }
      writes := ⟨rfl, newFreePgs_block⟩ }

/-- Both meta pages were found. -/
theorem World.restart_found (world : World Page) (file : File Page)
    {found : Bool → Option (Meta Page)} {metas : Bool → Meta Page}
    (here : ∀ odd, found odd = some (metas odd)) :
    world.restart file found = some (world.reopened file metas) := by
  have same (odd : Bool) : (if odd = true then metas true else metas false) = metas odd := by
    cases odd <;> rfl
  unfold World.restart World.reopened
  rw [here, here]
  simp only [same]

/-- Without one of the meta pages the file is refused or taken for an empty one. -/
theorem World.restart_missing (world : World Page) (file : File Page)
    {found : Bool → Option (Meta Page)} {odd : Bool} (missing : found odd = none) :
    world.restart file found = none ∨ world.restart file found =
      some (World.create file.pages world.env.maxpg world.env.maxfree1pg) := by
  unfold World.restart
  cases first : found false with
  | none =>
      cases found true with
      | none => exact Or.inr rfl
      | some second => exact Or.inl rfl
  | some page =>
      cases second : found true with
      | none => exact Or.inl rfl
      | some page' =>
          cases odd with
          | false =>
              rw [first] at missing
              cases missing
          | true =>
              rw [second] at missing
              cases missing

/-- What a restart finds. Before the first commit a meta page may be missing. -/
theorem Storage.restart (storage : Storage world era history) (lost : Nat → Page)
    {found : Bool → Option (Meta Page)} (kept : ∀ odd, found odd ∈ world.disk odd) :
    (∃ after v, ∃ low : world.mtiTxnid ≤ v, v ≤ era.latest ∧
      world.restart (world.file.survive lost) found = some after ∧ after.mtiTxnid = v ∧
      Sound after (era.upTo v (Nat.le_trans storage.floor low)) history ∧
      (era.latest = world.mtiTxnid + 1 →
        found (!toggle world.mtiTxnid) = some (history era.latest) → v = era.latest)) ∨
    era.latest = 0 ∧ (world.restart (world.file.survive lost) found = none ∨
      world.restart (world.file.survive lost) found =
        some (World.create (world.file.survive lost).pages world.env.maxpg
          world.env.maxfree1pg)) := by
  have numbers := storage.chronicle.numbers
  have range := storage.range
  rcases storage.durable _ (kept _) with ⟨one, here, current⟩ | ⟨none', latest⟩
  · rcases storage.older _ (kept _) with ⟨other, here', behind⟩ | ⟨none', latest⟩
    · obtain ⟨metas, metasIs, metasIs'⟩ : ∃ metas : Bool → Meta Page,
          metas (toggle world.mtiTxnid) = one ∧ metas (!toggle world.mtiTxnid) = other := by
        refine ⟨fun odd => if odd = toggle world.mtiTxnid then one else other, if_pos rfl,
          if_neg ?_⟩
        exact Bool.not_ne_self _
      have shown : ∀ odd, found odd = some (metas odd) := by
        intro odd
        by_cases same : odd = toggle world.mtiTxnid
        · rw [same, here, metasIs]
        · rw [show odd = !toggle world.mtiTxnid from Bool.eq_not_of_ne same, here', metasIs']
      rcases behind with older | ⟨latest, page⟩
      · have sound := @Storage.restarted _ _ _ _ storage lost metas world.mtiTxnid (Nat.le_refl _)
          range.1 (metasIs.trans current) (by rw [metasIs']; exact older)
        refine Or.inl ⟨_, world.mtiTxnid, Nat.le_refl _, range.1, world.restart_found _ shown, ?_,
          sound, ?_⟩
        · rw [← (numbers _ range.1).1, ← current, ← metasIs]
          refine congrArg Meta.txnid (pickMeta_of_older ?_ (by rw [metasIs']; exact older))
          rw [metasIs, current]
          exact (numbers _ range.1).1
        · intro beyond written
          rw [here', Option.some.injEq] at written
          rw [written, (numbers _ (Nat.le_refl _)).1] at older
          omega
      · have newest : toggle era.latest = !toggle world.mtiTxnid := by
          rw [latest]
          exact toggle_succ _
        have current' : metas (toggle era.latest) = history era.latest := by
          rw [newest, metasIs', page]
        have older : (metas (!toggle era.latest)).txnid ≤ era.latest - 1 := by
          rw [newest, Bool.not_not, metasIs, current, (numbers _ range.1).1]
          omega
        have sound := @Storage.restarted _ _ _ _ storage lost metas era.latest range.1
          (Nat.le_refl _) current' older
        refine Or.inl ⟨_, era.latest, range.1, Nat.le_refl _, world.restart_found _ shown, ?_,
          sound, fun _ _ => rfl⟩
        have number : (metas (toggle era.latest)).txnid = era.latest := by
          rw [current']
          exact (numbers _ (Nat.le_refl _)).1
        exact (congrArg Meta.txnid (pickMeta_of_older number older)).trans number
    · exact Or.inr ⟨latest, world.restart_missing _ none'⟩
  · exact Or.inr ⟨latest, world.restart_missing _ none'⟩

end Restart

end DbBench
