import Mathlib.Data.Set.Basic
import Mathlib.Logic.Function.Basic
import Mathlib.Tactic.Tauto

/-
This library is about resources that the versions of a structure share. A writer builds the next
version beside the readers of older ones and must not reuse what they still see.
-/

namespace Reclaim

variable {Resource Value : Type}

/-- Where the writer of the next version finds a resource. -/
inductive Place where
  | used
  | idle
  | retired
  | limbo (version : Nat)
  deriving DecidableEq

open Classical in
/-- Some resources go to another place. -/
noncomputable def relocate (place : Resource → Place) (moved : Set Resource) (target : Place) :
    Resource → Place :=
  fun resource => if resource ∈ moved then target else place resource

theorem relocate_inside {place : Resource → Place} {moved : Set Resource} {target : Place}
    {resource : Resource} (inside : resource ∈ moved) :
    relocate place moved target resource = target := if_pos inside

theorem relocate_outside {place : Resource → Place} {moved : Set Resource} {target : Place}
    {resource : Resource} (outside : resource ∉ moved) :
    relocate place moved target resource = place resource := if_neg outside

theorem relocate_eq_iff {place : Resource → Place} {moved : Set Resource} {target other : Place}
    {resource : Resource} : relocate place moved target resource = other ↔
      resource ∈ moved ∧ target = other ∨ resource ∉ moved ∧ place resource = other := by
  by_cases inside : resource ∈ moved
  · rw [relocate_inside inside]
    tauto
  · rw [relocate_outside inside]
    tauto

/-- A move from one place to another does not change what is in a third one. -/
theorem relocate_other {place : Resource → Place} {moved : Set Resource}
    {source target other : Place} {resource : Resource}
    (here : ∀ resource ∈ moved, place resource = source) (away : source ≠ other)
    (away' : target ≠ other) :
    relocate place moved target resource = other ↔ place resource = other := by
  rw [relocate_eq_iff]
  constructor
  · rintro (⟨_, equal⟩ | ⟨_, there⟩)
    · exact absurd equal away'
    · exact there
  · intro there
    refine Or.inr ⟨fun inside => ?_, there⟩
    rw [here resource inside] at there
    exact away there

/-- A reader or a restart may still see these versions. -/
def Kept (floor latest version : Nat) : Prop := floor ≤ version + 1 ∧ version ≤ latest

/-- No kept version uses the resource. -/
def Apart (live : Nat → Set Resource) (floor latest : Nat) (resource : Resource) : Prop :=
  ∀ version, Kept floor latest version → resource ∉ live version

theorem Kept.lower {floor floor' latest version : Nat} (kept : Kept floor' latest version)
    (raised : floor ≤ floor') : Kept floor latest version :=
  ⟨Nat.le_trans raised kept.1, kept.2⟩

theorem Apart.raise {live : Nat → Set Resource} {floor floor' latest : Nat} {resource : Resource}
    (apart : Apart live floor latest resource) (raised : floor ≤ floor') :
    Apart live floor' latest resource :=
  fun version kept => apart version (kept.lower raised)

/-- The idle resources are apart from all kept versions, and a resource in limbo is apart from the
kept versions that are not older than the one that retired it. -/
structure Guarded (live : Nat → Set Resource) (floor latest : Nat) (place : Resource → Place) :
    Prop where
  idle : ∀ resource, place resource = .idle → Apart live floor latest resource
  limbo : ∀ resource version, place resource = .limbo version → ∀ later, version ≤ later →
    Kept floor latest later → resource ∉ live later

namespace Guarded

variable {live : Nat → Set Resource} {floor latest : Nat} {place place' : Resource → Place}

theorem raise (guarded : Guarded live floor latest place) {floor' : Nat}
    (raised : floor ≤ floor') : Guarded live floor' latest place where
  idle resource here := (guarded.idle resource here).raise raised
  limbo resource version here later order kept :=
    guarded.limbo resource version here later order (kept.lower raised)

/-- The writer may move resources as long as what becomes idle is apart from the kept versions. -/
theorem move (guarded : Guarded live floor latest place)
    (idle : ∀ resource, place' resource = .idle → place resource = .idle ∨
      Apart live floor latest resource)
    (limbo : ∀ resource version, place' resource = .limbo version →
      place resource = .limbo version) : Guarded live floor latest place' where
  idle resource here := by
    rcases idle resource here with before | apart
    · exact guarded.idle resource before
    · exact apart
  limbo resource version here := guarded.limbo resource version (limbo resource version here)

/-- What an old version has retired is apart from all kept versions. -/
theorem apart (guarded : Guarded live floor latest place) {resource : Resource} {version : Nat}
    (here : place resource = .limbo version) (old : version < floor) :
    Apart live floor latest resource := by
  intro later kept
  have order := kept.1
  exact guarded.limbo resource version here later (by omega) kept

end Guarded

/-- The resources that the writer uses make up the next version. -/
def publish (live : Nat → Set Resource) (latest : Nat) (place : Resource → Place) :
    Nat → Set Resource :=
  Function.update live (latest + 1) {resource | place resource = .used}

theorem publish_latest (live : Nat → Set Resource) (latest : Nat) (place : Resource → Place) :
    publish live latest place (latest + 1) = {resource | place resource = .used} :=
  Function.update_self _ _ _

theorem publish_before (live : Nat → Set Resource) {latest version : Nat} (old : version ≤ latest)
    (place : Resource → Place) : publish live latest place version = live version :=
  Function.update_of_ne (by omega) _ _

/-- After the publication the retired resources are in limbo under the new version. The idle ones
may wait under any version. -/
theorem Guarded.publish {live : Nat → Set Resource} {floor latest : Nat}
    {place place' : Resource → Place} (guarded : Guarded live floor latest place)
    (idle : ∀ resource, place' resource = .idle → place resource = .idle)
    (limbo : ∀ resource version, place' resource = .limbo version →
      place resource = .limbo version ∨ place resource = .idle ∨
        place resource = .retired ∧ version = latest + 1) :
    Guarded (publish live latest place) floor (latest + 1) place' where
  idle resource here := by
    have before := idle resource here
    intro later kept
    rcases Nat.lt_or_eq_of_le kept.2 with less | equal
    · rw [publish_before live (Nat.le_of_lt_succ less)]
      exact guarded.idle resource before later ⟨kept.1, Nat.le_of_lt_succ less⟩
    · rw [equal, publish_latest, Set.mem_ofPred_eq, before]
      exact Place.noConfusion
  limbo resource version here later order kept := by
    have before := limbo resource version here
    rcases Nat.lt_or_eq_of_le kept.2 with less | equal
    · rw [publish_before live (Nat.le_of_lt_succ less)]
      have kept' : Kept floor latest later := ⟨kept.1, Nat.le_of_lt_succ less⟩
      rcases before with limbo | idle | ⟨_, last⟩
      · exact guarded.limbo resource version limbo later order kept'
      · exact guarded.idle resource idle later kept'
      · omega
    · rw [equal, publish_latest, Set.mem_ofPred_eq]
      rcases before with limbo | idle | ⟨retired, _⟩
      · rw [limbo]
        exact Place.noConfusion
      · rw [idle]
        exact Place.noConfusion
      · rw [retired]
        exact Place.noConfusion

/-- The store still holds every kept version. -/
def Intact (live : Nat → Set Resource) (image : Nat → Resource → Value) (floor latest : Nat)
    (store : Resource → Value) : Prop :=
  ∀ version, Kept floor latest version → ∀ resource ∈ live version,
    store resource = image version resource

namespace Intact

variable {live : Nat → Set Resource} {image : Nat → Resource → Value} {floor latest : Nat}
  {store : Resource → Value}

theorem raise (intact : Intact live image floor latest store) {floor' : Nat}
    (raised : floor ≤ floor') : Intact live image floor' latest store :=
  fun version kept => intact version (kept.lower raised)

/-- The newest versions may be lost. -/
theorem lose (intact : Intact live image floor latest store) {earlier : Nat}
    (order : earlier ≤ latest) : Intact live image floor earlier store :=
  fun version kept => intact version ⟨kept.1, Nat.le_trans kept.2 order⟩

/-- A change of resources that are apart from the kept versions. -/
theorem change (intact : Intact live image floor latest store) {store' : Resource → Value}
    (other : ∀ resource, ¬ Apart live floor latest resource → store' resource = store resource) :
    Intact live image floor latest store' := by
  intro version kept resource member
  rw [other resource fun apart => apart version kept member]
  exact intact version kept resource member

/-- A new version is intact when the store holds its resources at the publication. -/
theorem publish (intact : Intact live image floor latest store) {place : Resource → Place}
    {fresh : Resource → Value} (held : ∀ resource, place resource = .used →
      store resource = fresh resource) :
    Intact (Reclaim.publish live latest place) (Function.update image (latest + 1) fresh) floor
      (latest + 1) store := by
  intro version kept resource member
  rcases Nat.lt_or_eq_of_le kept.2 with less | equal
  · rw [publish_before live (Nat.le_of_lt_succ less)] at member
    rw [Function.update_of_ne (by omega)]
    exact intact version ⟨kept.1, Nat.le_of_lt_succ less⟩ resource member
  · rw [equal, publish_latest] at member
    rw [equal, Function.update_self]
    exact held resource member

end Intact

end Reclaim
