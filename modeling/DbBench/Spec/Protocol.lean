import DbBench.Construction.StateDB

/-
This file states the protocol of a backend handle: an `open` acquires it, data operations use
it, and `close` and the destructor release it.
-/

namespace DbBench

open Transition

section
variable {Object World Fault : Type}

/-- An observer knows whether the latest lifecycle call was an `open` that returned true, and
the first identity that could be created since the latest `open` began. -/
structure Watch where
  opened : Bool
  since : Nat

/-- Nothing was opened yet. -/
def Watch.none : Watch := ⟨false, 0⟩

def Watch.after (watch : Watch) (frontier : Nat) (reply : Reply) : Action → Watch
  | .opening _ => ⟨decide (reply = .flag true), frontier⟩
  | .closing => {watch with opened := false}
  | .call _ => watch

/-- This machine runs an adapter under the eyes of the observer. -/
def watched (act : Machine (Object × World) (Action × Fault) Reply Misuse)
    (frontier : World → Nat) : Machine ((Object × World) × Watch) (Action × Fault) Reply Misuse :=
  fun state input => do
    let (reply, next) ← act state.1 input
    pure (reply, next, state.2.after (frontier state.1.2) reply input.1)

/-- Data operations occur only while the latest lifecycle call is an `open` that returned true. -/
def InContract (state : (Object × World) × Watch) (input : Action × Fault) : Prop :=
  ∀ request, input.1 = .call request → state.2.opened = true

/-- A step complies when a data operation is issued on the handles of the latest `open` and no
library object is used or released after its release. A deadlock is no matter of handles. -/
def Complies (act : Machine (Object × World) (Action × Fault) Reply Misuse)
    (issued : (Object × World) × Watch → Call → Prop) (state : (Object × World) × Watch)
    (input : Action × Fault) : Prop :=
  (∀ request, input.1 = .call request → issued state request) ∧
    ∀ misuse, act state.1 input = .error misuse → misuse = .deadlock

/-- Every run of a fresh object that keeps the contract complies, the destructor included, which
is one more `close`. -/
def FollowsProtocol (act : Machine (Object × World) (Action × Fault) Reply Misuse)
    (frontier : World → Nat) (issued : (Object × World) × Watch → Call → Prop) (fresh : Object) :
    Prop :=
  ∀ (world : World) (inputs : List (Action × Fault)),
    Along (watched act frontier) InContract ((fresh, world), Watch.none) inputs →
    Along (watched act frontier) (Complies act issued) ((fresh, world), Watch.none) inputs

/-- If this run keeps the contract and meets this condition, it complies. -/
def FollowsProtocolIf (act : Machine (Object × World) (Action × Fault) Reply Misuse)
    (frontier : World → Nat) (issued : (Object × World) × Watch → Call → Prop) (fresh : Object)
    (meets : (Object × World) × Watch → Action × Fault → Prop) (world : World)
    (inputs : List (Action × Fault)) : Prop :=
  Along (watched act frontier) InContract ((fresh, world), Watch.none) inputs →
    Along (watched act frontier) meets ((fresh, world), Watch.none) inputs →
    Along (watched act frontier) (Complies act issued) ((fresh, world), Watch.none) inputs

/-- If this run keeps the contract, it complies exactly when it meets this condition. -/
def FollowsProtocolIff (act : Machine (Object × World) (Action × Fault) Reply Misuse)
    (frontier : World → Nat) (issued : (Object × World) × Watch → Call → Prop) (fresh : Object)
    (meets : (Object × World) × Watch → Action × Fault → Prop) (world : World)
    (inputs : List (Action × Fault)) : Prop :=
  Along (watched act frontier) InContract ((fresh, world), Watch.none) inputs →
    (Along (watched act frontier) (Complies act issued) ((fresh, world), Watch.none) inputs ↔
      Along (watched act frontier) meets ((fresh, world), Watch.none) inputs)

/-- A step of the watched machine is a step of the adapter. -/
theorem watched_eq_ok {act : Machine (Object × World) (Action × Fault) Reply Misuse}
    {frontier : World → Nat} {state next : (Object × World) × Watch} {input : Action × Fault}
    {reply : Reply} (step : watched act frontier state input = .ok (reply, next)) :
    act state.1 input = .ok (reply, next.1) ∧
      next.2 = state.2.after (frontier state.1.2) reply input.1 := by
  obtain ⟨⟨answer, reached⟩, taken, equal⟩ := (bind_eq_ok _ _ _).mp step
  cases equal
  exact ⟨taken, rfl⟩

/-- A condition that agrees with compliance in every step of an invariant gives exactly the runs
that comply. -/
theorem followsProtocolIff {act : Machine (Object × World) (Action × Fault) Reply Misuse}
    {frontier : World → Nat} {issued : (Object × World) × Watch → Call → Prop} {fresh : Object}
    {meets : (Object × World) × Watch → Action × Fault → Prop}
    (Keeps : (Object × World) × Watch → Prop)
    (start : ∀ world, Keeps ((fresh, world), Watch.none))
    (same : ∀ state input, Keeps state → InContract state input →
      (Complies act issued state input ↔ meets state input))
    (step : ∀ state input reply next, Keeps state → InContract state input → meets state input →
      act state.1 input = .ok (reply, next) →
      Keeps (next, state.2.after (frontier state.1.2) reply input.1))
    (world : World) (inputs : List (Action × Fault)) :
    FollowsProtocolIff act frontier issued fresh meets world inputs := by
  have kept : ∀ state input reply next, Keeps state → InContract state input →
      meets state input → watched act frontier state input = .ok (reply, next) → Keeps next := by
    intro state input reply next keeps contract here taken
    obtain ⟨ran, after⟩ := watched_eq_ok taken
    have held := step state input reply next.1 keeps contract here ran
    rw [← after] at held
    exact held
  intro contract
  constructor
  · exact along_of_along (watched act frontier)
      (fun state input keeps here => (same state input keeps here).mp)
      (fun state input reply next keeps here complies =>
        kept state input reply next keeps here ((same state input keeps here).mp complies))
      (start world) contract
  · exact along_of_along (watched act frontier)
      (fun state input keeps here => (same state input keeps here).mpr) kept (start world) contract

/-- A condition that implies compliance in every step of an invariant gives runs that comply. -/
theorem followsProtocolIf {act : Machine (Object × World) (Action × Fault) Reply Misuse}
    {frontier : World → Nat} {issued : (Object × World) × Watch → Call → Prop} {fresh : Object}
    {meets : (Object × World) × Watch → Action × Fault → Prop}
    (Keeps : (Object × World) × Watch → Prop)
    (start : ∀ world, Keeps ((fresh, world), Watch.none))
    (complies : ∀ state input, Keeps state → InContract state input → meets state input →
      Complies act issued state input)
    (step : ∀ state input reply next, Keeps state → InContract state input → meets state input →
      act state.1 input = .ok (reply, next) →
      Keeps (next, state.2.after (frontier state.1.2) reply input.1))
    (world : World) (inputs : List (Action × Fault)) :
    FollowsProtocolIf act frontier issued fresh meets world inputs := by
  intro contract
  refine along_of_along (watched act frontier) complies ?_ (start world) contract
  intro state input reply next keeps here meet taken
  obtain ⟨ran, after⟩ := watched_eq_ok taken
  have held := step state input reply next.1 keeps here meet ran
  rw [← after] at held
  exact held

end

end DbBench
