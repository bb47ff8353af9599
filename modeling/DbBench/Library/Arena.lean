import Mathlib.Logic.Function.Basic
import Mathlib.Data.List.Basic

/-
This library gives every created object an identity that is live until it is released.
-/

/-- An arena numbers its objects in the order of creation and holds the live ones.
No identity from `next` on has been given out. -/
structure Arena (Object : Type) where
  next : Nat
  cells : Nat → Option Object
  fresh : ∀ handle, next ≤ handle → cells handle = none

namespace Arena

variable {Object : Type}

def empty : Arena Object := ⟨0, fun _ => none, fun _ _ => rfl⟩

/-- A live identity still holds its object. -/
def Live (arena : Arena Object) (handle : Nat) : Prop := (arena.cells handle).isSome

instance (arena : Arena Object) (handle : Nat) : Decidable (arena.Live handle) :=
  inferInstanceAs (Decidable (_ = _))

/-- Creation gives out the next identity. -/
def create (arena : Arena Object) (object : Object) : Arena Object where
  next := arena.next + 1
  cells := Function.update arena.cells arena.next (some object)
  fresh handle above := by
    rw [Function.update_of_ne (Nat.ne_of_gt above)]
    exact arena.fresh handle (Nat.le_of_succ_le above)

/-- Release ends an identity for good. -/
def release (arena : Arena Object) (handle : Nat) : Arena Object where
  next := arena.next
  cells := Function.update arena.cells handle none
  fresh other above := by
    by_cases same : other = handle
    · rw [same, Function.update_self]
    · rw [Function.update_of_ne same]
      exact arena.fresh other above

/-- This update replaces the object of an identity that is live. -/
def modify (arena : Arena Object) (handle : Nat) (change : Object → Object) : Arena Object where
  next := arena.next
  cells := Function.update arena.cells handle ((arena.cells handle).map change)
  fresh other above := by
    by_cases same : other = handle
    · subst same
      rw [Function.update_self, arena.fresh other above, Option.map_none]
    · rw [Function.update_of_ne same]
      exact arena.fresh other above

/-- Some live object satisfies the test. -/
def anyLive (arena : Arena Object) (test : Object → Bool) : Bool :=
  (List.range arena.next).any fun handle => (arena.cells handle).any test

@[simp] theorem create_next (arena : Arena Object) (object : Object) :
    (arena.create object).next = arena.next + 1 := rfl

@[simp] theorem create_cells_self (arena : Arena Object) (object : Object) :
    (arena.create object).cells arena.next = some object := by
  simp [create]

theorem create_cells_of_ne (arena : Arena Object) (object : Object) {handle : Nat}
    (different : handle ≠ arena.next) :
    (arena.create object).cells handle = arena.cells handle := by
  simp [create, different]

@[simp] theorem modify_next (arena : Arena Object) (handle : Nat) (change : Object → Object) :
    (arena.modify handle change).next = arena.next := rfl

@[simp] theorem modify_cells_self (arena : Arena Object) (handle : Nat)
    (change : Object → Object) :
    (arena.modify handle change).cells handle = (arena.cells handle).map change := by
  simp [modify]

theorem modify_cells_of_ne (arena : Arena Object) (handle : Nat) (change : Object → Object)
    {other : Nat} (different : other ≠ handle) :
    (arena.modify handle change).cells other = arena.cells other := by
  simp [modify, different]

/-- Every identity that holds an object was given out before. -/
theorem lt_next_of_cells {arena : Arena Object} {handle : Nat} {object : Object}
    (held : arena.cells handle = some object) : handle < arena.next := by
  by_contra above
  rw [arena.fresh handle (Nat.le_of_not_lt above)] at held
  cases held

/-- Creation keeps every object that was live. -/
theorem create_cells_of_live (arena : Arena Object) (object : Object) {handle : Nat}
    {held : Object} (live : arena.cells handle = some held) :
    (arena.create object).cells handle = some held := by
  rw [create_cells_of_ne _ _ (Nat.ne_of_lt (lt_next_of_cells live)), live]

/-- A new object joins the live ones. -/
theorem anyLive_create (arena : Arena Object) (object : Object) (test : Object → Bool) :
    (arena.create object).anyLive test = (arena.anyLive test || test object) := by
  have earlier : (List.range arena.next).any
      (fun handle => ((arena.create object).cells handle).any test) = arena.anyLive test := by
    rw [anyLive, Bool.eq_iff_iff, List.any_eq_true, List.any_eq_true]
    apply exists_congr
    intro handle
    apply and_congr_right
    intro member
    rw [create_cells_of_ne arena object (Nat.ne_of_lt (List.mem_range.mp member))]
  rw [anyLive, create_next, List.range_succ, List.any_append, earlier]
  simp

/-- One live object that satisfies the test is enough. -/
theorem anyLive_of_cells {arena : Arena Object} {handle : Nat} {object : Object}
    (held : arena.cells handle = some object) {test : Object → Bool} (passes : test object = true) :
    arena.anyLive test = true := by
  rw [anyLive, List.any_eq_true]
  exact ⟨handle, List.mem_range.mpr (lt_next_of_cells held), by rw [held]; exact passes⟩

@[simp] theorem release_next (arena : Arena Object) (handle : Nat) :
    (arena.release handle).next = arena.next := rfl

@[simp] theorem release_cells_self (arena : Arena Object) (handle : Nat) :
    (arena.release handle).cells handle = none := by
  simp [release]

theorem release_cells_of_ne (arena : Arena Object) {handle other : Nat}
    (different : other ≠ handle) : (arena.release handle).cells other = arena.cells other := by
  simp [release, different]

end Arena
