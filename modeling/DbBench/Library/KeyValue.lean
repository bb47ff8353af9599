import Mathlib.Logic.Function.Basic
import Mathlib.Data.List.Induction

/-
This library states what an ordered batch of writes does to a key-value store.
-/

namespace KeyValue

variable {Key Value : Type}

/-- A store gives each key at most one value. -/
abbrev Store (Key Value : Type) := Key → Option Value

/-- The empty store has no key. -/
def Store.empty : Store Key Value := fun _ => none

/-- A write sets one key or removes it. -/
inductive WriteOp (Key Value : Type) where
  | put (key : Key) (value : Value)
  | delete (key : Key)
  deriving DecidableEq

def WriteOp.key : WriteOp Key Value → Key
  | .put key _ => key
  | .delete key => key

/-- The answer that a write leaves at its key. -/
def WriteOp.outcome : WriteOp Key Value → Option Value
  | .put _ value => some value
  | .delete _ => none

section
variable [DecidableEq Key]

/-- A write changes the store at its own key only. -/
def Store.write (store : Store Key Value) (op : WriteOp Key Value) : Store Key Value :=
  Function.update store op.key op.outcome

/-- An ordered batch applies its writes from first to last. -/
def Store.writeAll (store : Store Key Value) (ops : List (WriteOp Key Value)) : Store Key Value :=
  ops.foldl Store.write store

/-- The last write of a batch to one key decides that key. -/
def lastWrite (ops : List (WriteOp Key Value)) (key : Key) : Option (Option Value) :=
  ops.foldl (fun last op => if op.key = key then some op.outcome else last) none

@[simp] theorem Store.write_self (store : Store Key Value) (op : WriteOp Key Value) :
    store.write op op.key = op.outcome := by
  simp [write]

theorem Store.write_of_ne (store : Store Key Value) (op : WriteOp Key Value) {key : Key}
    (different : op.key ≠ key) : store.write op key = store key := by
  simp [write, Function.update_of_ne (Ne.symm different)]

/-- The deletion of an absent key changes nothing. -/
theorem Store.write_delete_absent (store : Store Key Value) {key : Key}
    (absent : store key = none) : store.write (.delete key) = store := by
  change Function.update store key none = store
  rw [← absent, Function.update_eq_self]

@[simp] theorem Store.writeAll_nil (store : Store Key Value) : store.writeAll [] = store := rfl

theorem Store.writeAll_append (store : Store Key Value) (first second : List (WriteOp Key Value)) :
    store.writeAll (first ++ second) = (store.writeAll first).writeAll second := by
  simp [writeAll, List.foldl_append]

theorem Store.writeAll_snoc (store : Store Key Value) (ops : List (WriteOp Key Value))
    (op : WriteOp Key Value) : store.writeAll (ops ++ [op]) = (store.writeAll ops).write op := by
  rw [writeAll_append]
  rfl

@[simp] theorem lastWrite_nil (key : Key) :
    lastWrite ([] : List (WriteOp Key Value)) key = none := rfl

@[simp] theorem lastWrite_snoc (ops : List (WriteOp Key Value)) (op : WriteOp Key Value)
    (key : Key) :
    lastWrite (ops ++ [op]) key = if op.key = key then some op.outcome else lastWrite ops key := by
  simp [lastWrite, List.foldl_append]

/-- A batch gives each key the outcome of its last write and keeps the other keys. -/
theorem Store.writeAll_apply (store : Store Key Value) (ops : List (WriteOp Key Value))
    (key : Key) : store.writeAll ops key = (lastWrite ops key).getD (store key) := by
  induction ops using List.reverseRecOn with
  | nil => rfl
  | append_singleton ops op ih =>
      rw [writeAll_snoc, lastWrite_snoc]
      by_cases same : op.key = key
      · subst same
        simp
      · rw [write_of_ne _ _ same, ih, if_neg same]

/-- A key has a last write exactly when some write of the batch names it. -/
theorem lastWrite_eq_none (ops : List (WriteOp Key Value)) (key : Key) :
    lastWrite ops key = none ↔ ∀ op ∈ ops, op.key ≠ key := by
  induction ops using List.reverseRecOn with
  | nil => simp
  | append_singleton ops op ih =>
      rw [lastWrite_snoc]
      by_cases same : op.key = key
      · simp [same]
      · rw [if_neg same, ih]
        constructor
        · intro absent other member
          rcases List.mem_append.mp member with earlier | last
          · exact absent other earlier
          · rwa [List.mem_singleton.mp last]
        · intro absent other member
          exact absent other (List.mem_append_left _ member)

/-- A filter that keeps every write to a key keeps the last one. -/
theorem lastWrite_filter (ops : List (WriteOp Key Value)) (keep : WriteOp Key Value → Bool)
    (key : Key) (kept : ∀ op, op.key = key → keep op = true) :
    lastWrite (ops.filter keep) key = lastWrite ops key := by
  induction ops using List.reverseRecOn with
  | nil => rfl
  | append_singleton ops op ih =>
      rw [List.filter_append, lastWrite_snoc]
      by_cases same : op.key = key
      · simp [kept op same, same]
      · cases chosen : keep op
        · simpa [chosen, same] using ih
        · simpa [chosen, same] using ih

end

end KeyValue
