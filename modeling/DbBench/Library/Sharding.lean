import DbBench.Library.KeyValue

/-
This library spreads one store over many stores and one pending batch over many batches.
A routing function sends each key to one index.
-/

namespace KeyValue

variable {Index Key Value : Type}

/-- A flat state is one store with one pending batch. -/
structure Flat (Key Value : Type) where
  store : Store Key Value
  pending : List (WriteOp Key Value)

/-- A sharded state has a store and a batch at every index. -/
structure Sharded (Index Key Value : Type) where
  stores : Index → Store Key Value
  batches : Index → List (WriteOp Key Value)

/-- A read consults the store that the key is routed to. -/
def Sharded.flatten (route : Key → Index) (sharded : Sharded Index Key Value) : Store Key Value :=
  fun key => sharded.stores (route key) key

section
variable [DecidableEq Index]

/-- The part of a batch that one index receives keeps its order. -/
def restrict (route : Key → Index) (ops : List (WriteOp Key Value)) (index : Index) :
    List (WriteOp Key Value) := ops.filter fun op => route op.key = index

@[simp] theorem restrict_nil (route : Key → Index) (index : Index) :
    restrict route ([] : List (WriteOp Key Value)) index = [] := rfl

/-- One more write joins the part of its own index. -/
theorem restrict_snoc (route : Key → Index) (ops : List (WriteOp Key Value))
    (op : WriteOp Key Value) (index : Index) :
    restrict route (ops ++ [op]) index =
      if route op.key = index then restrict route ops index ++ [op]
      else restrict route ops index := by
  by_cases same : route op.key = index <;> simp [restrict, same]

/-- A queued write joins the batch at the index of its key. -/
def Sharded.queue (route : Key → Index) (sharded : Sharded Index Key Value)
    (op : WriteOp Key Value) : Sharded Index Key Value :=
  { sharded with
    batches := Function.update sharded.batches (route op.key)
      (sharded.batches (route op.key) ++ [op]) }

/-- Queueing keeps every batch the part of the pending list at its index. -/
theorem queue_batches (route : Key → Index) (sharded : Sharded Index Key Value)
    (pending : List (WriteOp Key Value)) (op : WriteOp Key Value)
    (batches : ∀ index, sharded.batches index = restrict route pending index) (index : Index) :
    (sharded.queue route op).batches index = restrict route (pending ++ [op]) index := by
  rw [restrict_snoc]
  by_cases same : route op.key = index
  · subst same
    simp [Sharded.queue, batches]
  · simp [Sharded.queue, same, Function.update_of_ne (Ne.symm same), batches]

variable [DecidableEq Key]

/-- The part of a batch at the key's own index decides the key as the whole batch does. -/
theorem lastWrite_restrict (route : Key → Index) (ops : List (WriteOp Key Value)) (key : Key) :
    lastWrite (restrict route ops (route key)) key = lastWrite ops key :=
  lastWrite_filter ops _ key fun op same => by simp [same]

/-- The batches are the parts of the pending list, and the stores agree with the flat store
on every key that no pending write names. -/
structure Converging (route : Key → Index) (sharded : Sharded Index Key Value)
    (flat : Flat Key Value) : Prop where
  batches : ∀ index, sharded.batches index = restrict route flat.pending index
  settled : ∀ key, lastWrite flat.pending key = none → sharded.flatten route key = flat.store key

/-- The sharded state shows exactly the flat state. -/
structure Represents (route : Key → Index) (sharded : Sharded Index Key Value)
    (flat : Flat Key Value) : Prop where
  batches : ∀ index, sharded.batches index = restrict route flat.pending index
  store : sharded.flatten route = flat.store

/-- A direct write changes the store at the index of its key. -/
def Sharded.write (route : Key → Index) (sharded : Sharded Index Key Value)
    (op : WriteOp Key Value) : Sharded Index Key Value :=
  { sharded with
    stores := Function.update sharded.stores (route op.key)
      ((sharded.stores (route op.key)).write op) }

/-- This state has applied the batches of the selected indices and kept all batches. -/
def Sharded.apply (sharded : Sharded Index Key Value) (selected : Index → Prop)
    [DecidablePred selected] : Sharded Index Key Value :=
  { sharded with
    stores := fun index =>
      if selected index then (sharded.stores index).writeAll (sharded.batches index)
      else sharded.stores index }

/-- This state has no pending write. -/
def Sharded.clear (sharded : Sharded Index Key Value) : Sharded Index Key Value :=
  {sharded with batches := fun _ => []}

theorem Sharded.flatten_write (route : Key → Index) (sharded : Sharded Index Key Value)
    (op : WriteOp Key Value) :
    (sharded.write route op).flatten route = (sharded.flatten route).write op := by
  funext key
  by_cases same : op.key = key
  · subst same
    simp [flatten, write]
  · rw [Store.write_of_ne _ _ same]
    by_cases index : route key = route op.key
    · simp [flatten, write, index, Store.write_of_ne _ _ same]
    · simp [flatten, write, Function.update_of_ne index]

/-- A read after a partial application sees the batch exactly at the selected indices. -/
theorem Sharded.flatten_apply (route : Key → Index) (sharded : Sharded Index Key Value)
    (pending : List (WriteOp Key Value)) (selected : Index → Prop) [DecidablePred selected]
    (batches : ∀ index, sharded.batches index = restrict route pending index) (key : Key) :
    (sharded.apply selected).flatten route key =
      if selected (route key) then (sharded.flatten route).writeAll pending key
      else sharded.flatten route key := by
  by_cases chosen : selected (route key)
  · simp only [flatten, apply, chosen, if_true, batches, Store.writeAll_apply, lastWrite_restrict]
  · simp only [flatten, apply, chosen, if_false]

theorem Represents.converging {route : Key → Index} {sharded : Sharded Index Key Value}
    {flat : Flat Key Value} (represents : Represents route sharded flat) :
    Converging route sharded flat :=
  ⟨represents.batches, fun key _ => congrFun represents.store key⟩

theorem Represents.write {route : Key → Index} {sharded : Sharded Index Key Value}
    {flat : Flat Key Value} (represents : Represents route sharded flat) (op : WriteOp Key Value) :
    Represents route (sharded.write route op) {flat with store := flat.store.write op} :=
  ⟨represents.batches, by rw [Sharded.flatten_write, represents.store]⟩

omit [DecidableEq Key] in
theorem Represents.queue {route : Key → Index} {sharded : Sharded Index Key Value}
    {flat : Flat Key Value} (represents : Represents route sharded flat) (op : WriteOp Key Value) :
    Represents route (sharded.queue route op) {flat with pending := flat.pending ++ [op]} :=
  ⟨queue_batches route sharded flat.pending op represents.batches, represents.store⟩

theorem Converging.write {route : Key → Index} {sharded : Sharded Index Key Value}
    {flat : Flat Key Value} (converging : Converging route sharded flat) (op : WriteOp Key Value) :
    Converging route (sharded.write route op) {flat with store := flat.store.write op} := by
  refine ⟨converging.batches, fun key quiet => ?_⟩
  rw [Sharded.flatten_write]
  by_cases same : op.key = key
  · subst same
    simp
  · rw [Store.write_of_ne _ _ same, converging.settled key quiet]
    exact (Store.write_of_ne _ _ same).symm

theorem Converging.queue {route : Key → Index} {sharded : Sharded Index Key Value}
    {flat : Flat Key Value} (converging : Converging route sharded flat) (op : WriteOp Key Value) :
    Converging route (sharded.queue route op) {flat with pending := flat.pending ++ [op]} := by
  refine ⟨queue_batches route sharded flat.pending op converging.batches, fun key quiet => ?_⟩
  apply converging.settled key
  rw [lastWrite_eq_none] at quiet ⊢
  exact fun other member => quiet other (List.mem_append_left _ member)

/-- A partial application touches only keys that a pending write names. -/
theorem Converging.apply {route : Key → Index} {sharded : Sharded Index Key Value}
    {flat : Flat Key Value} (converging : Converging route sharded flat)
    (selected : Index → Prop) [DecidablePred selected] :
    Converging route (sharded.apply selected) flat := by
  refine ⟨converging.batches, fun key quiet => ?_⟩
  rw [Sharded.flatten_apply route sharded flat.pending selected converging.batches]
  split
  · rw [Store.writeAll_apply, quiet, Option.getD_none, converging.settled key quiet]
  · exact converging.settled key quiet

/-- A full application makes the stores equal to the flat store with its pending list applied. -/
theorem Converging.commit {route : Key → Index} {sharded : Sharded Index Key Value}
    {flat : Flat Key Value} (converging : Converging route sharded flat)
    (selected : Index → Prop) [DecidablePred selected] (all : ∀ key, selected (route key)) :
    Represents route (sharded.apply selected).clear ⟨flat.store.writeAll flat.pending, []⟩ := by
  refine ⟨fun index => rfl, ?_⟩
  funext key
  change (sharded.apply selected).flatten route key = flat.store.writeAll flat.pending key
  rw [Sharded.flatten_apply route sharded flat.pending selected converging.batches,
    if_pos (all key), Store.writeAll_apply, Store.writeAll_apply]
  cases decided : lastWrite flat.pending key with
  | none => rw [Option.getD_none, Option.getD_none, converging.settled key decided]
  | some outcome => rfl

end

end KeyValue
