import DbBench.Construction.Mdb
import DbBench.Spec.FlatStore

/-
This file states the purpose of an adapter that writes each operation at once, and when a
caller cannot tell it from an adapter with a pending list.
-/

namespace DbBench

open KeyValue Transition

/-- The reference writes batch operations through to its one map. A deletion answers whether
the key was there. -/
def directStep : Reference ByteStore Call Reply
  | store, .get key => (.lookup (store key).isSome (store key), store)
  | store, .put key value => (.flag true, store.write (.put key value))
  | store, .putBatch key value => (.flag true, store.write (.put key value))
  | store, .del key => (.flag (store key).isSome, store.write (.delete key))
  | store, .delBatch key => (.flag (store key).isSome, store.write (.delete key))
  | store, .applyBatch => (.flag true, store)

/-- A caller keeps batch boundaries when it calls `get`, `put` and `del` only while no batch
operation waits for `applyBatch`. -/
def KeepsBoundaries : Bool → List Call → Prop
  | _, [] => True
  | waiting, .get _ :: rest => waiting = false ∧ KeepsBoundaries waiting rest
  | waiting, .put _ _ :: rest => waiting = false ∧ KeepsBoundaries waiting rest
  | waiting, .del _ :: rest => waiting = false ∧ KeepsBoundaries waiting rest
  | _, .putBatch _ _ :: rest => KeepsBoundaries true rest
  | _, .delBatch _ :: rest => KeepsBoundaries true rest
  | _, .applyBatch :: rest => KeepsBoundaries false rest

/-- All four libraries accept keys of these sizes. -/
def FitsKey (key : Bytes) : Prop := 1 ≤ key.length ∧ key.length ≤ maxKeySize

/-- A call names keys of accepted sizes only. -/
def Call.Fits : Call → Prop
  | .get key => FitsKey key
  | .put key _ => FitsKey key
  | .putBatch key _ => FitsKey key
  | .del key => FitsKey key
  | .delBatch key => FitsKey key
  | .applyBatch => True

theorem FitsKey.nonempty {key : Bytes} (fits : FitsKey key) : key.isEmpty = false := by
  cases key with
  | nil => exact absurd fits.1 (Nat.not_succ_le_zero 0)
  | cons byte rest => rfl

/-- At the boundaries the pending list is empty, and between them the direct store already
holds what the flat store will hold. -/
structure Aligned (waiting : Bool) (flat : FlatStore) (store : ByteStore) : Prop where
  quiet : waiting = false → flat.pending = []
  ahead : store = flat.store.writeAll flat.pending

/-- At a boundary both stores are equal. -/
theorem Aligned.store {flat : FlatStore} {store : ByteStore} (aligned : Aligned false flat store) :
    store = flat.store := by
  rw [aligned.ahead, aligned.quiet rfl, Store.writeAll_nil]

/-- A write at a boundary changes both stores alike. -/
theorem Aligned.write {flat : FlatStore} {store : ByteStore} (aligned : Aligned false flat store)
    (op : ByteWrite) :
    Aligned false {flat with store := flat.store.write op} (store.write op) := by
  refine ⟨aligned.quiet, ?_⟩
  rw [aligned.store]
  change _ = (flat.store.write op).writeAll flat.pending
  rw [aligned.quiet rfl, Store.writeAll_nil]

/-- A queued write is already visible in the direct store. -/
theorem Aligned.queue {waiting : Bool} {flat : FlatStore} {store : ByteStore}
    (aligned : Aligned waiting flat store) (op : ByteWrite) :
    Aligned true {flat with pending := flat.pending ++ [op]} (store.write op) := by
  refine ⟨nofun, ?_⟩
  change _ = flat.store.writeAll (flat.pending ++ [op])
  rw [Store.writeAll_snoc, aligned.ahead]

/-- `applyBatch` catches up with the direct store. -/
theorem Aligned.apply {waiting : Bool} {flat : FlatStore} {store : ByteStore}
    (aligned : Aligned waiting flat store) :
    Aligned false ⟨flat.store.writeAll flat.pending, []⟩ store :=
  ⟨fun _ => rfl, aligned.ahead⟩

/-- Every `get` of a caller that keeps batch boundaries has the same answer from the flat
store and from the direct store. -/
theorem boundary_answers (calls : List Call) (fits : ∀ request ∈ calls, request.Fits)
    {waiting : Bool} {flat : FlatStore} {store : ByteStore}
    (keeps : KeepsBoundaries waiting calls) (aligned : Aligned waiting flat store) :
    (follow flatStep flat calls).1.map Reply.answer =
      (follow directStep store calls).1.map Reply.answer := by
  induction calls generalizing waiting flat store with
  | nil => rfl
  | cons request rest ih =>
      have restFits : ∀ later ∈ rest, later.Fits :=
        fun later member => fits later (List.mem_cons_of_mem request member)
      have here : request.Fits := fits request List.mem_cons_self
      simp only [follow_cons, List.map_cons]
      cases request with
      | get key =>
          obtain ⟨boundary, keeps⟩ := keeps
          subst boundary
          rw [List.cons.injEq]
          exact ⟨by rw [flatStep, directStep, aligned.store], ih restFits keeps aligned⟩
      | put key value =>
          obtain ⟨boundary, keeps⟩ := keeps
          subst boundary
          simp only [flatStep, FitsKey.nonempty here, directStep]
          exact congrArg (List.cons _) (ih restFits keeps (aligned.write (.put key value)))
      | putBatch key value =>
          simp only [flatStep, FitsKey.nonempty here, directStep]
          exact congrArg (List.cons _) (ih restFits keeps (aligned.queue (.put key value)))
      | del key =>
          obtain ⟨boundary, keeps⟩ := keeps
          subst boundary
          simp only [flatStep, FitsKey.nonempty here, directStep]
          exact congrArg (List.cons _) (ih restFits keeps (aligned.write (.delete key)))
      | delBatch key =>
          simp only [flatStep, FitsKey.nonempty here, directStep]
          exact congrArg (List.cons _) (ih restFits keeps (aligned.queue (.delete key)))
      | applyBatch => exact congrArg (List.cons _) (ih restFits keeps aligned.apply)

end DbBench
