import DbBench.Construction.PageOps

/-
This file contains how a commit of liblmdb writes the free pages to the tree of the free lists. The
writing takes and frees pages itself.
-/

namespace DbBench

open Cells

variable {Page : Type}

/-- An operation on the tree of the free lists calls the page functions first. A reserved record
holds whatever the memory held. -/
structure TreeCall (Page : Type) where
  search : List (PageOp Page)
  ops : List (PageOp Page)
  memory : Nat → UInt64

/-- The tree of the free lists never gives loose pages back. -/
def PageOp.inFreeDb (op : PageOp Page) : Bool :=
  match op with
  | .loose freeDbi _ _ => freeDbi
  | _ => true

def performFree (ops : List (PageOp Page)) (work : Work Page) :
    Except Stop (Except PageRc Unit × Work Page) :=
  if ops.all PageOp.inFreeDb then performAll ops work else .error .disabled

/-- These are the variables of the loop in `mdb_freelist_save`. The flag `putting` tells that the
inner loop, which puts the list of this transaction, has not ended. -/
structure Saving where
  pglast : Nat
  headId : Nat
  freecnt : Nat
  headRoom : Int
  totalRoom : Int
  more : Int
  putting : Bool

/-- The records ascend. -/
def putRecord (freeDB : List FreeRecord) (record : FreeRecord) : List FreeRecord :=
  (freeDB.filter fun other => other.txnid ≠ record.txnid).orderedInsert
    (fun one other => one.txnid ≤ other.txnid) record

/-- The number of pages in the list of this transaction. -/
def WriteTxn.freeCount (txn : WriteTxn Page) : Option Nat := txn.freePgs.ids[0]?.map (·.toNat)

/-- Records that the transaction has used are deleted, and with them the ones that it has reserved
so far. -/
def saveDelete (call : TreeCall Page) (state : Saving) (work : Work Page) :
    Except Stop (Except PageRc Saving × Work Page) :=
  match work.txn.freeDB with
  | [] => .ok (.error .notFound, work)
  | record :: _ =>
      if record.txnid > work.txn.pglast then .error .assertion
      else do
        let (rc, work) ← performFree call.ops work
        match rc with
        | .error rc => .ok (.error rc, work)
        | .ok () =>
            let freeDB := work.txn.freeDB.filter fun other => other.txnid ≠ record.txnid
            .ok (.ok {state with
                pglast := record.txnid, headId := record.txnid, headRoom := 0, totalRoom := 0},
              {work with txn := {work.txn with freeDB := freeDB}})

/-- The list of this transaction is sorted when it has not grown during the put, and goes into its
record. -/
def saveFree (call : TreeCall Page) (state : Saving) (work : Work Page) :
    Except Stop (Except PageRc Saving × Work Page) := do
  let (rc, work) ← performFree (if state.putting ∨ state.freecnt ≠ 0 then [] else call.search) work
  if rc ≠ .ok () ∧ rc ≠ .error .notFound then .ok (rc.map fun _ => state, work)
  else
    match work.txn.freeCount with
    | none => .error .assertion
    | some freecnt => do
        let (rc, work) ← performFree call.ops work
        match rc with
        | .error rc => .ok (.error rc, work)
        | .ok () =>
            match work.txn.freeCount, Midl.sort work.txn.freePgs.ids with
            | some count, some sorted =>
                let state := {state with freecnt := freecnt, putting := decide (freecnt < count)}
                let idl := if freecnt < count
                  then Array.ofFn fun k : Fin (freecnt + 1) => call.memory k
                  else sorted.take (freecnt + 1)
                let freePgs := if freecnt < count then work.txn.freePgs
                  else {work.txn.freePgs with ids := sorted}
                let freeDB := putRecord work.txn.freeDB ⟨work.txn.txnid, idl⟩
                .ok (.ok state,
                  {work with txn := {work.txn with freeDB := freeDB, freePgs := freePgs}})
            | _, _ => .error .assertion

/-- The loop ends when the records have room for the pages that are ready. Otherwise it chooses the
next record and its room. -/
def Saving.reserve (state : Saving) (mopLen : Nat) (maxfree1pg : Nat) : Option Saving :=
  if state.totalRoom ≥ mopLen ∧ (state.totalRoom = mopLen ∨ state.more - 1 < 0) then none
  else
    let more := if state.totalRoom ≥ mopLen then state.more - 1 else state.more
    let next := state.totalRoom < mopLen ∧ state.headRoom ≥ maxfree1pg ∧ state.headId > 1
    let headId := if next then state.headId - 1 else state.headId
    let headRoom := if next then 0 else state.headRoom
    let totalRoom := state.totalRoom - headRoom
    let headRoom := mopLen - totalRoom
    let headRoom :=
      if headRoom > maxfree1pg ∧ headId > 1 then
        let share := headRoom.toNat / headId
        ((share + (maxfree1pg - share % (maxfree1pg + 1)) : Nat) : Int)
      else if headRoom < 0 then 0
      else headRoom
    some {state with
      headId := headId, headRoom := headRoom, totalRoom := totalRoom + headRoom, more := more}

/-- A reserved record starts with an empty list. A long one is cleared. -/
def reserved (headRoom maxfree1pg : Nat) (memory : Nat → UInt64) : Array UInt64 :=
  #[0] ++ Array.ofFn fun k : Fin headRoom => if headRoom > maxfree1pg then 0 else memory k

/-- The number of pages that are ready, the loose ones included. -/
def WriteTxn.mopLen (txn : WriteTxn Page) : Option Nat :=
  (mopLength txn.pghead).map (· + txn.loosePgs.length)

def saveReserve (call : TreeCall Page) (state : Saving) (work : Work Page) :
    Except Stop (Except PageRc Saving × Work Page) := do
  let (rc, work) ← performFree call.ops work
  match rc with
  | .error rc => .ok (.error rc, work)
  | .ok () =>
      let idl := reserved state.headRoom.toNat work.env.maxfree1pg call.memory
      let freeDB := putRecord work.txn.freeDB ⟨state.headId, idl⟩
      .ok (.ok state, {work with txn := {work.txn with freeDB := freeDB}})

/-- The next part of the function runs when there was no error before. -/
def andThen {First Second : Type} (outcome : Except Stop (Except PageRc First × Work Page))
    (next : First → Work Page → Except Stop (Except PageRc Second × Work Page)) :
    Except Stop (Except PageRc Second × Work Page) := do
  let (rc, work) ← outcome
  match rc with
  | .error rc => .ok (.error rc, work)
  | .ok first => next first work

/-- The loop starts again after each operation on the tree, since this may have changed the lists.
It has no more to do when there is room for all pages. -/
def saveLoop : List (TreeCall Page) → Saving → Work Page →
    Except Stop (Except PageRc Saving × Work Page)
  | calls, state, work =>
      match work.txn.freeCount, work.txn.mopLen with
      | some count, some mopLen =>
          if ¬ state.putting ∧ state.pglast < work.txn.pglast then
            match calls with
            | [] => .error .disabled
            | call :: rest =>
                andThen (saveDelete call state work) fun state work => saveLoop rest state work
          else if state.putting ∨ state.freecnt < count then
            match calls with
            | [] => .error .disabled
            | call :: rest =>
                andThen (saveFree call state work) fun state work => saveLoop rest state work
          else
            match state.reserve mopLen work.env.maxfree1pg with
            | none => .ok (.ok state, work)
            | some state =>
                match calls with
                | [] => .error .disabled
                | call :: rest =>
                    andThen (saveReserve call state work) fun state work => saveLoop rest state work
      | _, _ => .error .assertion

/-- `mdb_midl_xappend` for every number. -/
def appendAll : List Nat → Array UInt64 → Option (Array UInt64)
  | [], ids => pure ids
  | pgno :: rest, ids => do
      let ids ← Midl.xappend ids (UInt64.ofNat pgno)
      appendAll rest ids

section Squash

variable {Value : Type}

/-- `dl[y].mptr` is not `NULL`. The cell behind the list, which may be outside of the array, holds
whatever the memory held. -/
def occupied (dl : Array (Option Value)) (behind : Bool) (y : Nat) : Bool :=
  match dl[y - 1]? with
  | some slot => slot.isSome
  | none => behind

/-- `for (y=1; dl[y].mptr && y <= dl[0].mid; y++)`. -/
def firstGap (dl : Array (Option Value)) (behind : Bool) : Nat → Nat → Nat
  | 0, y => y
  | rounds + 1, y =>
      if occupied dl behind y ∧ y ≤ dl.size then firstGap dl behind rounds (y + 1) else y

/-- The slots behind a gap move down. -/
def squash (behind : Bool) :
    Nat → Nat → Nat → Array (Option Value) → Option (Nat × Array (Option Value))
  | 0, x, _, dl => pure (x, dl)
  | rounds + 1, x, y, dl =>
      if ¬ occupied dl behind y ∧ y ≤ dl.size then squash behind rounds x (y + 1) dl
      else if y > dl.size then pure (x, dl)
      else do
        let slot ← dl[y - 1]?
        let dl ← write dl (x - 1) slot
        squash behind rounds (x + 1) (y + 1) dl

/-- The freed slots leave the list. Without any of them the list becomes empty. -/
def squashFreed (dl : Array (Option Value)) (behind : Bool) : Option (List Value) :=
  let y := firstGap dl behind (dl.size + 1) 1
  if y ≤ dl.size then do
    let (x, dl) ← squash behind (dl.size + 1) y (y + 1) dl
    pure ((dl.toList.take (x - 1)).filterMap id)
  else pure []

end Squash

/-- Without a list of ready pages the loose ones join the freed ones and leave the dirty list. -/
def freeLoose (txn : WriteTxn Page) (behind fault : Bool) :
    Option (Except PageRc Unit × WriteTxn Page) :=
  match txn.pghead, txn.loosePgs with
  | none, _ :: _ => do
      let (rc, freePgs) ← txn.freePgs.need txn.loosePgs.length fault
      let txn := {txn with freePgs := freePgs}
      if rc ≠ .success then pure (.error .enomem, txn)
      else if txn.loosePgs.all txn.dirty then do
        let ids ← appendAll txn.loosePgs txn.freePgs.ids
        let dl := txn.dirtyList.map fun dirty =>
          if dirty.pgno ∈ txn.loosePgs then none else some dirty
        let dirtyList ← squashFreed dl.toArray behind
        pure (.ok (), {txn with
          freePgs := {txn.freePgs with ids := ids}, dirtyList := dirtyList, loosePgs := []})
      else none
  | _, _ => pure (.ok (), txn)

/-- The pages of the loose list that are left join the ready ones. The flush leaves them out. -/
def mergeLoose (txn : WriteTxn Page) (fault : Bool) :
    Option (Except PageRc Unit × WriteTxn Page) :=
  match txn.loosePgs, txn.pghead with
  | [], _ => pure (.ok (), txn)
  | _ :: _, none => none
  | _ :: _, some mop => do
      let count := txn.loosePgs.length
      let (rc, mop) ← mop.need (2 * count + 1) fault
      if rc ≠ .success then pure (.error .enomem, {txn with pghead := some mop})
      else do
        -- The list of the loose pages lies at the end of the block, behind the room of the merge.
        let loose := #[UInt64.ofNat count] ++ (txn.loosePgs.map UInt64.ofNat).toArray
        let loose ← Midl.sort loose
        let ids ← Midl.xmerge mop.ids loose
        pure (.ok (), {txn with
          pghead := some {mop with ids := ids}
          dirtyList := txn.dirtyList.filter fun dirty => dirty.pgno ∉ txn.loosePgs
          loosePgs := []})

/-- The records get their pages from the tail of the list. The put of a record that has its room
already takes and frees no pages. The cursor ends with an error behind the last record. -/
def fillRecords (mop : Array UInt64) : List (List (PageOp Page)) → List FreeRecord →
    List FreeRecord → Nat → Work Page → Except Stop (Except PageRc Unit × Work Page)
  | _, _, [], _, work => .ok (.error .notFound, work)
  | puts, filled, record :: rest, mopLen, work =>
      if record.idl.size = 0 ∨ record.txnid > work.txn.pglast then .error .assertion
      else
        match puts with
        | [] => .error .disabled
        | put :: puts =>
            if put.all PageOp.inPlace then do
              let (rc, work) ← performAll put work
              match rc with
              | .error rc => .ok (.error rc, work)
              | .ok () =>
                  let len := min (record.idl.size - 1) mopLen
                  let cells := mop.extract (mopLen - len + 1) (mopLen + 1)
                  let filled := filled ++ [{record with idl := #[UInt64.ofNat len] ++ cells}]
                  let work := {work with txn := {work.txn with freeDB := filled ++ rest}}
                  if mopLen - len = 0 then .ok (.ok (), work)
                  else fillRecords mop puts filled rest (mopLen - len) work
            else .error .disabled

/-- The records were reserved before, so that this changes no list of pages any more. -/
def fillReserved (puts : List (List (PageOp Page))) (work : Work Page) :
    Except Stop (Except PageRc Unit × Work Page) :=
  match work.txn.pghead with
  | none => .ok (.ok (), work)
  | some mop =>
      match mopLength (some mop) with
      | none => .error .assertion
      | some 0 => .ok (.ok (), work)
      | some mopLen => fillRecords mop.ids puts [] work.txn.freeDB mopLen work

/-- A step on the transaction alone. -/
def Work.onTxn (work : Work Page) (step : Option (Except PageRc Unit × WriteTxn Page)) :
    Except Stop (Except PageRc Unit × Work Page) :=
  work.after (step.map fun (rc, txn) => (rc, work.env, txn))

/-- The search of the first page of the tree may find the tree empty. -/
def searchFirst (ops : List (PageOp Page)) (work : Work Page) :
    Except Stop (Except PageRc Unit × Work Page) :=
  if work.txn.pghead.isSome then do
    let (rc, work) ← performFree ops work
    if rc = .error .notFound then .ok (.ok (), work) else .ok (rc, work)
  else .ok (.ok (), work)

/-- What the operations on the tree do while the lists are saved, whether the cell behind the dirty
list looks like a page, and which allocations of memory fail. -/
structure SaveCalls (Page : Type) where
  search : List (PageOp Page)
  calls : List (TreeCall Page)
  puts : List (List (PageOp Page))
  behind : Bool
  fault : Nat → Bool

def freelistSave (saving : SaveCalls Page) (work : Work Page) :
    Except Stop (Except PageRc Unit × Work Page) :=
  andThen (searchFirst saving.search work) fun _ work =>
  andThen (work.onTxn (freeLoose work.txn saving.behind (saving.fault 0))) fun _ work =>
  andThen (saveLoop saving.calls ⟨0, 0, 0, 0, 0, 1, false⟩ work) fun _ work =>
  andThen (work.onTxn (mergeLoose work.txn (saving.fault 1))) fun _ work =>
  fillReserved saving.puts work

end DbBench
