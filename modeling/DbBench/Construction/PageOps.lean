import DbBench.Construction.PageAlloc
import Mathlib.Order.Interval.Finset.Nat

/-
This file contains what the trees of liblmdb do with the pages of a write transaction.
-/

namespace DbBench

open Cells

variable {Page : Type}

/-- The page functions work on the environment, the transaction and the data file. -/
structure Work (Page : Type) where
  env : EnvPages
  txn : WriteTxn Page
  file : File Page

/-- A call that the trees do not make is disabled, and a start that lacks a meta page is refused.
The other stop is an index outside of an array or an assertion that does not hold. -/
inductive Stop where
  | disabled
  | refused
  | assertion
  deriving DecidableEq

/-- The first page number of an entry comes with the number of its pages. -/
def DirtyPage.span (dirty : DirtyPage Page) : Nat × Nat := (dirty.pgno, dirty.pages.length)

def Spans (span : Nat × Nat) (pgno : Nat) : Prop := span.1 ≤ pgno ∧ pgno < span.1 + span.2

instance (span : Nat × Nat) (pgno : Nat) : Decidable (Spans span pgno) :=
  inferInstanceAs (Decidable (_ ∧ _))

/-- The transaction has written these pages. -/
def WriteTxn.spans (txn : WriteTxn Page) : List (Nat × Nat) :=
  txn.dirtyList.map DirtyPage.span ++ txn.spillPgs

/-- The pages from `pgno` on are in use, and the transaction has written all of them as one entry
or none of them. -/
def WriteTxn.whole (txn : WriteTxn Page) (pgno num : Nat) : Prop :=
  ∀ k < num, pgno + k ∈ txn.inUse ∧
    ∀ span ∈ txn.spans, Spans span (pgno + k) → span = (pgno, num)

instance (txn : WriteTxn Page) (pgno num : Nat) : Decidable (txn.whole pgno num) :=
  inferInstanceAs (Decidable (∀ k < num, _))

def WriteTxn.dirty (txn : WriteTxn Page) (pgno : Nat) : Bool :=
  txn.dirtyList.any fun dirty => dirty.pgno = pgno

def WriteTxn.spilled (txn : WriteTxn Page) (pgno : Nat) : Bool :=
  txn.spillPgs.any fun span => span.1 = pgno

/-- The memory of an entry gets new contents. -/
def WriteTxn.fill (txn : WriteTxn Page) (pgno : Nat) (pages : List Page) : WriteTxn Page :=
  {txn with dirtyList := txn.dirtyList.map fun dirty =>
    if dirty.pgno = pgno then ⟨pgno, pages⟩ else dirty}

/-- The system call writes pages that follow each other. -/
def File.write (file : File Page) : Nat → List Page → File Page
  | _, [] => file
  | pgno, page :: rest =>
      File.write ⟨Function.update file.pages pgno page, pgno :: file.unsynced⟩ (pgno + 1) rest

/-- A spilled page comes back from the file. -/
def pageUnspill (txn : WriteTxn Page) (file : File Page) (pgno : Nat) (fault : Bool) :
    Option (Except PageRc Bool × WriteTxn Page) :=
  match txn.spillPgs.find? fun span => span.1 = pgno with
  | none => pure (.ok false, txn)
  | some span =>
      if txn.dirtyRoom = 0 then pure (.error .txnFull, txn)
      else if fault then pure (.error .enomem, txn)
      else do
        let pages := (List.range span.2).map fun k => file.pages (pgno + k)
        let txn ← pageDirty
          {txn with spillPgs := txn.spillPgs.filter fun span => span.1 ≠ pgno} ⟨pgno, pages⟩
        pure (.ok true, txn)

/-- A page that is not dirty moves to a new page, and its old number goes to the free list. -/
def pageMove (env : EnvPages) (txn : WriteTxn Page) (file : File Page) (pgno found : Nat)
    (fault : Nat → Bool) : Option (Except PageRc Nat × EnvPages × WriteTxn Page) := do
  let (rc, freePgs) ← txn.freePgs.need 1 (fault 0)
  let txn := {txn with freePgs := freePgs}
  if rc ≠ .success then
    let (rc, txn) := txn.fail .enomem
    pure (rc, env, txn)
  else do
    let (rc, env, txn) ← pageAlloc env txn [file.pages pgno] found fun call => fault (call + 1)
    match rc with
    | .error rc => pure (.error rc, env, {txn with error := true})
    | .ok np =>
        if np = pgno then none
        else do
          let ids ← Midl.xappend txn.freePgs.ids (UInt64.ofNat pgno)
          let txn := {txn with
            freePgs := {txn.freePgs with ids := ids}
            inUse := insert np (txn.inUse.erase pgno)}
          pure (.ok np, env, txn.fill np [file.pages pgno])

def pageTouch (env : EnvPages) (txn : WriteTxn Page) (file : File Page) (pgno found : Nat)
    (fault : Nat → Bool) : Option (Except PageRc Nat × EnvPages × WriteTxn Page) :=
  if txn.dirty pgno then pure (.ok pgno, env, txn)
  else do
    let (rc, txn) ← pageUnspill txn file pgno (fault 0)
    match rc with
    | .error rc => pure (.error rc, env, {txn with error := true})
    | .ok true => pure (.ok pgno, env, txn)
    | .ok false => pageMove env txn file pgno found fun call => fault (call + 1)

/-- A tree takes new pages and fills them. -/
def pageNew (env : EnvPages) (txn : WriteTxn Page) (pages : List Page) (found : Nat)
    (fault : Nat → Bool) : Option (Except PageRc Nat × EnvPages × WriteTxn Page) := do
  let (rc, env, txn) ← pageAlloc env txn pages found fault
  match rc with
  | .error rc => pure (.error rc, env, txn)
  | .ok np =>
      let txn := {txn with inUse := txn.inUse ∪ Finset.Ico np (np + pages.length)}
      pure (.ok np, env, txn.fill np pages)

/-- A dirty page is kept for the next allocation, except in the tree of the free lists. -/
def pageLoose (txn : WriteTxn Page) (freeDbi : Bool) (pgno : Nat) (fault : Bool) :
    Option (Except PageRc Unit × WriteTxn Page) :=
  if txn.dirty pgno ∧ freeDbi = false then
    pure (.ok (), {txn with loosePgs := pgno :: txn.loosePgs, inUse := txn.inUse.erase pgno})
  else do
    let (rc, freePgs) ← txn.freePgs.append (UInt64.ofNat pgno) fault
    if rc = .success then
      pure (.ok (), {txn with freePgs := freePgs, inUse := txn.inUse.erase pgno})
    else pure (.error .enomem, {txn with freePgs := freePgs})

/-- `for (i = mop[0]; i && mop[i] < pg; i--) mop[j--] = mop[i]`. -/
def releaseShift (pg : UInt64) : Nat → Nat → Array UInt64 → Option (Nat × Array UInt64)
  | 0, _, mop => pure (0, mop)
  | i + 1, j, mop => do
      let cell ← mop[i + 1]?
      if cell < pg then do
        let mop ← write mop j cell
        releaseShift pg i (j - 1) mop
      else pure (i + 1, mop)

/-- The pages from `pg` on go to their places in the list. -/
def releaseRange (mop : Array UInt64) (pg : UInt64) (ovpages : Nat) : Option (Array UInt64) := do
  let count ← mop[0]?
  let (i, mop) ← releaseShift pg count.toNat (count.toNat + ovpages) mop
  let mop ← fillRange i ovpages pg mop
  write mop 0 (count + UInt64.ofNat ovpages)

/-- The entry of the pages leaves its list. -/
def WriteTxn.dropEntry (txn : WriteTxn Page) (pgno : Nat) : WriteTxn Page :=
  if txn.dirty pgno then {txn with
    dirtyList := txn.dirtyList.filter fun dirty => dirty.pgno ≠ pgno
    dirtyRoom := txn.dirtyRoom + 1}
  else {txn with spillPgs := txn.spillPgs.filter fun span => span.1 ≠ pgno}

/-- The pages from `pgno` on leave the trees. -/
def WriteTxn.leave (txn : WriteTxn Page) (pgno num : Nat) : WriteTxn Page :=
  {txn with inUse := txn.inUse \ Finset.Ico pgno (pgno + num)}

/-- The freed list takes the pages, and no commit reuses them while a reader may see them. -/
def retirePages (txn : WriteTxn Page) (pgno ovpages : Nat) (fault : Bool) :
    Option (Except PageRc Unit × WriteTxn Page) := do
  let (rc, freePgs) ← txn.freePgs.appendRange (UInt64.ofNat pgno) ovpages fault
  let txn := {txn with freePgs := freePgs}
  if rc = .success then pure (.ok (), txn.leave pgno ovpages)
  else pure (.error .enomem, txn)

/-- Overflow pages that the transaction has written itself go back to the list of ready pages, if
there is one. -/
def ovpageFree (txn : WriteTxn Page) (pgno ovpages : Nat) (fault : Bool) :
    Option (Except PageRc Unit × WriteTxn Page) :=
  match txn.pghead, txn.dirty pgno || txn.spilled pgno with
  | some mop, true => do
      let (rc, mop) ← mop.need ovpages fault
      let txn := {txn with pghead := some mop}
      if rc = .success then do
        let ids ← releaseRange mop.ids (UInt64.ofNat pgno) ovpages
        let txn := {txn.dropEntry pgno with pghead := some {mop with ids := ids}}
        pure (.ok (), txn.leave pgno ovpages)
      else pure (.error .enomem, txn)
  | _, _ => retirePages txn pgno ovpages fault

/-- The spill goes through the dirty list from its tail and leaves out loose pages and the ones that
cursors still need. -/
def spillPick (loose keep : List Nat) : List (DirtyPage Page) → Nat → List (DirtyPage Page)
  | [], _ => []
  | _, 0 => []
  | dp :: rest, need + 1 =>
      if dp.pgno ∈ loose ∨ dp.pgno ∈ keep then spillPick loose keep rest (need + 1)
      else dp :: spillPick loose keep rest need

/-- The picked pages go to the file. -/
def File.flush (file : File Page) (picked : List (DirtyPage Page)) : File Page :=
  picked.foldl (fun file dirty => file.write dirty.pgno dirty.pages) file

/-- A write may fail after some of the entries. -/
def pageSpill (txn : WriteTxn Page) (file : File Page) (keep : List Nat) (need : Nat)
    (stop : Option Nat) : Except PageRc Unit × WriteTxn Page × File Page :=
  let picked := (spillPick txn.loosePgs keep txn.dirtyList.reverse need).reverse
  match stop with
  | some written => (.error .other, {txn with error := true}, file.flush (picked.take written))
  | none =>
      (.ok (),
        {txn with
          dirtyList := txn.dirtyList.filter fun dirty => ¬ picked.any (·.pgno = dirty.pgno)
          dirtyRoom := txn.dirtyRoom + picked.length
          spillPgs := txn.spillPgs ++ picked.map DirtyPage.span},
        file.flush picked)

/-- These are the calls of the trees. Each one says what the calls of others will return to it: the
oldest transaction that `mdb_find_oldest` finds and which allocations of memory fail. -/
inductive PageOp (Page : Type) where
  | touch (pgno found : Nat) (fault : Nat → Bool)
  | new (pages : List Page) (found : Nat) (fault : Nat → Bool)
  | edit (pgno : Nat) (pages : List Page)
  | loose (freeDbi : Bool) (pgno : Nat) (fault : Bool)
  | ovpageFree (pgno ovpages : Nat) (fault : Bool)
  | unspill (pgno : Nat) (fault : Bool)
  | spill (keep : List Nat) (need : Nat) (stop : Option Nat)

/-- These calls take and free no pages. -/
def PageOp.inPlace (op : PageOp Page) : Bool :=
  match op with
  | .edit _ _ => true
  | .unspill _ _ => true
  | .spill _ _ _ => true
  | _ => false

/-- A result of the page functions. -/
def Work.after {Result : Type} (work : Work Page)
    (outcome : Option (Except PageRc Result × EnvPages × WriteTxn Page)) :
    Except Stop (Except PageRc Unit × Work Page) :=
  match outcome with
  | none => .error .assertion
  | some (rc, env, txn) => .ok (rc.map fun _ => (), {work with env := env, txn := txn})

/-- A failed transaction takes no more calls, and the trees call with pages that they use. -/
def PageOp.perform (op : PageOp Page) (work : Work Page) :
    Except Stop (Except PageRc Unit × Work Page) :=
  let txn := work.txn
  if txn.error then .error .disabled
  else
    match op with
    | .touch pgno found fault =>
        if txn.whole pgno 1 then work.after (pageTouch work.env txn work.file pgno found fault)
        else .error .disabled
    | .new pages found fault =>
        -- The number of the pages is a positive `int`.
        if 0 < pages.length ∧ pages.length < 2 ^ 31 then
          work.after (pageNew work.env txn pages found fault)
        else .error .disabled
    | .edit pgno pages =>
        if txn.whole pgno pages.length ∧ txn.dirty pgno ∧ pages ≠ [] then
          .ok (.ok (), {work with txn := txn.fill pgno pages})
        else .error .disabled
    | .loose freeDbi pgno fault =>
        if txn.whole pgno 1 then
          work.after ((pageLoose txn freeDbi pgno fault).map fun (rc, txn) => (rc, work.env, txn))
        else .error .disabled
    | .ovpageFree pgno ovpages fault =>
        if txn.whole pgno ovpages ∧ 0 < ovpages then
          work.after ((DbBench.ovpageFree txn pgno ovpages fault).map fun (rc, txn) =>
            (rc, work.env, txn))
        else .error .disabled
    | .unspill pgno fault =>
        if pgno ∈ txn.inUse then
          work.after ((pageUnspill txn work.file pgno fault).map fun (rc, txn) =>
            (rc, work.env, txn))
        else .error .disabled
    | .spill keep need stop =>
        let (rc, txn, file) := pageSpill txn work.file keep need stop
        .ok (rc, ⟨work.env, txn, file⟩)

/-- An operation of a tree makes several calls and ends with the first failure. -/
def performAll : List (PageOp Page) → Work Page → Except Stop (Except PageRc Unit × Work Page)
  | [], work => .ok (.ok (), work)
  | op :: rest, work => do
      let (rc, work) ← op.perform work
      match rc with
      | .error rc => .ok (.error rc, work)
      | .ok () => performAll rest work

end DbBench
