import DbBench.Construction.Midl
import Mathlib.Data.List.Sort
import Mathlib.Data.Finset.Sort

/-
This file contains how a write transaction of liblmdb takes pages and gives them back. The trees
are given by the numbers of their pages, and what the pages hold stays open.
-/

namespace DbBench

open Cells

/-- A record of the free list in the database holds the pages that a transaction has freed. -/
structure FreeRecord where
  txnid : Nat
  idl : Array UInt64
  deriving DecidableEq

/-- The page numbers of a list. -/
def pagesOf (entries : List UInt64) : List Nat := entries.map UInt64.toNat

/-- The first word of a record counts its pages. -/
def FreeRecord.pages (record : FreeRecord) : List Nat :=
  match record.idl.toList with
  | [] => []
  | count :: rest => pagesOf (rest.take count.toNat)

/-- A new page in memory, or several ones that follow each other. -/
structure DirtyPage (Page : Type) where
  pgno : Nat
  pages : List Page

/-- These are the values of the environment that the page functions use. -/
structure EnvPages where
  pgoldest : Nat
  maxpg : Nat
  maxfree1pg : Nat
  deriving DecidableEq

/-- A write transaction. The set `inUse` holds the page numbers of its trees, and `freeDB` the
records of the tree that keeps the free lists. -/
structure WriteTxn (Page : Type) where
  txnid : Nat
  nextPgno : Nat
  inUse : Finset Nat
  freeDB : List FreeRecord
  dirtyList : List (DirtyPage Page)
  dirtyRoom : Nat
  spillPgs : List (Nat × Nat)
  loosePgs : List Nat
  freePgs : Midl
  pghead : Option Midl
  pglast : Nat
  error : Bool

/-- The data file, with the numbers of the pages that were written after the last sync. -/
structure File (Page : Type) where
  pages : Nat → Page
  unsynced : List Nat

/-- These are the failures of the page functions. -/
inductive PageRc where
  | notFound
  | txnFull
  | mapFull
  | enomem
  | other
  deriving DecidableEq

variable {Page : Type}

/-- The search for `n2 + 1` pages in a row starts with the cell `i` at the tail. -/
def seekRange (mop : Array UInt64) (n2 : Nat) : Nat → Option (Option Nat)
  | 0 => pure none
  | i + 1 => do
      let pgno ← mop[i + 1]?
      let other ← mop[i + 1 - n2]?
      if other = pgno + UInt64.ofNat n2 then pure (some (i + 1))
      else if i > n2 then seekRange mop n2 i
      else pure none

/-- These are the variables of the loop in `mdb_page_alloc`. -/
structure Fetching where
  pghead : Option Midl
  pglast : Nat
  pgoldest : Nat
  last : Nat
  oldest : Nat
  foundOld : Bool

/-- The length of the list of pages that are ready. -/
def mopLength : Option Midl → Option Nat
  | none => pure 0
  | some mop => mop.ids[0]?.map fun count => count.toUInt32.toNat

/-- The search runs when the list is long enough. -/
def seek (pghead : Option Midl) (n2 : Nat) : Option (Option Nat) :=
  match pghead with
  | none => pure none
  | some mop => do
      let mopLen ← mopLength (some mop)
      if mopLen > n2 then seekRange mop.ids n2 mopLen else pure none

/-- A record is too recent when the last commit or a reader may still need its pages. The loop asks
for the oldest reader at most once, and `found` is the answer. -/
def Fetching.tooRecent (loop : Fetching) (found last : Nat) : Bool × Fetching :=
  if loop.oldest ≤ last then
    let loop := if loop.foundOld then loop
      else {loop with oldest := found, pgoldest := found, foundOld := true}
    (decide (loop.oldest ≤ last), loop)
  else (false, loop)

/-- The list is created or gets room for more pages. -/
def poolRoom (pghead : Option Midl) (i : Nat) (fault : Bool) : Option (Option Midl) :=
  match pghead with
  | none => pure (Midl.alloc i fault)
  | some mop => do
      let (rc, mop) ← mop.need i fault
      pure (if rc = .success then some mop else none)

/-- The pages of a record go to the list. -/
def Fetching.merge (loop : Fetching) (record : FreeRecord) (fault : Bool) :
    Option (Option Fetching) := do
  let i ← record.idl[0]?
  match ← poolRoom loop.pghead i.toUInt32.toNat fault with
  | none => pure none
  | some mop => do
      let ids ← Midl.xmerge mop.ids record.idl
      pure (some {loop with
        pghead := some {mop with ids := ids}, pglast := record.txnid, last := record.txnid})

/-- The loop ends with a place in the list, or wants new pages, or fails. -/
inductive FetchEnd where
  | found (i : Nat)
  | newPages
  | failed
  deriving DecidableEq

/-- A round of the loop stops it or goes on to the next record. -/
inductive FetchRound where
  | stop (place : FetchEnd) (loop : Fetching)
  | again (retry : Int) (loop : Fetching)

/-- A search without success costs one of the retries. Then the round gets the next record. -/
def fetchRound (n2 found : Nat) (next : Option FreeRecord) (fault : Bool) (retry : Int)
    (loop : Fetching) : Option FetchRound := do
  match ← seek loop.pghead n2 with
  | some i => pure (.stop (.found i) loop)
  | none => do
      let mopLen ← mopLength loop.pghead
      let retry := if mopLen > n2 then retry - 1 else retry
      if mopLen > n2 ∧ retry < 0 then pure (.stop .newPages loop)
      else
        let (recent, loop) := loop.tooRecent found (loop.last + 1)
        if recent then pure (.stop .newPages loop)
        else
          match next with
          | none => pure (.stop .newPages loop)
          | some record =>
              let (recent, loop) := loop.tooRecent found record.txnid
              if recent then pure (.stop .newPages loop)
              else do
                match ← loop.merge record fault with
                | none => pure (.stop .failed loop)
                | some loop => pure (.again retry loop)

/-- The loop goes on as long as there are records. -/
def fetchLoop (n2 found : Nat) (fault : Nat → Bool) :
    List FreeRecord → Int → Fetching → Option (FetchEnd × Fetching)
  | [], retry, loop => do
      match ← fetchRound n2 found none false retry loop with
      | .stop place loop => pure (place, loop)
      | .again _ loop => pure (.newPages, loop)
  | record :: rest, retry, loop => do
      match ← fetchRound n2 found (some record) (fault rest.length) retry loop with
      | .stop place loop => pure (place, loop)
      | .again retry loop => fetchLoop n2 found fault rest retry loop

/-- `while (j < mop_len) mop[++j] = mop[++i]` with the number of its rounds. -/
def moveDown : Nat → Nat → Nat → Array UInt64 → Option (Array UInt64)
  | 0, _, _, mop => pure mop
  | rounds + 1, i, j, mop => do
      let cell ← mop[i + 1]?
      let mop ← write mop (j + 1) cell
      moveDown rounds (i + 1) (j + 1) mop

/-- The pages that end at the cell `i` leave the list. -/
def takeRange (mop : Array UInt64) (mopLen i num : Nat) : Option (Array UInt64) := do
  let mop ← write mop 0 (UInt64.ofNat (mopLen - num))
  moveDown (mopLen - num - (i - num)) i (i - num) mop

/-- The dirty list ascends, and a page stands there at most once. -/
def pageDirty (txn : WriteTxn Page) (dirty : DirtyPage Page) : Option (WriteTxn Page) :=
  if txn.dirtyList.any (fun other => other.pgno = dirty.pgno) ∨
      txn.dirtyList.length ≥ midlUmMax then none
  else some {txn with
    dirtyList := txn.dirtyList.orderedInsert (fun one other => one.pgno ≤ other.pgno) dirty
    dirtyRoom := txn.dirtyRoom - 1}

/-- A failing call marks the transaction. -/
def WriteTxn.fail {Result : Type} (txn : WriteTxn Page) (rc : PageRc) :
    Except PageRc Result × WriteTxn Page :=
  (.error rc, {txn with error := true})

/-- The records that the cursor of the loop has ahead. -/
def recordsAhead (freeDB : List FreeRecord) (last : Nat) : List FreeRecord :=
  if last = 0 then freeDB else freeDB.dropWhile fun record => record.txnid < last + 1

/-- New pages come from the end of the map, and other ones from the list. -/
def takePages (env : EnvPages) (txn : WriteTxn Page) (pages : List Page) (place : FetchEnd)
    (fault : Bool) : Option (Except PageRc Nat × WriteTxn Page) :=
  match place with
  | .failed => pure (txn.fail .enomem)
  | .newPages =>
      if txn.nextPgno + pages.length ≥ env.maxpg then pure (txn.fail .mapFull)
      else if fault then pure (txn.fail .enomem)
      else do
        let pgno := txn.nextPgno
        let txn ← pageDirty {txn with nextPgno := pgno + pages.length} ⟨pgno, pages⟩
        pure (.ok pgno, txn)
  | .found i =>
      if fault then pure (txn.fail .enomem)
      else
        match txn.pghead with
        | none => none
        | some mop => do
            let pgno ← mop.ids[i]?
            let mopLen ← mopLength (some mop)
            let ids ← takeRange mop.ids mopLen i pages.length
            let txn ← pageDirty {txn with pghead := some {mop with ids := ids}}
              ⟨pgno.toNat, pages⟩
            pure (.ok pgno.toNat, txn)

/-- The loop looks for a range in the list first. -/
def allocSearch (env : EnvPages) (txn : WriteTxn Page) (pages : List Page) (found : Nat)
    (fault : Nat → Bool) : Option (Except PageRc Nat × EnvPages × WriteTxn Page) :=
  if txn.dirtyRoom = 0 then
    let (rc, txn) := txn.fail .txnFull
    pure (rc, env, txn)
  else do
    let (place, loop) ← fetchLoop (pages.length - 1) found (fun call => fault (call + 1))
      (recordsAhead txn.freeDB txn.pglast) (pages.length * 60)
      ⟨txn.pghead, txn.pglast, env.pgoldest, txn.pglast, env.pgoldest, false⟩
    let (rc, txn) ← takePages env {txn with pghead := loop.pghead, pglast := loop.pglast} pages
      place (fault 0)
    pure (rc, {env with pgoldest := loop.pgoldest}, txn)

/-- The new pages hold whatever the memory held, which is `pages`, and `found` is the transaction
that `mdb_find_oldest` finds when it is called. A single page may be a loose one. -/
def pageAlloc (env : EnvPages) (txn : WriteTxn Page) (pages : List Page) (found : Nat)
    (fault : Nat → Bool) : Option (Except PageRc Nat × EnvPages × WriteTxn Page) :=
  match pages, txn.loosePgs with
  | [_], np :: loose => pure (.ok np, env, {txn with loosePgs := loose})
  | _, _ => allocSearch env txn pages found fault

end DbBench
