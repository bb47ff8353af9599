import DbBench.Construction.Midl
import DbBench.Library.KeyValue
import DbBench.Library.Transition

/-
This file states the purpose of the dirty list of a write transaction: a map from page numbers to
pages in memory, with room for a fixed number of them.
-/

namespace DbBench

open KeyValue Transition

variable {Ptr : Type}

/-- A transaction puts pages on its dirty list and looks for them. -/
inductive DirtyCall (Ptr : Type) where
  | insert (id : MdbID2 Ptr)
  | find (pgno : UInt64)
  deriving DecidableEq

inductive DirtyReply (Ptr : Type) where
  | code (rc : Int)
  | page (found : Option Ptr)
  deriving DecidableEq

/-- An access outside of the array is the only fault of the list. -/
inductive OutOfBounds where
  | cell
  deriving DecidableEq

/-- `mdb_page_get` looks at the cell that the search returns. -/
def Mid2l.find (ids : Array (MdbID2 Ptr)) (pgno : UInt64) : Option (Option Ptr) := do
  let count ← ids[0]?
  if count.mid.toNat = 0 then pure none
  else do
    let x ← Mid2l.search ids pgno
    if x ≤ count.mid.toNat then do
      let cell ← ids[x]?
      pure (if cell.mid = pgno then some cell.mptr else none)
    else pure none

/-- The list in memory. -/
def Mid2l.perform : Machine (Array (MdbID2 Ptr)) (DirtyCall Ptr) (DirtyReply Ptr) OutOfBounds :=
  fun ids call =>
    match call with
    | .insert id =>
        match Mid2l.insert ids id with
        | some (rc, ids) => .ok (.code rc, ids)
        | none => .error .cell
    | .find pgno =>
        match Mid2l.find ids pgno with
        | some found => .ok (.page found, ids)
        | none => .error .cell

/-- The map with the number of its pages. -/
structure DirtyPages (Ptr : Type) where
  pages : Store UInt64 Ptr
  room : Nat

/-- A page number that is present is refused first, then a page without room. -/
def DirtyPages.perform : Reference (DirtyPages Ptr) (DirtyCall Ptr) (DirtyReply Ptr) :=
  fun dirty call =>
    match call with
    | .insert id =>
        if (dirty.pages id.mid).isSome then (.code (-1), dirty)
        else if dirty.room = 0 then (.code (-2), dirty)
        else (.code 0, ⟨dirty.pages.write (.put id.mid id.mptr), dirty.room - 1⟩)
    | .find pgno => (.page (dirty.pages pgno), dirty)

/-- A new transaction has no dirty page. -/
def DirtyPages.start : DirtyPages Ptr := ⟨Store.empty, midlUmMax⟩

end DbBench
