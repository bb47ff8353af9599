import DbBench.Library.Cells
import Mathlib.Algebra.Ring.Nat

/-
This file contains the ID lists of liblmdb. The first cell of a list counts its entries, and the
word in front of the first cell holds the allocated length.
-/

namespace DbBench

open Cells

/-- The library sizes its lists with this constant. -/
def midlUmMax : Nat := 131071

/-- These are the return codes of the list functions. -/
inductive MidlRc where
  | success
  | enomem
  deriving DecidableEq

/-- `CMP` compares two identities. -/
def cmp (x y : UInt64) : Int := if x < y then -1 else if x > y then 1 else 0

/-- Both searches run this loop on their `unsigned` variables. The probe compares the cell at an
index with the wanted identity and is negative when the search has to go on in front of it. -/
def searchLoop (probe : Nat → Option Int) : Nat → UInt32 → UInt32 → Int → UInt32 → Option UInt32
  | 0, _, _, _, _ => none
  | fuel + 1, base, cursor, val, n =>
      if 0 < n then do
        let pivot := n >>> 1
        let cursor := base + pivot + 1
        let val ← probe cursor.toNat
        if val < 0 then searchLoop probe fuel base cursor val pivot
        else if val > 0 then searchLoop probe fuel cursor cursor val (n - (pivot + 1))
        else pure cursor
      else if val > 0 then pure (cursor + 1)
      else pure cursor

/-- A search goes over the first `n` entries. -/
def searchEntries (probe : Nat → Option Int) (n : UInt32) : Option Nat :=
  (searchLoop probe (n.toNat + 1) 0 1 0 n).map UInt32.toNat

/-- The search takes the count as an `unsigned`. -/
def Midl.search (ids : Array UInt64) (id : UInt64) : Option Nat := do
  let count ← ids[0]?
  searchEntries (fun cursor => ids[cursor]?.map fun cell => cmp cell id) count.toUInt32

/-- A list in memory. -/
structure Midl where
  allocLen : Nat
  ids : Array UInt64
  deriving DecidableEq

/-- The allocation may fail. The words of a new block are not specified. -/
def Midl.alloc (num : Nat) (fault : Bool) : Option Midl :=
  if fault then none else some ⟨num, Array.replicate (num + 1) 0⟩

/-- `realloc` keeps the words that fit into the new block. -/
def Midl.realloc (ids : Array UInt64) (words : Nat) : Array UInt64 :=
  ids.take words ++ Array.replicate (words - ids.size) 0

/-- A list that has grown goes back to the default size when the allocation succeeds. -/
def Midl.shrink (list : Midl) (fault : Bool) : Midl :=
  if list.allocLen > midlUmMax ∧ fault = false then
    ⟨midlUmMax, Midl.realloc list.ids (midlUmMax + 1)⟩
  else list

def Midl.grow (list : Midl) (num : Nat) (fault : Bool) : MidlRc × Midl :=
  if fault then (.enomem, list)
  else (.success, ⟨list.allocLen + num, Midl.realloc list.ids (list.allocLen + num + 1)⟩)

/-- The sum is an `unsigned`, and `-256` clears its last eight bits. -/
def Midl.need (list : Midl) (num : Nat) (fault : Bool) : Option (MidlRc × Midl) := do
  let count ← list.ids[0]?
  let num := (num + count.toNat) % 2 ^ 32
  if num > list.allocLen then
    let num := (num + num / 4 + (256 + 2)) % 2 ^ 32 / 256 * 256
    if fault then pure (.enomem, list)
    else pure (.success, ⟨num - 2, Midl.realloc list.ids (num - 1)⟩)
  else pure (.success, list)

/-- `mdb_midl_xappend` does not check the room. -/
def Midl.xappend (ids : Array UInt64) (id : UInt64) : Option (Array UInt64) := do
  let count ← ids[0]?
  let ids ← write ids 0 (count + 1)
  write ids (count + 1).toNat id

def Midl.append (list : Midl) (id : UInt64) (fault : Bool) : Option (MidlRc × Midl) := do
  let count ← list.ids[0]?
  let (rc, list) := if count.toNat ≥ list.allocLen then list.grow midlUmMax fault
    else (.success, list)
  if rc = .success then
    let ids ← Midl.xappend list.ids id
    pure (.success, {list with ids := ids})
  else pure (rc, list)

/-- `while (n) ids[n--] = id++` with the moved pointer. -/
def fillRange (len : Nat) : Nat → UInt64 → Array UInt64 → Option (Array UInt64)
  | 0, _, ids => pure ids
  | n + 1, id, ids => do
      let ids ← write ids (len + (n + 1)) id
      fillRange len n (id + 1) ids

def Midl.appendRange (list : Midl) (id : UInt64) (n : Nat) (fault : Bool) :
    Option (MidlRc × Midl) := do
  let count ← list.ids[0]?
  let (rc, list) := if count.toNat + n > list.allocLen then list.grow (n ||| midlUmMax) fault
    else (.success, list)
  if rc = .success then
    let ids ← write list.ids 0 (count + UInt64.ofNat n)
    let ids ← fillRange count.toNat n id ids
    pure (.success, {list with ids := ids})
  else pure (rc, list)

/-- The inner loop of the merge moves the entries that are below `mergeId`. -/
def mergeShift (mergeId : UInt64) :
    Nat → Nat → UInt64 → Array UInt64 → Option (Nat × Nat × UInt64 × Array UInt64)
  | 0, k, oldId, ids => if oldId < mergeId then none else pure (0, k, oldId, ids)
  | j + 1, k, oldId, ids =>
      if oldId < mergeId then do
        let ids ← write ids k oldId
        let oldId ← ids[j]?
        mergeShift mergeId j (k - 1) oldId ids
      else pure (j + 1, k, oldId, ids)

/-- The outer loop of the merge takes the entries of the second list from its end. -/
def mergeLoop (merge : Array UInt64) :
    Nat → Nat → Nat → UInt64 → Array UInt64 → Option (Array UInt64)
  | 0, _, _, _, ids => pure ids
  | i + 1, j, k, oldId, ids => do
      let mergeId ← merge[i + 1]?
      let (j, k, oldId, ids) ← mergeShift mergeId j k oldId ids
      let ids ← write ids k mergeId
      mergeLoop merge i j (k - 1) oldId ids

/-- During the scan the count is the largest identity and stops it. -/
def Midl.xmerge (idl merge : Array UInt64) : Option (Array UInt64) := do
  let i ← merge[0]?
  let j ← idl[0]?
  let total := i + j
  let idl ← write idl 0 (-1)
  let oldId ← idl[j.toNat]?
  let idl ← mergeLoop merge i.toNat j.toNat total.toNat oldId idl
  write idl 0 total

/-- A segment with fewer steps than this is sorted by insertion. -/
def small : Nat := 8

/-- The inner loop of the insertion sort stops at the first cell that is not below `a`. -/
def insertShift (a : UInt64) : Nat → Array UInt64 → Option (Array UInt64)
  | 0, ids => write ids 1 a
  | i + 1, ids => do
      let cell ← ids[i + 1]?
      if cell ≥ a then write ids (i + 2) a
      else do
        let ids ← write ids (i + 2) cell
        insertShift a i ids

/-- The outer loop of the insertion sort runs `rounds` times from `j` on. -/
def insertLoop : Nat → Nat → Array UInt64 → Option (Array UInt64)
  | 0, _, ids => pure ids
  | rounds + 1, j, ids => do
      let a ← ids[j]?
      let ids ← insertShift a (j - 1) ids
      insertLoop rounds (j + 1) ids

/-- `do i++; while (ids[i] > a)`, from the moved index on. -/
def scanUp (ids : Array UInt64) (a : UInt64) : Nat → Nat → Option Nat
  | 0, _ => none
  | fuel + 1, i => do
      let cell ← ids[i]?
      if cell > a then scanUp ids a fuel (i + 1) else pure i

/-- `do j--; while (ids[j] < a)`. -/
def scanDown (ids : Array UInt64) (a : UInt64) : Nat → Option Nat
  | 0 => none
  | j + 1 => do
      let cell ← ids[j]?
      if cell < a then scanDown ids a j else pure j

/-- The loop of the partition. -/
def partition (a : UInt64) : Nat → Nat → Nat → Array UInt64 → Option (Nat × Nat × Array UInt64)
  | 0, _, _, _ => none
  | fuel + 1, i, j, ids => do
      let i ← scanUp ids a ids.size (i + 1)
      let j ← scanDown ids a j
      if j < i then pure (i, j, ids)
      else do
        let ids ← swap ids i j
        partition a fuel i j ids

/-- A swap that `MIDL_SWAP` makes under a condition. -/
def swapBelow (first second : Nat) (ids : Array UInt64) : Option (Array UInt64) := do
  let left ← ids[first]?
  let right ← ids[second]?
  if left < right then swap ids first second else pure ids

/-- The median of left, center and right becomes the pivot, which ends at the returned `j`. -/
def splitSegment (l ir : Nat) (ids : Array UInt64) : Option (Nat × Nat × Array UInt64) := do
  let k := (l + ir) >>> 1
  let ids ← swap ids k (l + 1)
  let ids ← swapBelow l ir ids
  let ids ← swapBelow (l + 1) ir ids
  let ids ← swapBelow l (l + 1) ids
  let a ← ids[l + 1]?
  let (i, j, ids) ← partition a ids.size (l + 1) ir ids
  let cell ← ids[j]?
  let ids ← write ids (l + 1) cell
  let ids ← write ids j a
  pure (i, j, ids)

/-- The stack holds one pair of bounds for each bit of an `int`. -/
def istackLength : Nat := 64

/-- The main loop pushes the larger part and goes on with the smaller one. -/
def sortLoop : Nat → Array Nat → Nat → Nat → Nat → Array UInt64 → Option (Array UInt64)
  | 0, _, _, _, _, _ => none
  | fuel + 1, istack, jstack, l, ir, ids =>
      if ir - l < small then do
        let ids ← insertLoop (ir - l) (l + 1) ids
        if jstack = 0 then pure ids
        else do
          let ir ← istack[jstack]?
          let l ← istack[jstack - 1]?
          sortLoop fuel istack (jstack - 2) l ir ids
      else do
        let (i, j, ids) ← splitSegment l ir ids
        let jstack := jstack + 2
        if (ir : Int) - i + 1 ≥ (j : Int) - l then do
          let istack ← write istack jstack ir
          let istack ← write istack (jstack - 1) i
          sortLoop fuel istack jstack l (j - 1) ids
        else do
          let istack ← write istack jstack (j - 1)
          let istack ← write istack (jstack - 1) l
          sortLoop fuel istack jstack i ir ids

/-- The sort ends within two rounds for every entry. -/
def Midl.sort (ids : Array UInt64) : Option (Array UInt64) := do
  let count ← ids[0]?
  sortLoop (2 * count.toNat + 1) (Array.replicate istackLength 0) 0 1 count.toNat ids

/-- An identity with the pointer that belongs to it. -/
structure MdbID2 (Ptr : Type) where
  mid : UInt64
  mptr : Ptr
  deriving DecidableEq

section
variable {Ptr : Type}

/-- The second kind of list ascends, so its search compares the other way. -/
def Mid2l.search (ids : Array (MdbID2 Ptr)) (id : UInt64) : Option Nat := do
  let count ← ids[0]?
  searchEntries (fun cursor => ids[cursor]?.map fun cell => cmp id cell.mid)
    count.mid.toUInt32

/-- `for (i = n; i > x; i--) ids[i] = ids[i - 1]`. -/
def insertMove (x : Nat) : Nat → Array (MdbID2 Ptr) → Option (Array (MdbID2 Ptr))
  | 0, ids => pure ids
  | i + 1, ids =>
      if i + 1 > x then do
        let cell ← ids[i]?
        let ids ← write ids (i + 1) cell
        insertMove x i ids
      else pure ids

/-- `x <= ids[0].mid && ids[x].mid == mid`. -/
def Mid2l.stands (ids : Array (MdbID2 Ptr)) (count : UInt64) (x : Nat) (mid : UInt64) :
    Option Bool :=
  if x ≤ count.toNat then ids[x]?.map fun cell => decide (cell.mid = mid) else pure false

/-- The return code is `-1` for a duplicate and `-2` for a list without room. -/
def Mid2l.insert (ids : Array (MdbID2 Ptr)) (id : MdbID2 Ptr) :
    Option (Int × Array (MdbID2 Ptr)) := do
  let x ← Mid2l.search ids id.mid
  if x < 1 then pure (-2, ids)
  else do
    let count ← ids[0]?
    let there ← Mid2l.stands ids count.mid x id.mid
    if there then pure (-1, ids)
    else if count.mid.toNat ≥ midlUmMax then pure (-2, ids)
    else do
      let ids ← write ids 0 {count with mid := count.mid + 1}
      let ids ← insertMove x (count.mid + 1).toUInt32.toNat ids
      let ids ← write ids x id
      pure (0, ids)

end

end DbBench
