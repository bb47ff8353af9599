import DbBench.Construction.LevelDB
import DbBench.Construction.RocksDB

/-
This file contains the shard hash as the source runs it: a pointer moves over the key, and each
byte is one read through an index that may lie outside of the key.
-/

namespace DbBench.ShardHash.Pointer

/-- What the hash has read so far, and how often its loop has run. -/
structure Trace where
  reads : List Nat
  rounds : Nat
  deriving DecidableEq

def Trace.start : Trace := ⟨[], 0⟩

/-- A hash in progress ends without a value when an index lies outside of the key. -/
abbrev Reading : Type → Type := StateT Trace Option

/-- This is `data[idx]`. -/
def read (data : Bytes) (idx : Nat) : Reading UInt8 := fun trace => do
  let byte ← data[idx]?
  pure (byte, {trace with reads := trace.reads ++ [idx]})

def endRound : Reading Unit := fun trace => pure ((), {trace with rounds := trace.rounds + 1})

def decodeFixed32 (data : Bytes) (ptr : Nat) : Reading UInt32 := do
  let byte0 ← read data ptr
  let byte1 ← read data (ptr + 1)
  let byte2 ← read data (ptr + 2)
  let byte3 ← read data (ptr + 3)
  pure (ShardHash.decodeFixed32 byte0 byte1 byte2 byte3)

/-- The loop returns `h` and the moved pointer. -/
def hashBlocks (data : Bytes) (limit ptr : Nat) (h : UInt32) : Reading (UInt32 × Nat) :=
  if ptr + 4 ≤ limit then do
    let w ← decodeFixed32 data ptr
    endRound
    let h := h + w
    let h := h * multiplier
    let h := h ^^^ (h >>> 16)
    hashBlocks data limit (ptr + 4) h
  else pure (h, ptr)
termination_by limit - ptr

/-- `case 1` of the switch ends the hash. -/
def hashTail1 (data : Bytes) (ptr : Nat) (h : UInt32) : Reading UInt32 := do
  let byte0 ← read data ptr
  let h := h + byte0.toUInt32
  let h := h * multiplier
  pure (h ^^^ (h >>> tailShift))

/-- `case 2` falls through to `case 1`. -/
def hashTail2 (data : Bytes) (ptr : Nat) (h : UInt32) : Reading UInt32 := do
  let byte1 ← read data (ptr + 1)
  hashTail1 data ptr (h + (byte1.toUInt32 <<< 8))

/-- `case 3` falls through to `case 2`. -/
def hashTail3 (data : Bytes) (ptr : Nat) (h : UInt32) : Reading UInt32 := do
  let byte2 ← read data (ptr + 2)
  hashTail2 data ptr (h + (byte2.toUInt32 <<< 16))

/-- The switch is on the number of bytes between the pointer and the limit. -/
def hashTail (data : Bytes) (ptr : Nat) (h : UInt32) : Nat → Reading UInt32
  | 3 => hashTail3 data ptr h
  | 2 => hashTail2 data ptr h
  | 1 => hashTail1 data ptr h
  | _ => pure h

def hash (data : Bytes) (n : Nat) (seed : UInt32) : Reading UInt32 := do
  let h := (seed.toUInt64 ^^^ (UInt64.ofNat n * multiplier.toUInt64)).toUInt32
  let (h, ptr) ← hashBlocks data n 0 h
  hashTail data ptr h (n - ptr)

/-- The slice brings its own length. -/
def hashSlice (s : Bytes) : Reading UInt32 := hash s s.length 0

end DbBench.ShardHash.Pointer

namespace DbBench

open ShardHash.Pointer

def LevelDB.readHash : Bytes → Nat → UInt32 → Reading UInt32 := ShardHash.Pointer.hash

def RocksDB.readHash : Bytes → Nat → UInt32 → Reading UInt32 := ShardHash.Pointer.hash

end DbBench
