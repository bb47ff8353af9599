import DbBench.Construction.StateDB

/-
This file contains the shard hash. Both sharding adapters carry the same code.
-/

namespace DbBench.ShardHash

/-- The multiplier `m` of the hash. -/
def multiplier : UInt32 := 0xc6a4a793

/-- The shift `r` of the tail. -/
def tailShift : UInt32 := 24

/-- Four bytes form a word with the least significant byte first. -/
def decodeFixed32 (byte0 byte1 byte2 byte3 : UInt8) : UInt32 :=
  byte0.toUInt32 ||| (byte1.toUInt32 <<< 8) ||| (byte2.toUInt32 <<< 16) ||| (byte3.toUInt32 <<< 24)

/-- The loop picks up four bytes at a time and returns the bytes it leaves. -/
def hashBlocks (h : UInt32) : Bytes → UInt32 × Bytes
  | byte0 :: byte1 :: byte2 :: byte3 :: rest =>
      let w := decodeFixed32 byte0 byte1 byte2 byte3
      let h := h + w
      let h := h * multiplier
      let h := h ^^^ (h >>> 16)
      hashBlocks h rest
  | rest => (h, rest)

/-- `case 1` of the switch ends the hash. -/
def hashTail1 (h : UInt32) (byte0 : UInt8) : UInt32 :=
  let h := h + byte0.toUInt32
  let h := h * multiplier
  h ^^^ (h >>> tailShift)

/-- `case 2` falls through to `case 1`. -/
def hashTail2 (h : UInt32) (byte0 byte1 : UInt8) : UInt32 :=
  hashTail1 (h + (byte1.toUInt32 <<< 8)) byte0

/-- `case 3` falls through to `case 2`. -/
def hashTail3 (h : UInt32) (byte0 byte1 byte2 : UInt8) : UInt32 :=
  hashTail2 (h + (byte2.toUInt32 <<< 16)) byte0 byte1

/-- The switch picks up the remaining bytes. -/
def hashTail (h : UInt32) : Bytes → UInt32
  | [byte0] => hashTail1 h byte0
  | [byte0, byte1] => hashTail2 h byte0 byte1
  | [byte0, byte1, byte2] => hashTail3 h byte0 byte1 byte2
  | _ => h

/-- The length is a `size_t`, so the product is formed in 64 bits before `h` keeps the low half. -/
def hash (data : Bytes) (seed : UInt32) : UInt32 :=
  let h := (seed.toUInt64 ^^^ (UInt64.ofNat data.length * multiplier.toUInt64)).toUInt32
  let blocks := hashBlocks h data
  hashTail blocks.1 blocks.2

def hashSlice (s : Bytes) : UInt32 := hash s 0

def shard (hash : UInt32) (shardBits : Nat) : UInt32 := hash % UInt32.ofNat (1 <<< shardBits)

/-- Four shard bits select one of sixteen shards. -/
theorem shard_lt (hash : UInt32) : (shard hash 4).toNat < 16 := by
  rw [shard, UInt32.toNat_mod]
  exact Nat.mod_lt _ (by decide)

end DbBench.ShardHash
