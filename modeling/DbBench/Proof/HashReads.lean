import DbBench.Construction.HashPointer
import Mathlib.Data.List.Nodup

namespace DbBench

namespace ShardHash.Pointer

def Trace.extend (trace : Trace) (reads : List Nat) (rounds : Nat) : Trace :=
  ⟨trace.reads ++ reads, trace.rounds + rounds⟩

@[simp] theorem Trace.extend_extend (trace : Trace) (first second : List Nat)
    (rounds later : Nat) :
    (trace.extend first rounds).extend second later =
      trace.extend (first ++ second) (rounds + later) := by
  simp [Trace.extend, Nat.add_assoc]

/-- A read inside of the key returns its byte and enters its index. -/
theorem read_eq {data : Bytes} {idx : Nat} {byte : UInt8} (found : data[idx]? = some byte)
    (trace : Trace) : read data idx trace = some (byte, trace.extend [idx] 0) := by
  simp [read, found, Trace.extend]

/-- The bytes behind the pointer are read through offsets from it. -/
theorem getElem?_of_drop {data rest : Bytes} {ptr : Nat} (behind : data.drop ptr = rest)
    (offset : Nat) : data[ptr + offset]? = rest[offset]? := by
  rw [← behind, List.getElem?_drop]

theorem decodeFixed32_spec {data rest : Bytes} {ptr : Nat} {byte0 byte1 byte2 byte3 : UInt8}
    (behind : data.drop ptr = byte0 :: byte1 :: byte2 :: byte3 :: rest) (trace : Trace) :
    decodeFixed32 data ptr trace = some (ShardHash.decodeFixed32 byte0 byte1 byte2 byte3,
      trace.extend (List.range' ptr 4) 0) := by
  have found := getElem?_of_drop behind
  have first := read_eq (found 0)
  have second := read_eq (found 1)
  have third := read_eq (found 2)
  have fourth := read_eq (found 3)
  simp only [Nat.add_zero] at first
  simp only [decodeFixed32, bind, StateT.bind, first, second, third, fourth, Option.bind_some,
    Trace.extend_extend]
  rfl

/-- From the pointer on, the loop does what the loop over the bytes behind it does. It runs once
for every four of them and reads them in their order. -/
theorem hashBlocks_spec {data : Bytes} (rest : Bytes) {ptr : Nat} (behind : data.drop ptr = rest)
    (h : UInt32) (trace : Trace) :
    hashBlocks data data.length ptr h trace =
        some (((ShardHash.hashBlocks h rest).1, ptr + 4 * (rest.length / 4)),
          trace.extend (List.range' ptr (4 * (rest.length / 4))) (rest.length / 4)) ∧
      (ShardHash.hashBlocks h rest).2 = data.drop (ptr + 4 * (rest.length / 4)) := by
  have length : rest.length = data.length - ptr := by rw [← behind, List.length_drop]
  match rest with
  | byte0 :: byte1 :: byte2 :: byte3 :: rest =>
      simp only [List.length_cons] at length
      have inside : ptr + 4 ≤ data.length := by omega
      have onward : data.drop (ptr + 4) = rest := by
        rw [← List.drop_drop, behind]
        rfl
      have blocks : (byte0 :: byte1 :: byte2 :: byte3 :: rest).length / 4 =
          1 + rest.length / 4 := by
        simp only [List.length_cons]
        omega
      have word := decodeFixed32_spec behind trace
      have round : endRound (trace.extend (List.range' ptr 4) 0) =
          some ((), trace.extend (List.range' ptr 4) 1) := rfl
      obtain ⟨later, remains⟩ := hashBlocks_spec rest onward _ (trace.extend (List.range' ptr 4) 1)
      rw [blocks, Nat.mul_add, Nat.mul_one, ← Nat.add_assoc, ← List.range'_append_1]
      refine ⟨?_, remains⟩
      rw [hashBlocks, if_pos inside]
      simp only [bind, StateT.bind, word, round, Option.bind_some]
      rw [later, Trace.extend_extend]
      rfl
  | [] | [_] | [_, _] | [_, _, _] =>
      simp only [List.length_cons, List.length_nil] at length
      rw [hashBlocks, if_neg (by omega)]
      refine ⟨?_, ?_⟩
      · show some ((h, ptr), trace) = _
        simp [Trace.extend, ShardHash.hashBlocks]
      · simp [ShardHash.hashBlocks, behind]

theorem hashTail1_spec {data rest : Bytes} {ptr : Nat} {byte0 : UInt8}
    (behind : data.drop ptr = byte0 :: rest) (h : UInt32) (trace : Trace) :
    hashTail1 data ptr h trace = some (ShardHash.hashTail1 h byte0, trace.extend [ptr] 0) := by
  have first := read_eq (getElem?_of_drop behind 0) trace
  rw [Nat.add_zero] at first
  simp only [hashTail1, bind, StateT.bind, first, Option.bind_some]
  rfl

theorem hashTail2_spec {data rest : Bytes} {ptr : Nat} {byte0 byte1 : UInt8}
    (behind : data.drop ptr = byte0 :: byte1 :: rest) (h : UInt32) (trace : Trace) :
    hashTail2 data ptr h trace =
      some (ShardHash.hashTail2 h byte0 byte1, trace.extend [ptr + 1, ptr] 0) := by
  have second := read_eq (getElem?_of_drop behind 1) trace
  simp only [hashTail2, bind, StateT.bind, second, Option.bind_some]
  rw [hashTail1_spec behind, Trace.extend_extend]
  rfl

theorem hashTail3_spec {data rest : Bytes} {ptr : Nat} {byte0 byte1 byte2 : UInt8}
    (behind : data.drop ptr = byte0 :: byte1 :: byte2 :: rest) (h : UInt32) (trace : Trace) :
    hashTail3 data ptr h trace = some (ShardHash.hashTail3 h byte0 byte1 byte2,
      trace.extend [ptr + 2, ptr + 1, ptr] 0) := by
  have third := read_eq (getElem?_of_drop behind 2) trace
  simp only [hashTail3, bind, StateT.bind, third, Option.bind_some]
  rw [hashTail2_spec behind, Trace.extend_extend]
  rfl

/-- The switch reads the bytes that the loop leaves, the last one first. -/
theorem hashTail_spec {data rest : Bytes} {ptr : Nat} (behind : data.drop ptr = rest)
    (short : rest.length < 4) (h : UInt32) (trace : Trace) :
    hashTail data ptr h (data.length - ptr) trace = some (ShardHash.hashTail h rest,
      trace.extend (List.range' ptr rest.length).reverse 0) := by
  have length : data.length - ptr = rest.length := by rw [← behind, List.length_drop]
  rw [length]
  match rest, short with
  | [], _ =>
      show some (h, trace) = _
      simp [ShardHash.hashTail, Trace.extend]
  | [byte0], _ => exact hashTail1_spec behind h trace
  | [byte0, byte1], _ => exact hashTail2_spec behind h trace
  | [byte0, byte1, byte2], _ => exact hashTail3_spec behind h trace

/-- The hash that moves a pointer computes the hash of the bytes. -/
theorem hash_spec (data : Bytes) (seed : UInt32) :
    hash data data.length seed .start = some (ShardHash.hash data seed,
      ⟨List.range' 0 (4 * (data.length / 4)) ++
        (List.range' (4 * (data.length / 4)) (data.length % 4)).reverse, data.length / 4⟩) := by
  obtain ⟨blocks, remains⟩ := hashBlocks_spec data List.drop_zero
    (seed.toUInt64 ^^^ (UInt64.ofNat data.length * multiplier.toUInt64)).toUInt32 .start
  rw [Nat.zero_add] at blocks remains
  have few : (data.drop (4 * (data.length / 4))).length = data.length % 4 := by
    rw [List.length_drop]
    omega
  have tail := @hashTail_spec data _ (4 * (data.length / 4)) rfl (few ▸ Nat.mod_lt _ (by decide))
  rw [few] at tail
  simp only [hash, bind, StateT.bind, blocks, Option.bind_some, tail, Trace.extend_extend]
  rw [ShardHash.hash, remains]
  simp [Trace.start, Trace.extend]

/-- `hashSlice` reads its slice in the same way. -/
theorem hashSlice_spec (s : Bytes) :
    hashSlice s .start = some (ShardHash.hashSlice s,
      ⟨List.range' 0 (4 * (s.length / 4)) ++
        (List.range' (4 * (s.length / 4)) (s.length % 4)).reverse, s.length / 4⟩) :=
  hash_spec s 0

/-- Every key comes to an end with this value, after one round for every four bytes, with no read
outside of the key and with one read of each index inside. -/
def ReadsOnce (hash : Bytes → Nat → UInt32 → Reading UInt32) (value : Bytes → UInt32 → UInt32) :
    Prop :=
  ∀ (data : Bytes) (seed : UInt32), ∃ trace : Trace,
    hash data data.length seed .start = some (value data seed, trace) ∧
      trace.rounds = data.length / 4 ∧ (∀ idx ∈ trace.reads, idx < data.length) ∧
      ∀ idx < data.length, trace.reads.count idx = 1

theorem readsOnce : ReadsOnce hash ShardHash.hash := by
  intro data seed
  refine ⟨_, hash_spec data seed, rfl, ?_⟩
  have order : List.Perm (List.range' 0 (4 * (data.length / 4)) ++
      (List.range' (4 * (data.length / 4)) (data.length % 4)).reverse)
      (List.range data.length) := by
    have joined := List.range'_append_1 (s := 0) (m := 4 * (data.length / 4))
      (n := data.length % 4)
    rw [Nat.zero_add, Nat.div_add_mod] at joined
    rw [List.range_eq_range', ← joined]
    exact (List.reverse_perm _).append_left _
  constructor
  · intro idx read
    exact List.mem_range.mp (order.mem_iff.mp read)
  · intro idx inside
    rw [order.count_eq]
    exact List.count_eq_one_of_mem List.nodup_range (List.mem_range.mpr inside)

end ShardHash.Pointer

open ShardHash.Pointer in
/-- The shard hash reads each byte of a key exactly once and nothing else, in both adapters. -/
theorem shardHash_reads_once :
    ReadsOnce LevelDB.readHash LevelDB.hash ∧ ReadsOnce RocksDB.readHash RocksDB.hash :=
  ⟨readsOnce, readsOnce⟩

end DbBench
