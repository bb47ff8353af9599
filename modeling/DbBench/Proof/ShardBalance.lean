import DbBench.Construction.LevelDB
import DbBench.Construction.RocksDB
import DbBench.Library.Mixing

namespace DbBench

namespace ShardHash

/-- One round of the loop spreads the sum of the hash and a word. -/
def spread (sum : UInt32) : UInt32 :=
  let h := sum * multiplier
  h ^^^ (h >>> 16)

/-- The hash goes on from this value through the loop and the switch. -/
def finish (h : UInt32) (data : Bytes) : UInt32 :=
  let blocks := hashBlocks h data
  hashTail blocks.1 blocks.2

theorem hash_eq_finish (data : Bytes) (seed : UInt32) :
    hash data seed =
      finish (seed.toUInt64 ^^^ (UInt64.ofNat data.length * multiplier.toUInt64)).toUInt32 data :=
  rfl

theorem finish_block (h : UInt32) (byte0 byte1 byte2 byte3 : UInt8) (rest : Bytes) :
    finish h (byte0 :: byte1 :: byte2 :: byte3 :: rest) =
      finish (spread (h + decodeFixed32 byte0 byte1 byte2 byte3)) rest := rfl

/-- The odd multiplier has this inverse. -/
theorem multiplier_unit : multiplier * 0xd8198e9b = 1 := by decide

theorem spread_injective : Function.Injective spread :=
  (Mixing.xorShift_injective (by decide) (by decide)).comp
    (Mixing.multiply_injective multiplier_unit)

/-- The switch with three bytes spreads one sum. -/
theorem hashTail3_sum {h other : UInt32} {byte0 byte1 byte2 byte0' byte1' byte2' : UInt8}
    (equal : hashTail3 h byte0 byte1 byte2 = hashTail3 other byte0' byte1' byte2') :
    h + ((byte2.toUInt32 <<< 16) + ((byte1.toUInt32 <<< 8) + byte0.toUInt32)) =
      other + ((byte2'.toUInt32 <<< 16) + ((byte1'.toUInt32 <<< 8) + byte0'.toUInt32)) := by
  simp only [← UInt32.add_assoc]
  apply Mixing.multiply_injective multiplier_unit
  apply @Mixing.xorShift_injective tailShift (by decide) (by decide)
  exact equal

/-- A missing third byte counts as zero. -/
theorem hashTail2_eq (h : UInt32) (byte0 byte1 : UInt8) :
    hashTail2 h byte0 byte1 = hashTail3 h byte0 byte1 0 := by
  simp [hashTail3]

/-- Two missing bytes count as zero. -/
theorem hashTail1_eq (h : UInt32) (byte0 : UInt8) :
    hashTail1 h byte0 = hashTail3 h byte0 0 0 := by
  simp [hashTail3, hashTail2]

/-- The hash of every string is injective in the value that it goes on from. -/
theorem finish_injective : ∀ data : Bytes, Function.Injective fun h => finish h data
  | byte0 :: byte1 :: byte2 :: byte3 :: rest => by
      intro first second equal
      have sums := spread_injective (finish_injective rest equal)
      exact (UInt32.add_left_inj _).mp sums
  | [] => fun _ _ equal => equal
  | [byte0] => by
      intro first second equal
      change hashTail1 first byte0 = hashTail1 second byte0 at equal
      rw [hashTail1_eq, hashTail1_eq] at equal
      exact (UInt32.add_left_inj _).mp (hashTail3_sum equal)
  | [byte0, byte1] => by
      intro first second equal
      change hashTail2 first byte0 byte1 = hashTail2 second byte0 byte1 at equal
      rw [hashTail2_eq, hashTail2_eq] at equal
      exact (UInt32.add_left_inj _).mp (hashTail3_sum equal)
  | [byte0, byte1, byte2] => by
      intro first second equal
      change hashTail3 first byte0 byte1 byte2 = hashTail3 second byte0 byte1 byte2 at equal
      exact (UInt32.add_left_inj _).mp (hashTail3_sum equal)

/-- Each bit of the word is a bit of one byte. -/
theorem decodeFixed32_bit (byte0 byte1 byte2 byte3 : UInt8) (i : Nat) :
    (decodeFixed32 byte0 byte1 byte2 byte3).toBitVec.getLsbD i =
      if i < 8 then byte0.toBitVec.getLsbD i
      else if i < 16 then byte1.toBitVec.getLsbD (i - 8)
      else if i < 24 then byte2.toBitVec.getLsbD (i - 16)
      else byte3.toBitVec.getLsbD (i - 24) := by
  have ends : ∀ (byte : UInt8) (j : Nat), 8 ≤ j → byte.toBitVec.getLsbD j = false :=
    fun byte j above => BitVec.getLsbD_of_ge _ _ above
  simp [decodeFixed32]
  split_ifs <;> grind

/-- The decoded word determines its bytes. -/
theorem decodeFixed32_injective {byte0 byte1 byte2 byte3 byte0' byte1' byte2' byte3' : UInt8}
    (equal : decodeFixed32 byte0 byte1 byte2 byte3 = decodeFixed32 byte0' byte1' byte2' byte3') :
    byte0 = byte0' ∧ byte1 = byte1' ∧ byte2 = byte2' ∧ byte3 = byte3' := by
  have bits : ∀ i < 32, (decodeFixed32 byte0 byte1 byte2 byte3).toBitVec.getLsbD i =
      (decodeFixed32 byte0' byte1' byte2' byte3').toBitVec.getLsbD i := by
    intro i _
    rw [equal]
  simp only [decodeFixed32_bit] at bits
  refine ⟨?_, ?_, ?_, ?_⟩ <;> apply UInt8.toBitVec_inj.mp <;> apply BitVec.eq_of_getLsbD_eq <;>
    intro i inside
  · have := bits i (by omega)
    grind
  · have := bits (8 + i) (by omega)
    grind
  · have := bits (16 + i) (by omega)
    grind
  · have := bits (24 + i) (by omega)
    grind

theorem toNat_shift8 (byte : UInt8) : (byte.toUInt32 <<< 8).toNat = byte.toNat * 256 := by
  have below := byte.toNat_lt
  simp [Nat.shiftLeft_eq]
  omega

theorem toNat_shift16 (byte : UInt8) : (byte.toUInt32 <<< 16).toNat = byte.toNat * 65536 := by
  have below := byte.toNat_lt
  simp [Nat.shiftLeft_eq]
  omega

/-- The switch with three bytes loses none of them. -/
theorem hashTail3_injective {h : UInt32} {byte0 byte1 byte2 byte0' byte1' byte2' : UInt8}
    (equal : hashTail3 h byte0 byte1 byte2 = hashTail3 h byte0' byte1' byte2') :
    byte0 = byte0' ∧ byte1 = byte1' ∧ byte2 = byte2' := by
  have sums := congrArg UInt32.toNat ((UInt32.add_right_inj h).mp (hashTail3_sum equal))
  have below := byte0.toNat_lt
  have below' := byte0'.toNat_lt
  have below1 := byte1.toNat_lt
  have below1' := byte1'.toNat_lt
  have below2 := byte2.toNat_lt
  have below2' := byte2'.toNat_lt
  simp only [UInt32.toNat_add, toNat_shift8, toNat_shift16, UInt8.toNat_toUInt32] at sums
  have low : byte0.toNat = byte0'.toNat := by omega
  have middle : byte1.toNat = byte1'.toNat := by omega
  have high : byte2.toNat = byte2'.toNat := by omega
  exact ⟨UInt8.toNat_inj.mp low, UInt8.toNat_inj.mp middle, UInt8.toNat_inj.mp high⟩

/-- The switch loses none of the bytes that the loop leaves. -/
theorem hashTail_injective (h : UInt32) : ∀ first second : Bytes, first.length = second.length →
    first.length < 4 → hashTail h first = hashTail h second → first = second
  | [], [], _, _, _ => rfl
  | [byte0], [byte0'], _, _, equal => by
      change hashTail1 h byte0 = hashTail1 h byte0' at equal
      rw [hashTail1_eq, hashTail1_eq] at equal
      obtain ⟨rfl, -, -⟩ := hashTail3_injective equal
      rfl
  | [byte0, byte1], [byte0', byte1'], _, _, equal => by
      change hashTail2 h byte0 byte1 = hashTail2 h byte0' byte1' at equal
      rw [hashTail2_eq, hashTail2_eq] at equal
      obtain ⟨rfl, rfl, -⟩ := hashTail3_injective equal
      rfl
  | [byte0, byte1, byte2], [byte0', byte1', byte2'], _, _, equal => by
      change hashTail3 h byte0 byte1 byte2 = hashTail3 h byte0' byte1' byte2' at equal
      obtain ⟨rfl, rfl, rfl⟩ := hashTail3_injective equal
      rfl
  | _ :: _ :: _ :: _ :: _, _, _, small, _ => by
      simp only [List.length_cons] at small
      omega

theorem finish_short (h : UInt32) : ∀ data : Bytes, data.length < 4 →
    finish h data = hashTail h data
  | [], _ => rfl
  | [_], _ => rfl
  | [_, _], _ => rfl
  | [_, _, _], _ => rfl
  | _ :: _ :: _ :: _ :: _, small => by
      simp only [List.length_cons] at small
      omega

/-- The bytes after the last word determine the hash only once. -/
theorem finish_short_injective (h : UInt32) {first second : Bytes}
    (same : first.length = second.length) (small : first.length < 4)
    (equal : finish h first = finish h second) : first = second := by
  rw [finish_short h first small, finish_short h second (by omega)] at equal
  exact hashTail_injective h first second same small equal

/-- Two strings agree on a word that holds no differing position. -/
theorem words_agree {byte0 byte1 byte2 byte3 byte0' byte1' byte2' byte3' : UInt8}
    {rest rest' : Bytes}
    (agree : ∀ i < 4, (byte0 :: byte1 :: byte2 :: byte3 :: rest)[i]? =
      (byte0' :: byte1' :: byte2' :: byte3' :: rest')[i]?) :
    byte0 = byte0' ∧ byte1 = byte1' ∧ byte2 = byte2' ∧ byte3 = byte3' := by
  refine ⟨?_, ?_, ?_, ?_⟩
  · simpa using agree 0 (by omega)
  · simpa using agree 1 (by omega)
  · simpa using agree 2 (by omega)
  · simpa using agree 3 (by omega)

/-- Strings that differ within one word, or within the bytes after the last word, have different
hashes. The recursion follows the words of both strings. -/
theorem finish_separates : ∀ (first second : Bytes), first.length = second.length →
    ∀ (h : UInt32) (part : Nat), (∀ i, first[i]? ≠ second[i]? → i / 4 = part) →
      finish h first = finish h second → first = second
  | byte0 :: byte1 :: byte2 :: byte3 :: rest, byte0' :: byte1' :: byte2' :: byte3' :: rest',
    same, h, part, within, equal => by
      have lengths : rest.length = rest'.length := by
        simp only [List.length_cons] at same
        omega
      rw [finish_block, finish_block] at equal
      by_cases heads : byte0 = byte0' ∧ byte1 = byte1' ∧ byte2 = byte2' ∧ byte3 = byte3'
      · obtain ⟨rfl, rfl, rfl, rfl⟩ := heads
        have later : ∀ i, rest[i]? ≠ rest'[i]? → i / 4 = part - 1 := by
          intro i differ
          have moved := within (i + 4) differ
          omega
        rw [finish_separates rest rest' lengths _ _ later equal]
      · have first : part = 0 := by
          by_contra other
          apply heads
          apply words_agree
          intro i inside
          by_contra differ
          have moved := within i differ
          omega
        -- All of the difference is in the first word, and the later words carry it to the end.
        have ends : rest = rest' := by
          apply List.ext_getElem?
          intro i
          by_contra differ
          have moved := within (i + 4) differ
          omega
        subst ends
        have words := (UInt32.add_right_inj h).mp (spread_injective (finish_injective rest equal))
        exact absurd (decodeFixed32_injective words) heads
  | [], _, same, h, _, _, equal => finish_short_injective h same (by simp) equal
  | [_], _, same, h, _, _, equal => finish_short_injective h same (by simp) equal
  | [_, _], _, same, h, _, _, equal => finish_short_injective h same (by simp) equal
  | [_, _, _], _, same, h, _, _, equal => finish_short_injective h same (by simp) equal

/-- Two strings of one length differ, and only within one aligned block of four bytes or only
within the bytes that no block covers. -/
structure DifferInOnePart (first second : Bytes) : Prop where
  lengths : first.length = second.length
  distinct : first ≠ second
  within : (∃ block < first.length / 4, ∀ i, first[i]? ≠ second[i]? → i / 4 = block) ∨
    ∀ i, first[i]? ≠ second[i]? → 4 * (first.length / 4) ≤ i

/-- The differing positions all belong to one part of the strings. -/
theorem DifferInOnePart.part {first second : Bytes} (differ : DifferInOnePart first second) :
    ∃ part, ∀ i, first[i]? ≠ second[i]? → i / 4 = part := by
  rcases differ.within with ⟨block, _, within⟩ | within
  · exact ⟨block, within⟩
  · refine ⟨first.length / 4, fun i unequal => ?_⟩
    have inside : i < first.length := by
      by_contra outside
      apply unequal
      rw [List.getElem?_eq_none (by omega), List.getElem?_eq_none (by have := differ.lengths; omega)]
    have after := within i unequal
    omega

/-- The hash of such strings differs for every seed. -/
theorem hash_separates {first second : Bytes} (differ : DifferInOnePart first second)
    (seed : UInt32) : hash first seed ≠ hash second seed := by
  intro equal
  obtain ⟨part, within⟩ := differ.part
  rw [hash_eq_finish, hash_eq_finish, differ.lengths] at equal
  exact differ.distinct (finish_separates first second differ.lengths _ part within equal)

/-- The hash loses none of the first four bytes. -/
theorem hash_separates_start (seed : UInt32) (first second rest : Bytes) (length : first.length = 4)
    (length' : second.length = 4) (equal : hash (first ++ rest) seed = hash (second ++ rest) seed) :
    first = second := by
  by_contra distinct
  have differ : DifferInOnePart (first ++ rest) (second ++ rest) := by
    refine ⟨by simp [length, length'], fun same => distinct (List.append_cancel_right same), ?_⟩
    refine .inl ⟨0, by simp [length], fun i unequal => ?_⟩
    by_contra later
    apply unequal
    rw [List.getElem?_append_right (by omega), List.getElem?_append_right (by omega), length, length']
  exact hash_separates differ seed equal

/-- Every shard receives one sixteenth of the strings of each length from four on. -/
theorem shard_balanced {length : Nat} (long : 4 ≤ length) {index : Nat} (inside : index < 16) :
    Nat.card {data : Bytes // data.length = length ∧ (shard (hashSlice data) 4).toNat = index} =
      256 ^ length / 16 := by
  obtain ⟨more, rfl⟩ := Nat.exists_eq_add_of_le long
  have balanced := Mixing.card_strings_balanced hashSlice (hash_separates_start 0)
    (show 16 ∣ 2 ^ 32 by decide) inside more
  have whole : 256 ^ (4 + more) / 16 = 2 ^ 32 / 16 * 256 ^ more := by
    rw [Nat.pow_add]
    omega
  rw [whole, ← balanced]
  rfl

end ShardHash

/-- The hash of every adapter separates strings that differ in one part, and the shards of the
strings of one length are equally large. -/
theorem shardHash_lossless_balanced :
    (∀ (seed : UInt32) (first second : Bytes), ShardHash.DifferInOnePart first second →
      LevelDB.hash first seed ≠ LevelDB.hash second seed ∧
        RocksDB.hash first seed ≠ RocksDB.hash second seed) ∧
    ∀ length ≥ 4, ∀ index < 16,
      Nat.card {data : Bytes // data.length = length ∧
        (LevelDB.shard (LevelDB.hashSlice data) 4).toNat = index} = 256 ^ length / 16 ∧
      Nat.card {data : Bytes // data.length = length ∧
        (RocksDB.shard (RocksDB.hashSlice data) 4).toNat = index} = 256 ^ length / 16 := by
  constructor
  · intro seed first second differ
    exact ⟨ShardHash.hash_separates differ seed, ShardHash.hash_separates differ seed⟩
  · intro length long index inside
    exact ⟨ShardHash.shard_balanced long inside, ShardHash.shard_balanced long inside⟩

/-- Two keys of five bytes differ in their last byte, and a key of four bytes is routed. -/
theorem shardHash_lossless_balanced_five :
    LevelDB.hash [1, 2, 3, 4, 5] 7 ≠ LevelDB.hash [1, 2, 3, 4, 6] 7 ∧
      Nat.card {data : Bytes // data.length = 5 ∧
        (LevelDB.shard (LevelDB.hashSlice data) 4).toNat = 3} = 256 ^ 5 / 16 := by
  have differ : ShardHash.DifferInOnePart [1, 2, 3, 4, 5] [1, 2, 3, 4, 6] := by
    refine ⟨rfl, by decide, .inr fun i unequal => ?_⟩
    by_contra before
    apply unequal
    have : i = 0 ∨ i = 1 ∨ i = 2 ∨ i = 3 := by simp at before; omega
    rcases this with rfl | rfl | rfl | rfl <;> rfl
  exact ⟨(shardHash_lossless_balanced.1 7 _ _ differ).1,
    (shardHash_lossless_balanced.2 5 (by decide) 3 (by decide)).1⟩

end DbBench
