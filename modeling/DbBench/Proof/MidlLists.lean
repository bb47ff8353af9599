import DbBench.Proof.MidlMerge

/-
This file proves that the functions on ID lists do to the entries what they are meant for, and that
they get the room for it.
-/

namespace DbBench

open Cells

/-- The cells of the entries and the unused cells fill the allocated length. -/
def Midl.Holds (list : Midl) (entries : List UInt64) : Prop :=
  ∃ unused, Midl.Lists list.ids entries unused ∧ entries.length + unused.length = list.allocLen

/-- These are `n` identities from `id` on, the last one first. -/
def fallingRange (id : UInt64) : Nat → List UInt64
  | 0 => []
  | n + 1 => fallingRange (id + 1) n ++ [id]

@[simp] theorem length_fallingRange (id : UInt64) (n : Nat) :
    (fallingRange id n).length = n := by
  induction n generalizing id with
  | zero => rfl
  | succ n ih => rw [fallingRange, List.length_append, ih, List.length_singleton]

/-- The loop fills the cells from the last one of the range down. -/
theorem fillRange_spec {len : Nat} (n : Nat) {id : UInt64} {ids : Array UInt64}
    {front gap back : List UInt64} (layout : ids.toList = front ++ (gap ++ back))
    (place : front.length = len + 1) (width : gap.length = n) :
    ∃ after, fillRange len n id ids = some after ∧
      after.toList = front ++ (fallingRange id n ++ back) := by
  induction n generalizing id ids gap back with
  | zero =>
      rw [List.length_eq_zero_iff] at width
      exact ⟨ids, rfl, by rw [layout, width]; rfl⟩
  | succ n ih =>
      obtain ⟨gap, last, rfl⟩ : ∃ front' last, gap = front' ++ [last] := by
        have some' : gap ≠ [] := by
          intro empty
          rw [empty] at width
          cases width
        exact ⟨gap.dropLast, gap.getLast some', (List.dropLast_append_getLast some').symm⟩
      rw [List.length_append, List.length_singleton] at width
      have shape : ids.toList = (front ++ gap) ++ last :: back := by
        rw [layout]
        simp
      obtain ⟨wrote, written, shape'⟩ := write_at shape (show len + (n + 1) = _ by
        rw [List.length_append]
        omega) id
      obtain ⟨after, filled, done⟩ := @ih (id + 1) wrote gap (id :: back)
        (by rw [shape', List.append_assoc]) (by omega)
      refine ⟨after, ?_, ?_⟩
      · simp only [fillRange, written, filled, Option.bind_eq_bind, Option.bind_some]
      · rw [done, fallingRange]
        simp

namespace Midl

theorem Lists.counted {ids : Array UInt64} {entries unused : List UInt64}
    (lists : Midl.Lists ids entries unused) :
    ids[0]? = some (UInt64.ofNat entries.length) ∧ entries.length < 2 ^ 64 := by
  obtain ⟨first, read, counts⟩ := Counted.first lists
  have bound := first.toNat_lt
  rw [counts] at bound
  exact ⟨by rw [read, ← counts, UInt64.ofNat_toNat], bound⟩

theorem Lists.toNat_count {ids : Array UInt64} {entries unused : List UInt64}
    (lists : Midl.Lists ids entries unused) :
    (UInt64.ofNat entries.length).toNat = entries.length :=
  UInt64.toNat_ofNat_of_lt' lists.counted.2

variable {list : Midl} {entries : List UInt64}

theorem Holds.count (holds : list.Holds entries) :
    list.ids[0]? = some (UInt64.ofNat entries.length) := by
  obtain ⟨unused, lists, _⟩ := holds
  exact lists.counted.1

theorem Holds.toNat_count (holds : list.Holds entries) :
    (UInt64.ofNat entries.length).toNat = entries.length := by
  obtain ⟨unused, lists, _⟩ := holds
  exact lists.toNat_count

theorem Holds.le (holds : list.Holds entries) : entries.length ≤ list.allocLen := by
  obtain ⟨unused, _, size⟩ := holds
  omega

/-- A new list is empty. -/
theorem alloc_spec (num : Nat) (fault : Bool) :
    Midl.alloc num fault = none ∧ fault = true ∨
      ∃ list, Midl.alloc num fault = some list ∧ list.Holds [] ∧ list.allocLen = num := by
  cases fault with
  | true => exact Or.inl ⟨rfl, rfl⟩
  | false =>
      refine Or.inr ⟨_, rfl, ⟨List.replicate num 0, ⟨0, ?_, rfl⟩, ?_⟩, rfl⟩
      · rw [Array.toList_replicate, List.replicate_succ, List.nil_append]
      · rw [List.length_replicate, List.length_nil, Nat.zero_add]

/-- A larger block keeps the entries. -/
theorem realloc_spec {ids : Array UInt64} {unused : List UInt64}
    (lists : Midl.Lists ids entries unused) {words : Nat} (enough : entries.length + 1 ≤ words) :
    ∃ unused', Midl.Lists (Midl.realloc ids words) entries unused' ∧
      entries.length + unused'.length + 1 = words := by
  obtain ⟨first, layout, counts⟩ := lists
  have length : ids.size = entries.length + unused.length + 1 :=
    Counted.size ⟨first, layout, counts⟩
  obtain ⟨rest, rfl⟩ : ∃ rest, words = entries.length + 1 + rest := ⟨_, (Nat.add_sub_of_le enough).symm⟩
  refine ⟨unused.take rest ++ List.replicate (entries.length + 1 + rest - ids.size) 0,
    ⟨first, ?_, counts⟩, ?_⟩
  · simp only [Midl.realloc, Array.toList_append, Array.take_eq_extract, Array.toList_extract,
      Array.toList_replicate, layout, List.extract_eq_take_drop, List.drop_zero, Nat.sub_zero]
    rw [show entries.length + 1 + rest = entries.length + rest + 1 by omega, List.take_succ_cons,
      List.take_length_add_append, List.cons_append, List.append_assoc]
  · rw [List.length_append, List.length_take, List.length_replicate, length]
    omega

/-- The list has grown by the given number of cells, or there was no memory. -/
theorem grow_spec (holds : list.Holds entries) (num : Nat) (fault : Bool) :
    list.grow num fault = (.enomem, list) ∧ fault = true ∨
      ∃ grown, list.grow num fault = (.success, grown) ∧ grown.Holds entries ∧
        grown.allocLen = list.allocLen + num := by
  cases fault with
  | true => exact Or.inl ⟨rfl, rfl⟩
  | false =>
      obtain ⟨unused, lists, size⟩ := holds
      obtain ⟨unused', lists', size'⟩ :=
        realloc_spec lists (show entries.length + 1 ≤ list.allocLen + num + 1 by omega)
      refine Or.inr ⟨_, rfl, ⟨unused', lists', ?_⟩, rfl⟩
      show entries.length + unused'.length = list.allocLen + num
      omega

/-- Afterwards the list has room for the given number of entries, or there was no memory. -/
theorem need_spec (holds : list.Holds entries) {num : Nat} (small : num + entries.length < 2 ^ 31)
    (fault : Bool) :
    list.need num fault = some (.enomem, list) ∧ fault = true ∨
      ∃ grown, list.need num fault = some (.success, grown) ∧ grown.Holds entries ∧
        entries.length + num ≤ grown.allocLen := by
  obtain ⟨unused, lists, size⟩ := holds
  simp only [Midl.need, lists.counted.1, lists.toNat_count, Option.bind_eq_bind, Option.bind_some,
    Nat.mod_eq_of_lt (show num + entries.length < 2 ^ 32 by omega)]
  by_cases short : num + entries.length > list.allocLen
  · rw [if_pos short]
    cases fault with
    | true => exact Or.inl ⟨rfl, rfl⟩
    | false =>
        rw [Nat.mod_eq_of_lt (by omega)]
        obtain ⟨unused', lists', size'⟩ := @realloc_spec entries _ _ lists ((num + entries.length +
          (num + entries.length) / 4 + (256 + 2)) / 256 * 256 - 1) (by omega)
        refine Or.inr ⟨_, rfl, ⟨unused', lists', ?_⟩, ?_⟩
        · show entries.length + unused'.length = (num + entries.length +
            (num + entries.length) / 4 + (256 + 2)) / 256 * 256 - 2
          omega
        · show entries.length + num ≤ (num + entries.length +
            (num + entries.length) / 4 + (256 + 2)) / 256 * 256 - 2
          omega
  · rw [if_neg short]
    exact Or.inr ⟨list, rfl, ⟨unused, lists, size⟩, by omega⟩

/-- With room for one more entry the append needs no check. -/
theorem xappend_spec (holds : list.Holds entries) (room : entries.length < list.allocLen)
    (small : entries.length + 1 < 2 ^ 64) (id : UInt64) :
    ∃ ids, Midl.xappend list.ids id = some ids ∧
      Holds {list with ids := ids} (entries ++ [id]) := by
  obtain ⟨unused, lists, size⟩ := holds
  obtain ⟨first, layout, counts⟩ := lists
  obtain ⟨spare, rest, rfl⟩ : ∃ spare rest, unused = spare :: rest := by
    cases unused with
    | nil =>
        rw [List.length_nil] at size
        omega
    | cons spare rest => exact ⟨spare, rest, rfl⟩
  have next : (first + 1).toNat = entries.length + 1 := by
    rw [UInt64.toNat_add, counts]
    exact Nat.mod_eq_of_lt small
  have read : list.ids[0]? = some first := @read_at _ list.ids [] _ _ _ layout rfl
  obtain ⟨counted, wrote, layout'⟩ := @write_at _ list.ids [] _ _ 0 layout rfl (first + 1)
  obtain ⟨after, wrote', layout''⟩ := @write_at _ counted ((first + 1) :: entries) rest spare
    (first + 1).toNat (by rw [layout']; rfl) (by rw [next, List.length_cons]) id
  refine ⟨after, ?_, rest, ⟨first + 1, ?_, ?_⟩, ?_⟩
  · simp only [Midl.xappend, read, wrote, wrote', Option.bind_eq_bind, Option.bind_some]
  · rw [layout'']
    simp
  · rw [next, List.length_append, List.length_singleton]
  · rw [List.length_append, List.length_singleton, Nat.add_assoc, Nat.add_comm 1]
    exact size

/-- The append makes room when the list is full. -/
theorem append_spec (holds : list.Holds entries) (small : entries.length + 1 < 2 ^ 64)
    (id : UInt64) (fault : Bool) :
    list.append id fault = some (.enomem, list) ∧ fault = true ∨
      ∃ after, list.append id fault = some (.success, after) ∧ after.Holds (entries ++ [id]) := by
  have count := holds.toNat_count
  simp only [Midl.append, holds.count, count, Option.bind_eq_bind, Option.bind_some]
  by_cases full : entries.length ≥ list.allocLen
  · rw [if_pos full]
    rcases grow_spec holds midlUmMax fault with ⟨failed, faulty⟩ | ⟨grown, grew, holds', larger⟩
    · rw [failed]
      exact Or.inl ⟨rfl, faulty⟩
    · have room : entries.length < grown.allocLen := by
        have inside := holds.le
        rw [larger, midlUmMax]
        omega
      obtain ⟨ids, appended, after⟩ := xappend_spec holds' room small id
      rw [grew]
      exact Or.inr ⟨_, by simp only [appended, if_true, Option.bind_some]; rfl, after⟩
  · rw [if_neg full]
    obtain ⟨ids, appended, after⟩ := xappend_spec holds (by omega) small id
    exact Or.inr ⟨_, by simp only [appended, if_true, Option.bind_some]; rfl, after⟩

/-- The range comes behind the entries, its last identity first. -/
theorem appendRange_spec (holds : list.Holds entries) {n : Nat}
    (small : entries.length + n < 2 ^ 64) (id : UInt64) (fault : Bool) :
    list.appendRange id n fault = some (.enomem, list) ∧ fault = true ∨
      ∃ after, list.appendRange id n fault = some (.success, after) ∧
        after.Holds (entries ++ fallingRange id n) := by
  have count := holds.toNat_count
  -- With enough room both writes stay inside of the list.
  have fits (list : Midl) (holds : list.Holds entries) (room : entries.length + n ≤ list.allocLen) :
      ∃ counted ids, write list.ids 0 (UInt64.ofNat entries.length + UInt64.ofNat n) =
        some counted ∧ fillRange entries.length n id counted = some ids ∧
        Holds {list with ids := ids} (entries ++ fallingRange id n) := by
    obtain ⟨unused, ⟨first, layout, counts⟩, size⟩ := holds
    obtain ⟨counted, wrote, layout'⟩ := @write_at _ list.ids [] _ _ 0 layout rfl
      (UInt64.ofNat entries.length + UInt64.ofNat n)
    obtain ⟨ids, filled, layout''⟩ := @fillRange_spec entries.length n id counted
      ((UInt64.ofNat entries.length + UInt64.ofNat n) :: entries) (unused.take n) (unused.drop n)
      (by rw [layout', List.take_append_drop]; rfl) rfl
      (by rw [List.length_take]; omega)
    refine ⟨counted, ids, wrote, filled, unused.drop n,
      ⟨UInt64.ofNat entries.length + UInt64.ofNat n, ?_, ?_⟩, ?_⟩
    · rw [layout'']
      simp
    · rw [UInt64.toNat_add, count, UInt64.toNat_ofNat_of_lt' (show n < 2 ^ 64 by omega),
        Nat.mod_eq_of_lt small, List.length_append, length_fallingRange]
    · rw [List.length_append, length_fallingRange, List.length_drop]
      show entries.length + n + (unused.length - n) = list.allocLen
      omega
  simp only [Midl.appendRange, holds.count, count, Option.bind_eq_bind, Option.bind_some]
  by_cases full : entries.length + n > list.allocLen
  · rw [if_pos full]
    rcases grow_spec holds (n ||| midlUmMax) fault with ⟨failed, faulty⟩ |
      ⟨grown, grew, holds', larger⟩
    · rw [failed]
      exact Or.inl ⟨rfl, faulty⟩
    · have room : entries.length + n ≤ grown.allocLen := by
        have inside := holds.le
        have above : n ≤ n ||| midlUmMax := Nat.left_le_or
        omega
      obtain ⟨counted, ids, wrote, filled, after⟩ := fits grown holds' room
      rw [grew]
      exact Or.inr ⟨_, by simp only [wrote, filled, if_true, Option.bind_some]; rfl, after⟩
  · rw [if_neg full]
    obtain ⟨counted, ids, wrote, filled, after⟩ := fits list holds (by omega)
    exact Or.inr ⟨_, by simp only [wrote, filled, if_true, Option.bind_some]; rfl, after⟩

theorem Holds.sort (holds : list.Holds entries) (small : entries.length < 2 ^ 30) :
    ∃ ids sorted, Midl.sort list.ids = some ids ∧ Holds {list with ids := ids} sorted ∧
      sorted.Perm entries ∧ sorted.Pairwise Descends := by
  obtain ⟨unused, lists, size⟩ := holds
  obtain ⟨ids, sorted, sorts, lists', perm, descending⟩ := Midl.sort_spec _ _ _ lists small
  exact ⟨ids, sorted, sorts, ⟨unused, lists', by rw [perm.length_eq]; exact size⟩, perm,
    descending⟩

theorem Holds.xmerge (holds : list.Holds entries) {merge : Array UInt64} {ys spare : List UInt64}
    (second : Midl.Lists merge ys spare) (descending : entries.Pairwise Descends)
    (descending' : ys.Pairwise Descends) (room : entries.length + ys.length ≤ list.allocLen)
    (small : entries.length + ys.length < 2 ^ 64) :
    ∃ ids merged, Midl.xmerge list.ids merge = some ids ∧ Holds {list with ids := ids} merged ∧
      merged.Perm (entries ++ ys) ∧ merged.Pairwise Descends := by
  obtain ⟨unused, lists, size⟩ := holds
  obtain ⟨ids, merged, merges, lists', perm, descending''⟩ := Midl.xmerge_spec _ _ _ _ _ _ lists
    second descending descending' (by omega) small
  refine ⟨ids, merged, merges, ⟨_, lists', ?_⟩, perm, descending''⟩
  rw [perm.length_eq, List.length_append, List.length_drop]
  show entries.length + ys.length + (unused.length - ys.length) = list.allocLen
  omega

end Midl

end DbBench
