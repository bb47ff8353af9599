import DbBench.Construction.PageOps
import DbBench.Proof.MidlLists

/-
This file proves that the page functions find, take out and put back ranges of pages in the list of
ready pages.
-/

namespace DbBench

open Cells

/-- No page stands twice in the list. -/
def Falls (x y : UInt64) : Prop := y < x

theorem Falls.nodup {entries : List UInt64} (falls : entries.Pairwise Falls) : entries.Nodup :=
  List.Pairwise.imp (fun {_ _} order => (UInt64.ne_of_lt order).symm) falls

/-- A list without duplicates falls when it descends. -/
theorem falls_of_descends {entries : List UInt64} (descends : entries.Pairwise Descends)
    (nodup : entries.Nodup) : entries.Pairwise Falls :=
  (descends.and nodup).imp fun {_ _} order =>
    UInt64.lt_of_le_of_ne order.1 fun same => order.2 same.symm

theorem descends_of_falls {entries : List UInt64} (falls : entries.Pairwise Falls) :
    entries.Pairwise Descends :=
  falls.imp fun {_ _} order => UInt64.le_of_lt order

theorem nodup_pagesOf {entries : List UInt64} : (pagesOf entries).Nodup ↔ entries.Nodup :=
  List.nodup_map_iff fun _ _ same => UInt64.toNat_inj.mp same

@[simp] theorem pagesOf_append (first second : List UInt64) :
    pagesOf (first ++ second) = pagesOf first ++ pagesOf second := List.map_append

@[simp] theorem length_pagesOf (entries : List UInt64) :
    (pagesOf entries).length = entries.length := List.length_map _

/-- The numbers of a range that does not overflow. -/
theorem pagesOf_fallingRange (n : Nat) {id : UInt64} (small : id.toNat + n < 2 ^ 64) :
    pagesOf (fallingRange id n) = (List.range' id.toNat n).reverse := by
  induction n generalizing id with
  | zero => rfl
  | succ n ih =>
      have next : (id + 1).toNat = id.toNat + 1 := by
        rw [UInt64.toNat_add]
        exact Nat.mod_eq_of_lt (by show id.toNat + 1 < 2 ^ 64; omega)
      rw [fallingRange, pagesOf_append, ih (by omega), next, List.range'_succ, List.reverse_cons]
      rfl

/-- In a falling list of numbers each step goes down by one at least. -/
theorem falling_gap {numbers : List Nat} (falls : numbers.Pairwise fun x y => y < x) {i j : Nat}
    (order : i ≤ j) (inside : j < numbers.length) :
    numbers[j] + (j - i) ≤ numbers[i] := by
  induction j with
  | zero =>
      have same : i = 0 := by omega
      subst same
      omega
  | succ j ih =>
      rcases Nat.lt_or_eq_of_le order with less | equal
      · have before := ih (by omega) (by omega)
        have step := (List.pairwise_iff_getElem.mp falls) j (j + 1) (by omega) inside (by omega)
        omega
      · subst equal
        omega

/-- A part of a falling list that goes down by as much as its length is a range. -/
theorem falling_range {numbers : List Nat} (falls : numbers.Pairwise fun x y => y < x)
    {i n last : Nat} (inside : i + n < numbers.length) (end' : numbers[i + n] = last)
    (start : numbers[i] = last + n) :
    (numbers.drop i).take (n + 1) = (List.range' last (n + 1)).reverse := by
  apply List.ext_getElem
  · rw [List.length_take, List.length_drop, List.length_reverse, List.length_range']
    omega
  · intro k kIn _
    rw [List.length_take, List.length_drop] at kIn
    have low := falling_gap falls (show i ≤ i + k by omega) (by omega)
    have high := falling_gap falls (show i + k ≤ i + n by omega) inside
    rw [List.getElem_take, List.getElem_drop, List.getElem_reverse, List.getElem_range',
      List.length_range']
    omega

section
variable {ids : Array UInt64} {entries unused : List UInt64}

/-- The search stays inside of the list and finds nothing else than the end of a range. -/
theorem seekRange_spec (lists : Midl.Lists ids entries unused) (n2 i : Nat) (enough : n2 < i)
    (inside : i ≤ entries.length) :
    ∃ place, seekRange ids n2 i = some place ∧ ∀ k, place = some k → n2 < k ∧ k ≤ i ∧
      ∃ last first, entries[k - 1]? = some last ∧ entries[k - 1 - n2]? = some first ∧
        first = last + UInt64.ofNat n2 := by
  induction i with
  | zero => omega
  | succ i ih =>
      have pgno : ids[i + 1]? = some entries[i] := by
        rw [Counted.cell lists (by omega), List.getElem?_eq_getElem]
      have other : ids[i + 1 - n2]? = some entries[i - n2] := by
        rw [show i + 1 - n2 = (i - n2) + 1 by omega, Counted.cell lists (by omega),
          List.getElem?_eq_getElem]
      simp only [seekRange, pgno, other, Option.bind_eq_bind, Option.bind_some]
      by_cases range : entries[i - n2] = entries[i] + UInt64.ofNat n2
      · rw [if_pos range]
        refine ⟨_, rfl, ?_⟩
        intro k found
        cases found
        exact ⟨enough, Nat.le_refl _, _, _, List.getElem?_eq_getElem (by omega),
          List.getElem?_eq_getElem (by omega), range⟩
      · rw [if_neg range]
        by_cases more : i > n2
        · rw [if_pos more]
          obtain ⟨place, sought, finds⟩ := ih more (by omega)
          refine ⟨place, sought, fun k found => ?_⟩
          obtain ⟨above, below, rest⟩ := finds k found
          exact ⟨above, by omega, rest⟩
        · rw [if_neg more]
          exact ⟨none, rfl, fun k found => by cases found⟩

/-- The pages of a list lie below the bound. -/
def IdsBelow (bound : Nat) (entries : List UInt64) : Prop := ∀ id ∈ entries, id.toNat < bound

theorem pairwise_pagesOf (falls : entries.Pairwise Falls) :
    (pagesOf entries).Pairwise fun x y => y < x :=
  List.pairwise_map.mpr (falls.imp fun {_ _} order => UInt64.lt_iff_toNat_lt.mp order)

/-- What the search finds is the end of a range in the list. -/
theorem found_range (falls : entries.Pairwise Falls) {bound n2 k : Nat} (below : IdsBelow bound entries)
    (small : bound + n2 < 2 ^ 64) (enough : n2 < k) (inside : k ≤ entries.length)
    {last first : UInt64} (atLast : entries[k - 1]? = some last)
    (atFirst : entries[k - 1 - n2]? = some first) (range : first = last + UInt64.ofNat n2) :
    ∃ front slice back, entries = front ++ slice ++ back ∧ front.length + (n2 + 1) = k ∧
      pagesOf slice = (List.range' last.toNat (n2 + 1)).reverse := by
  obtain ⟨lastIn, lastIs⟩ := List.getElem?_eq_some_iff.mp atLast
  obtain ⟨firstIn, firstIs⟩ := List.getElem?_eq_some_iff.mp atFirst
  have lastBelow : last.toNat < bound := below last (lastIs ▸ List.getElem_mem lastIn)
  have first' : first.toNat = last.toNat + n2 := by
    rw [range, UInt64.toNat_add, UInt64.toNat_ofNat_of_lt' (show n2 < 2 ^ 64 by omega)]
    exact Nat.mod_eq_of_lt (by omega)
  refine ⟨entries.take (k - 1 - n2), (entries.drop (k - 1 - n2)).take (n2 + 1),
    entries.drop k, ?_, ?_, ?_⟩
  · conv_lhs => rw [← List.take_append_drop (k - 1 - n2) entries,
      ← List.take_append_drop (n2 + 1) (entries.drop (k - 1 - n2)), List.drop_drop]
    rw [List.append_assoc, show k - 1 - n2 + (n2 + 1) = k by omega]
  · rw [List.length_take]
    omega
  · have numbers := @falling_range (pagesOf entries) (pairwise_pagesOf falls) (k - 1 - n2) n2
      last.toNat (by rw [length_pagesOf]; omega)
      (by
        have same : k - 1 - n2 + n2 = k - 1 := by omega
        simp only [pagesOf, List.getElem_map, same, lastIs])
      (by simp only [pagesOf, List.getElem_map, firstIs, first'])
    rw [← numbers, pagesOf, pagesOf, List.map_take, List.map_drop]

/-- The cells behind a gap move down over it. -/
theorem moveDown_spec (rest : List UInt64) {front gap tail : List UInt64} {i j : Nat}
    (layout : ids.toList = front ++ (gap ++ (rest ++ tail))) (place : front.length = j + 1)
    (width : i = j + gap.length) :
    ∃ after gap', moveDown rest.length i j ids = some after ∧ gap'.length = gap.length ∧
      after.toList = front ++ (rest ++ (gap' ++ tail)) := by
  induction rest generalizing ids front gap i j with
  | nil => exact ⟨ids, gap, rfl, rfl, layout⟩
  | cons cell rest ih =>
      have read : ids[i + 1]? = some cell :=
        @read_at _ ids (front ++ gap) (rest ++ tail) cell (i + 1) (by rw [layout]; simp)
          (by rw [List.length_append]; omega)
      obtain ⟨hole, others, next, shift⟩ : ∃ hole others, gap ++ cell :: (rest ++ tail) =
          hole :: others ∧ ∃ gap', others = gap' ++ (rest ++ tail) ∧ gap'.length = gap.length := by
        cases gap with
        | nil => exact ⟨cell, rest ++ tail, rfl, [], rfl, rfl⟩
        | cons hole gap =>
            exact ⟨hole, gap ++ cell :: (rest ++ tail), rfl, gap ++ [cell], by simp, by simp⟩
      obtain ⟨gap', same, length⟩ := shift
      obtain ⟨wrote, written, layout'⟩ := @write_at _ ids front others hole (j + 1)
        (by rw [layout, List.cons_append, next]) place.symm cell
      obtain ⟨after, gap'', moved, length', final⟩ := @ih wrote (front ++ [cell]) gap' (i + 1) (j + 1)
        (by rw [layout', same]; simp) (by rw [List.length_append, place]; rfl) (by omega)
      refine ⟨after, gap'', ?_, by omega, ?_⟩
      · simp only [List.length_cons, moveDown, read, written, moved, Option.bind_eq_bind,
          Option.bind_some]
      · rw [final]
        simp

/-- A range leaves the list. -/
theorem takeRange_spec {front slice back : List UInt64}
    (lists : Midl.Lists ids (front ++ slice ++ back) unused) :
    ∃ after unused', takeRange ids (front ++ slice ++ back).length (front.length + slice.length)
        slice.length = some after ∧ Midl.Lists after (front ++ back) unused' ∧
      unused'.length = unused.length + slice.length := by
  obtain ⟨first, layout, counts⟩ := lists
  have length : (front ++ slice ++ back).length = front.length + slice.length + back.length := by
    rw [List.length_append, List.length_append]
  have bound := first.toNat_lt
  rw [counts] at bound
  have rounds : (front ++ slice ++ back).length - slice.length - front.length = back.length := by
    omega
  obtain ⟨counted, wrote, layout'⟩ := @write_at _ ids [] _ _ 0 layout rfl
    (UInt64.ofNat ((front ++ slice ++ back).length - slice.length))
  obtain ⟨after, gap, moved, width, layout''⟩ := @moveDown_spec counted back
    (UInt64.ofNat ((front ++ slice ++ back).length - slice.length) :: front) slice unused
    (front.length + slice.length) front.length (by rw [layout']; simp) rfl rfl
  refine ⟨after, gap ++ unused, ?_,
    ⟨UInt64.ofNat ((front ++ slice ++ back).length - slice.length), ?_, ?_⟩, ?_⟩
  · simp only [takeRange, wrote, Nat.add_sub_cancel, rounds, moved, Option.bind_eq_bind,
      Option.bind_some]
  · rw [layout'']
    simp
  · rw [UInt64.toNat_ofNat_of_lt' (show _ < 2 ^ 64 by omega), length, List.length_append]
    omega
  · rw [List.length_append, width, Nat.add_comm]

/-- The entries below the range move up over a gap for it. -/
theorem releaseShift_spec {first pg : UInt64} {tail : List UInt64} (n i : Nat) {gap : List UInt64}
    (layout : ids.toList = first :: (entries.take i ++ (gap ++ (entries.drop i ++ tail))))
    (width : gap.length = n) (inside : i ≤ entries.length)
    (small : ∀ id ∈ entries.drop i, id < pg) :
    ∃ place after gap', releaseShift pg i (i + n) ids = some (place, after) ∧ gap'.length = n ∧
      after.toList = first :: (entries.take place ++ (gap' ++ (entries.drop place ++ tail))) ∧
      place ≤ entries.length ∧ (∀ id ∈ entries.drop place, id < pg) ∧
      (place = 0 ∨ ∃ id, entries[place - 1]? = some id ∧ pg ≤ id) := by
  induction i generalizing ids gap with
  | zero => exact ⟨0, ids, gap, rfl, width, layout, inside, small, Or.inl rfl⟩
  | succ i ih =>
      have taken : entries.take (i + 1) = entries.take i ++ [entries[i]] := by
        rw [List.take_succ_eq_append_getElem]
      have dropped : entries.drop i = entries[i] :: entries.drop (i + 1) :=
        List.drop_eq_getElem_cons inside
      have length : (entries.take i).length = i := by
        rw [List.length_take]
        omega
      have read : ids[i + 1]? = some entries[i] :=
        @read_at _ ids (first :: entries.take i) (gap ++ (entries.drop (i + 1) ++ tail)) _ (i + 1)
          (by rw [layout, taken, List.append_assoc, List.cons_append]; rfl)
          (by rw [List.length_cons, length])
      by_cases below : entries[i] < pg
      · obtain ⟨gap', last, shift⟩ : ∃ gap' last, entries[i] :: gap = gap' ++ [last] :=
          ⟨_, _, (List.dropLast_append_getLast (List.cons_ne_nil entries[i] gap)).symm⟩
        have width' : gap'.length = n := by
          have lengths := congrArg List.length shift
          rw [List.length_cons, List.length_append, List.length_singleton] at lengths
          omega
        obtain ⟨wrote, written, layout'⟩ := @write_at _ ids (first :: (entries.take i ++ gap'))
          (entries.drop (i + 1) ++ tail) last (i + 1 + n)
          (by
            rw [layout, taken, List.append_assoc, List.singleton_append, ← List.cons_append,
              ← List.cons_append, shift]
            simp)
          (by rw [List.length_cons, List.length_append, length]; omega) entries[i]
        obtain ⟨place, after, gap'', shifted, rest⟩ := @ih wrote gap'
          (by rw [layout', dropped, List.cons_append, List.append_assoc, List.cons_append]) width'
          (by omega) (by
            rw [dropped]
            exact List.forall_mem_cons.mpr ⟨below, small⟩)
        refine ⟨place, after, gap'', ?_, rest⟩
        simp only [releaseShift, read, written, Option.bind_eq_bind, Option.bind_some, if_pos below]
        rw [show i + 1 + n - 1 = i + n by omega]
        exact shifted
      · refine ⟨i + 1, ids, gap, ?_, width, layout, inside, small, Or.inr ⟨entries[i], ?_, ?_⟩⟩
        · simp only [releaseShift, read, Option.bind_eq_bind, Option.bind_some, if_neg below]
          rfl
        · exact List.getElem?_eq_getElem inside
        · exact UInt64.not_lt.mp below

/-- A range that is not in the list goes to its place there. -/
theorem releaseRange_spec (lists : Midl.Lists ids entries unused)
    (falls : entries.Pairwise Falls) {pg : UInt64} {n : Nat} (room : n ≤ unused.length)
    (small : entries.length + n < 2 ^ 64) (fits : pg.toNat + n < 2 ^ 64)
    (outside : ∀ id ∈ entries, ¬ (pg.toNat ≤ id.toNat ∧ id.toNat < pg.toNat + n)) :
    ∃ after merged, releaseRange ids pg n = some after ∧
      Midl.Lists after merged (unused.drop n) ∧
      merged.Perm (entries ++ fallingRange pg n) ∧ merged.Pairwise Falls := by
  obtain ⟨first, layout, counts⟩ := lists
  have read : ids[0]? = some first := @read_at _ ids [] _ _ _ layout rfl
  obtain ⟨place, shifted, gap, moved, width, layout', inside, below, above⟩ :=
    @releaseShift_spec ids entries first pg (unused.drop n) n entries.length (unused.take n)
      (by rw [layout, List.take_length, List.drop_length, List.nil_append, List.take_append_drop])
      (by rw [List.length_take]; omega) (Nat.le_refl _) (by simp)
  obtain ⟨filled, fills, layout''⟩ := @fillRange_spec place n pg shifted
    (first :: entries.take place) gap (entries.drop place ++ unused.drop n)
    (by rw [layout', List.cons_append]) (by rw [List.length_cons, List.length_take]; omega) width
  obtain ⟨after, wrote, final⟩ := @write_at _ filled [] _ first 0
    (by rw [layout'', List.cons_append]; rfl) rfl (first + UInt64.ofNat n)
  have numbers := pagesOf_fallingRange n fits
  have inRange (id : UInt64) (member : id ∈ fallingRange pg n) :
      pg.toNat ≤ id.toNat ∧ id.toNat < pg.toNat + n := by
    have member' : id.toNat ∈ pagesOf (fallingRange pg n) := List.mem_map_of_mem member
    rw [numbers, List.mem_reverse, List.mem_range'_1] at member'
    exact member'
  have rangeFalls : (fallingRange pg n).Pairwise Falls := by
    have order : (pagesOf (fallingRange pg n)).Pairwise fun x y => y < x := by
      rw [numbers, List.pairwise_reverse]
      exact List.pairwise_lt_range'
    exact (List.pairwise_map.mp order).imp fun {_ _} less => UInt64.lt_iff_toNat_lt.mpr less
  refine ⟨after, entries.take place ++ fallingRange pg n ++ entries.drop place, ?_,
    ⟨first + UInt64.ofNat n, ?_, ?_⟩, ?_, ?_⟩
  · simp only [releaseRange, read, counts, moved, fills, wrote, Option.bind_eq_bind,
      Option.bind_some]
  · rw [final]
    simp
  · rw [UInt64.toNat_add, counts, UInt64.toNat_ofNat_of_lt' (show n < 2 ^ 64 by omega),
      Nat.mod_eq_of_lt small]
    simp only [List.length_append, length_fallingRange, List.length_take, List.length_drop]
    omega
  · rw [List.append_assoc]
    refine (List.perm_append_comm.append_left _).trans ?_
    rw [← List.append_assoc, List.take_append_drop]
  · rw [List.append_assoc, List.pairwise_append]
    refine ⟨falls.sublist (List.take_sublist _ _), ?_, ?_⟩
    · rw [List.pairwise_append]
      refine ⟨rangeFalls, falls.sublist (List.drop_sublist _ _), ?_⟩
      intro id member low member'
      have order := inRange id member
      have lower := UInt64.lt_iff_toNat_lt.mp (below low member')
      exact UInt64.lt_iff_toNat_lt.mpr (by omega)
    · intro high member other member'
      rcases above with none' | ⟨edge, atEdge, edgeAbove⟩
      · rw [none', List.take_zero] at member
        cases member
      · -- The last entry in front of the range is above it.
        obtain ⟨k, kIn, same⟩ := List.getElem_of_mem member
        rw [List.length_take] at kIn
        rw [List.getElem_take] at same
        obtain ⟨edgeIn, edgeIs⟩ := List.getElem?_eq_some_iff.mp atEdge
        have highEdge : edge.toNat ≤ high.toNat := by
          rcases Nat.lt_or_eq_of_le (show k ≤ place - 1 by omega) with less | equal
          · have order := (List.pairwise_iff_getElem.mp falls) k (place - 1) (by omega) edgeIn less
            rw [same, edgeIs] at order
            exact Nat.le_of_lt (UInt64.lt_iff_toNat_lt.mp order)
          · subst equal
            rw [← same, edgeIs]
        have edgeIn' := outside edge (edgeIs ▸ List.getElem_mem edgeIn)
        have edgeAbove' := UInt64.le_iff_toNat_le.mp edgeAbove
        rw [List.mem_append] at member'
        rcases member' with range | low
        · have order := inRange other range
          exact UInt64.lt_iff_toNat_lt.mpr (by omega)
        · have lower := UInt64.lt_iff_toNat_lt.mp (below other low)
          exact UInt64.lt_iff_toNat_lt.mpr (by omega)

end

end DbBench
