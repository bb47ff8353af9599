import DbBench.Construction.Midl

/-
This file proves that the sort of an ID list ends, stays inside of the list and its stack, and
leaves the same identities in descending order.
-/

namespace DbBench

open Cells

/-- A list descends, so the larger identity comes first. -/
def Descends (x y : UInt64) : Prop := y ≤ x

section Insertion
variable {a : UInt64} {ids : Array UInt64}

/-- The inner loop finds the place of `a` in front of the smaller entries and moves these one cell
up. It stops at the first cell or at one that no entry of the segment exceeds. -/
theorem insertShift_spec (i : Nat) {lo : Nat} (low : 1 ≤ lo) (below : lo ≤ i + 1) (inside : i + 1 < ids.size)
    (guard : lo = 1 ∨ ∀ top, ids[lo - 1]? = some top → a ≤ top) :
    ∃ place after, insertShift a i ids = some after ∧ lo ≤ place ∧ place ≤ i + 1 ∧
      after[place]? = some a ∧ (∀ p, p < place ∨ i + 1 < p → after[p]? = ids[p]?) ∧
      (∀ p, place ≤ p → p ≤ i → after[p + 1]? = ids[p]? ∧ ∀ x, ids[p]? = some x → x < a) ∧
      (lo < place → ∀ x, ids[place - 1]? = some x → a ≤ x) := by
  induction i generalizing ids with
  | zero =>
      obtain ⟨after, wrote, _, self, other⟩ := write_spec ids inside a
      refine ⟨1, after, wrote, below, Nat.le_refl 1, self, ?_, ?_, ?_⟩
      · intro p out
        exact other p (by omega)
      · intro p above small
        omega
      · intro less
        omega
  | succ i ih =>
      obtain ⟨cell, read⟩ : ∃ cell, ids[i + 1]? = some cell :=
        ⟨_, Array.getElem?_eq_getElem (by omega)⟩
      by_cases stops : cell ≥ a
      · obtain ⟨after, wrote, _, self, other⟩ := write_spec ids inside a
        refine ⟨i + 2, after, ?_, below, Nat.le_refl _, self, ?_, ?_, ?_⟩
        · simp only [insertShift, read, stops, wrote, Option.bind_eq_bind, Option.bind_some,
            if_true]
        · intro p out
          exact other p (by omega)
        · intro p above small
          omega
        · intro _ x atX
          rw [show i + 2 - 1 = i + 1 by omega, read] at atX
          cases atX
          exact stops
      · have further : lo ≤ i + 1 := by
          by_contra beyond
          have first : lo - 1 = i + 1 := by omega
          rcases guard with one | top
          · omega
          · exact stops (top cell (by rw [first, read]))
        obtain ⟨moved, wrote, size, self, other⟩ := write_spec ids inside cell
        obtain ⟨place, after, shifted, above, upTo, atPlace, outside, shift, top⟩ :=
          @ih moved further (by omega) (by
            rcases guard with one | top
            · exact Or.inl one
            · refine Or.inr fun x atX => top x ?_
              rw [← other (lo - 1) (by omega)]
              exact atX)
        refine ⟨place, after, ?_, above, by omega, atPlace, ?_, ?_, ?_⟩
        · simp only [insertShift, read, stops, wrote, shifted, Option.bind_eq_bind,
            Option.bind_some, if_false]
        · intro p out
          rw [outside p (by omega), other p (by omega)]
        · intro p from' upto
          by_cases last : p = i + 1
          · subst last
            rw [outside (i + 1 + 1) (Or.inr (by omega)), self, read]
            refine ⟨rfl, ?_⟩
            rintro x ⟨rfl⟩
            exact UInt64.not_le.mp stops
          · obtain ⟨up, smaller⟩ := shift p from' (by omega)
            rw [other p (by omega)] at up smaller
            exact ⟨up, smaller⟩
        · intro less x atX
          refine top less x ?_
          rw [other (place - 1) (by omega)]
          exact atX

/-- One entry moves down to `place`, and the entries from there on move up. -/
theorem rearranges_of_insertion {Value : Type} {before after : Array Value} {place last : Nat}
    (upTo : place ≤ last) (atPlace : after[place]? = before[last]?)
    (outside : ∀ p, p < place ∨ last < p → after[p]? = before[p]?)
    (shift : ∀ p, place ≤ p → p < last → after[p + 1]? = before[p]?) :
    Rearranges place last before after := by
  refine ⟨⟨fun p => if p = place then last else if place < p ∧ p ≤ last then p - 1 else p,
    fun p => if p = last then place else if place ≤ p ∧ p < last then p + 1 else p, ?_, ?_⟩, ?_, ?_⟩
  · intro p
    dsimp only
    split_ifs <;> omega
  · intro p
    dsimp only
    split_ifs <;> omega
  · intro p out
    simp only [Equiv.coe_fn_mk]
    split_ifs <;> omega
  · intro p
    simp only [Equiv.coe_fn_mk]
    split_ifs with first inner
    · rw [first, atPlace]
    · have moved := shift (p - 1) (by omega) (by omega)
      rwa [Nat.sub_add_cancel (by omega)] at moved
    · exact outside p (by omega)

/-- No entry of the segment exceeds the cell in front of it. -/
def Capped (ids : Array UInt64) (lo hi : Nat) : Prop :=
  lo = 1 ∨ ∀ top x p, ids[lo - 1]? = some top → lo ≤ p → p ≤ hi → ids[p]? = some x → x ≤ top

theorem Capped.rearrange {after : Array UInt64} {lo hi last : Nat} (capped : Capped ids lo hi)
    (low : 1 ≤ lo) (high : last ≤ hi) (rearranges : Rearranges lo last ids after) :
    Capped after lo hi := by
  rcases capped with one | top
  · exact Or.inl one
  · right
    intro cell x p atTop above below atX
    by_cases first : lo = 0
    · omega
    rw [rearranges.outside (Or.inl (by omega))] at atTop
    by_cases within : p ≤ last
    · obtain ⟨from', low', high', moved⟩ := rearranges.source above within
      rw [moved] at atX
      exact top cell x from' atTop low' (by omega) atX
    · rw [rearranges.outside (Or.inr (by omega))] at atX
      exact top cell x p atTop above below atX

/-- The outer loop extends the sorted front by one entry in every round. -/
theorem insertLoop_spec (rounds j : Nat) {lo hi : Nat} (low : 1 ≤ lo) (from' : lo < j)
    (upTo : j + rounds = hi + 1) (inside : hi < ids.size) (capped : Capped ids lo hi)
    (sorted : OrderedExcept Descends ids lo (j - 1) []) :
    ∃ after, insertLoop rounds j ids = some after ∧ Rearranges lo hi ids after ∧
      OrderedExcept Descends after lo hi [] := by
  induction rounds generalizing j ids with
  | zero =>
      refine ⟨ids, rfl, Rearranges.refl lo hi ids, ?_⟩
      rwa [show j - 1 = hi by omega] at sorted
  | succ rounds ih =>
      obtain ⟨a, read⟩ : ∃ a, ids[j]? = some a := ⟨_, Array.getElem?_eq_getElem (by omega)⟩
      obtain ⟨place, moved, shifted, above, below, atPlace, outside, shift, top⟩ :=
        @insertShift_spec a ids (j - 1) lo low (by omega) (by omega) (by
          rcases capped with one | top
          · exact Or.inl one
          · exact Or.inr fun cell atTop => top cell a j atTop (by omega) (by omega) read)
      rw [Nat.sub_add_cancel (by omega)] at below outside
      have rearranges : Rearranges lo j ids moved := by
        refine Rearranges.widen ?_ above (Nat.le_refl j)
        exact rearranges_of_insertion below (by rw [atPlace, read]) outside
          fun p from' upto => (shift p from' (by omega)).1
      -- The entries in front of the place are not below `a`, those behind it are.
      have sorted' : OrderedExcept Descends moved lo j [] := by
        intro left right x y from' less upto atLeft atRight
        left
        have old (p q : Nat) (x y : UInt64) (above : lo ≤ p) (less : p < q) (below : q ≤ j - 1)
            (atP : ids[p]? = some x) (atQ : ids[q]? = some y) : y ≤ x := by
          rcases sorted p q x y above less below atP atQ with order | ⟨_, member, _⟩
          · exact order
          · cases member
        have ahead (p : Nat) (x : UInt64) (above : lo ≤ p) (less : p < place)
            (atP : ids[p]? = some x) : a ≤ x := by
          obtain ⟨w, atW⟩ : ∃ w, ids[place - 1]? = some w :=
            ⟨_, Array.getElem?_eq_getElem (by omega)⟩
          have edge := top (by omega) w atW
          by_cases same : p = place - 1
          · rw [same, atW] at atP
            cases atP
            exact edge
          · exact UInt64.le_trans edge (old p (place - 1) x w above (by omega) (by omega) atP atW)
        have behind (q : Nat) (y : UInt64) (above : place < q) (upto : q ≤ j)
            (atQ : moved[q]? = some y) : ids[q - 1]? = some y ∧ y < a := by
          obtain ⟨up, smaller⟩ := shift (q - 1) (by omega) (by omega)
          rw [Nat.sub_add_cancel (by omega), atQ] at up
          exact ⟨up.symm, smaller y up.symm⟩
        unfold Descends
        rcases Nat.lt_trichotomy left place with front | here | back
        · rw [outside left (Or.inl front)] at atLeft
          rcases Nat.lt_trichotomy right place with front' | here' | back'
          · rw [outside right (Or.inl front')] at atRight
            exact old left right x y from' less (by omega) atLeft atRight
          · rw [here', atPlace] at atRight
            cases atRight
            exact ahead left x from' front atLeft
          · obtain ⟨was, smaller⟩ := behind right y back' upto atRight
            exact UInt64.le_trans (UInt64.le_of_lt smaller) (ahead left x from' front atLeft)
        · rw [here, atPlace] at atLeft
          cases atLeft
          exact UInt64.le_of_lt (behind right y (by omega) upto atRight).2
        · obtain ⟨was, _⟩ := behind left x back (by omega) atLeft
          obtain ⟨was', _⟩ := behind right y (by omega) upto atRight
          exact old (left - 1) (right - 1) x y (by omega) (by omega) (by omega) was was'
      obtain ⟨after, looped, rearranges', done⟩ := @ih moved (j + 1) (by omega)
        (by omega) (by rw [rearranges.size]; exact inside)
        (capped.rearrange low (by omega) rearranges) (by rwa [Nat.add_sub_cancel])
      refine ⟨after, ?_, (rearranges.widen (Nat.le_refl lo) (by omega)).trans rearranges', done⟩
      simp only [insertLoop, read, shifted, looped, Option.bind_eq_bind, Option.bind_some]

end Insertion

section Partition
variable {a : UInt64} {ids : Array UInt64}

/-- The upward scan stops at the first cell that is not above the pivot. -/
theorem scanUp_spec (fuel : Nat) {i stop : Nat} (from' : i ≤ stop) (enough : stop < i + fuel)
    {z : UInt64} (atStop : ids[stop]? = some z) (low : z ≤ a) :
    ∃ place x, scanUp ids a fuel i = some place ∧ i ≤ place ∧ place ≤ stop ∧
      ids[place]? = some x ∧ x ≤ a ∧
      ∀ p y, i ≤ p → p < place → ids[p]? = some y → a < y := by
  induction fuel generalizing i with
  | zero => omega
  | succ fuel ih =>
      have size : stop < ids.size := (Array.getElem?_eq_some_iff.mp atStop).1
      obtain ⟨cell, read⟩ : ∃ cell, ids[i]? = some cell :=
        ⟨_, Array.getElem?_eq_getElem (by omega)⟩
      by_cases above : cell > a
      · have different : i ≠ stop := by
          intro same
          rw [same, atStop] at read
          cases read
          exact UInt64.not_lt.mpr low above
        obtain ⟨place, x, scanned, start, upTo, atPlace, small, large⟩ :=
          ih (i := i + 1) (by omega) (by omega)
        refine ⟨place, x, ?_, by omega, upTo, atPlace, small, ?_⟩
        · simp only [scanUp, read, above, scanned, Option.bind_eq_bind, Option.bind_some, if_true]
        · intro p y from'' less atP
          by_cases first : p = i
          · rw [first, read] at atP
            cases atP
            exact above
          · exact large p y (by omega) less atP
      · refine ⟨i, cell, ?_, Nat.le_refl i, from', read, UInt64.not_lt.mp above, ?_⟩
        · simp only [scanUp, read, above, Option.bind_eq_bind, Option.bind_some, if_false]
          rfl
        · intro p y from'' less
          omega

/-- The downward scan stops at the first cell that is not below the pivot. -/
theorem scanDown_spec (j stop : Nat) (below : stop < j) (inside : j ≤ ids.size) {z : UInt64}
    (atStop : ids[stop]? = some z) (high : a ≤ z) :
    ∃ place x, scanDown ids a j = some place ∧ stop ≤ place ∧ place < j ∧
      ids[place]? = some x ∧ a ≤ x ∧
      ∀ p y, place < p → p < j → ids[p]? = some y → y < a := by
  induction j with
  | zero => omega
  | succ j ih =>
      obtain ⟨cell, read⟩ : ∃ cell, ids[j]? = some cell :=
        ⟨_, Array.getElem?_eq_getElem (by omega)⟩
      by_cases under : cell < a
      · have different : j ≠ stop := by
          intro same
          rw [same, atStop] at read
          cases read
          exact UInt64.not_lt.mpr high under
        obtain ⟨place, x, scanned, start, upTo, atPlace, large, small⟩ := ih (by omega) (by omega)
        refine ⟨place, x, ?_, start, by omega, atPlace, large, ?_⟩
        · simp only [scanDown, read, under, scanned, Option.bind_eq_bind, Option.bind_some,
            if_true]
        · intro p y above less atP
          by_cases last : p = j
          · rw [last, read] at atP
            cases atP
            exact under
          · exact small p y above (by omega) atP
      · refine ⟨j, cell, ?_, by omega, Nat.lt_succ_self j, read, UInt64.not_lt.mp under, ?_⟩
        · simp only [scanDown, read, under, Option.bind_eq_bind, Option.bind_some, if_false]
          rfl
        · intro p y above less
          omega

/-- During the partition the cells behind the pivot up to `i` are not below it, and the cells from
`j` on are not above it. -/
structure Parting (a : UInt64) (ids : Array UInt64) (l ir i j : Nat) : Prop where
  pivot : ids[l + 1]? = some a
  front : ∀ p x, l + 1 ≤ p → p ≤ i → ids[p]? = some x → a ≤ x
  back : ∀ p x, j ≤ p → p ≤ ir → ids[p]? = some x → x ≤ a
  low : l + 1 ≤ i
  order : i ≤ j
  high : j ≤ ir
  room : i = j → j < ir
  behind : l + 1 < j

/-- The loop ends with the two indices crossed. -/
theorem partition_spec (fuel : Nat) {l ir i j : Nat} (inside : ir < ids.size)
    (parting : Parting a ids l ir i j) (enough : ir < i + fuel) :
    ∃ i' j' after, partition a fuel i j ids = some (i', j', after) ∧
      Rearranges (l + 2) (ir - 1) ids after ∧ l + 1 ≤ j' ∧ j' < i' ∧ i' ≤ ir ∧ j' < ir ∧
      (∀ p x, l + 1 ≤ p → p < i' → after[p]? = some x → a ≤ x) ∧
      ∀ p x, j' < p → p ≤ ir → after[p]? = some x → x ≤ a := by
  induction fuel generalizing i j ids with
  | zero =>
      have := parting.order
      have := parting.high
      omega
  | succ fuel ih =>
      obtain ⟨pivot, front, back, low, order, high, room, behind⟩ := parting
      -- A cell that is not above the pivot stops the upward scan.
      obtain ⟨stop, z, up, last, atStop, small, near⟩ : ∃ stop z, i + 1 ≤ stop ∧ stop ≤ ir ∧
          ids[stop]? = some z ∧ z ≤ a ∧ stop ≤ j + 1 := by
        by_cases met : i = j
        · obtain ⟨z, atZ⟩ : ∃ z, ids[j + 1]? = some z :=
            ⟨_, Array.getElem?_eq_getElem (by have := room met; omega)⟩
          exact ⟨j + 1, z, by omega, room met, atZ, back _ z (by omega) (room met) atZ,
            Nat.le_refl _⟩
        · obtain ⟨z, atZ⟩ : ∃ z, ids[j]? = some z := ⟨_, Array.getElem?_eq_getElem (by omega)⟩
          exact ⟨j, z, by omega, high, atZ, back _ z (Nat.le_refl j) high atZ, by omega⟩
      obtain ⟨i', x, scannedUp, above, upTo, atI, xLow, passedUp⟩ :=
        scanUp_spec ids.size up (by omega) atStop small
      obtain ⟨j', y, scannedDown, from', under, atJ, yHigh, passedDown⟩ :=
        scanDown_spec j (l + 1) behind (by omega) pivot (UInt64.le_refl a)
      have front' (p : Nat) (w : UInt64) (start : l + 1 ≤ p) (less : p < i')
          (atP : ids[p]? = some w) : a ≤ w := by
        by_cases old : p ≤ i
        · exact front p w start old atP
        · exact UInt64.le_of_lt (passedUp p w (by omega) less atP)
      have back' (p : Nat) (w : UInt64) (more : j' < p) (upto : p ≤ ir)
          (atP : ids[p]? = some w) : w ≤ a := by
        by_cases old : j ≤ p
        · exact back p w old upto atP
        · exact UInt64.le_of_lt (passedDown p w more (by omega) atP)
      by_cases crossed : j' < i'
      · refine ⟨i', j', ids, ?_, Rearranges.refl _ _ ids, from', crossed, by omega, by omega,
          front', back'⟩
        simp only [partition, scannedUp, scannedDown, crossed, Option.bind_eq_bind,
          Option.bind_some, if_true]
        rfl
      · obtain ⟨swapped, did, rearranges, atFirst, atSecond, others⟩ :=
          swap_spec ids i' j' (l + 2) (ir - 1) (by omega) (by omega) (by omega)
        obtain ⟨i'', j'', after, parted, rearranges', rest⟩ :=
          @ih swapped i' j' (by rw [rearranges.size]; exact inside)
            { pivot := by rw [others _ (by omega) (by omega), pivot]
              front := by
                intro p w start upto atP
                by_cases last' : p = i'
                · rw [last', atFirst, atJ] at atP
                  cases atP
                  exact yHigh
                · by_cases other : p = j'
                  · omega
                  · rw [others p last' other] at atP
                    exact front' p w start (by omega) atP
              back := by
                intro p w start upto atP
                by_cases last' : p = j'
                · rw [last', atSecond, atI] at atP
                  cases atP
                  exact xLow
                · by_cases other : p = i'
                  · omega
                  · rw [others p other last'] at atP
                    exact back' p w (by omega) upto atP
              low := by omega
              order := by omega
              high := by omega
              room := by omega
              behind := by omega } (by omega)
        refine ⟨i'', j'', after, ?_, rearranges.trans rearranges', rest⟩
        simp only [partition, scannedUp, scannedDown, crossed, did, parted, Option.bind_eq_bind,
          Option.bind_some, if_false]

/-- A conditional swap leaves the smaller of two values behind the larger one. -/
theorem swapBelow_spec {first second : Nat} (lo hi : Nat) (low : lo ≤ first ∧ lo ≤ second)
    (high : first ≤ hi ∧ second ≤ hi) (inside : hi < ids.size) {x y : UInt64}
    (atFirst : ids[first]? = some x) (atSecond : ids[second]? = some y) :
    ∃ after u v, swapBelow first second ids = some after ∧ Rearranges lo hi ids after ∧
      after[first]? = some u ∧ after[second]? = some v ∧ v ≤ u ∧ v ≤ y ∧
      (∀ z, z ≤ x → z ≤ y → z ≤ v) ∧
      ∀ p, p ≠ first → p ≠ second → after[p]? = ids[p]? := by
  by_cases under : x < y
  · obtain ⟨after, did, rearranges, one, other, others⟩ :=
      swap_spec ids first second lo hi low high inside
    refine ⟨after, y, x, ?_, rearranges, by rw [one, atSecond], by rw [other, atFirst],
      UInt64.le_of_lt under, UInt64.le_of_lt under, fun z one' _ => one', others⟩
    simp only [swapBelow, atFirst, atSecond, under, did, Option.bind_eq_bind, Option.bind_some,
      if_true]
  · refine ⟨ids, x, y, ?_, Rearranges.refl lo hi ids, atFirst, atSecond, UInt64.not_lt.mp under,
      UInt64.le_refl y, fun z _ other => other, fun _ _ _ => rfl⟩
    simp only [swapBelow, atFirst, atSecond, under, Option.bind_eq_bind, Option.bind_some,
      if_false]
    rfl

/-- The swaps of the median leave the pivot between the two ends. -/
theorem median_spec {l ir : Nat} (wide : l + 1 < ir) (inside : ir < ids.size) :
    ∃ one two three four a, swap ids ((l + ir) >>> 1) (l + 1) = some one ∧
      swapBelow l ir one = some two ∧ swapBelow (l + 1) ir two = some three ∧
      swapBelow l (l + 1) three = some four ∧ Rearranges l ir ids four ∧ four[l + 1]? = some a ∧
      (∀ x, four[l]? = some x → a ≤ x) ∧ ∀ x, four[ir]? = some x → x ≤ a := by
  have middle : l ≤ (l + ir) >>> 1 ∧ (l + ir) >>> 1 ≤ ir := by
    rw [Nat.shiftRight_eq_div_pow]
    omega
  obtain ⟨one, did, moved, _⟩ := swap_spec ids ((l + ir) >>> 1) (l + 1) l ir
    (by omega) (by omega) inside
  have cell (cells : Array UInt64) (rearranges : Rearranges l ir ids cells) (p : Nat)
      (upto : p ≤ ir) : ∃ x, cells[p]? = some x :=
    ⟨_, Array.getElem?_eq_getElem (by rw [rearranges.size]; omega)⟩
  obtain ⟨x, atL⟩ := cell one moved l (by omega)
  obtain ⟨y, atIr⟩ := cell one moved ir (Nat.le_refl ir)
  obtain ⟨two, u, v, did2, moved2, atL2, atIr2, vu, _, _, same2⟩ :=
    swapBelow_spec l ir (by omega) (by omega) (by rw [moved.size]; exact inside)
      atL atIr
  have moved2 := moved.trans moved2
  obtain ⟨m, atM⟩ := cell two moved2 (l + 1) (by omega)
  obtain ⟨three, u3, v3, did3, moved3, atM3, atIr3, vu3, vv, _, same3⟩ :=
    swapBelow_spec l ir (by omega) (by omega) (by rw [moved2.size]; exact inside)
      atM atIr2
  have moved3 := moved2.trans moved3
  have atL3 : three[l]? = some u := by rw [same3 l (by omega) (by omega), atL2]
  obtain ⟨four, u4, v4, did4, moved4, atL4, atM4, vu4, _, least, same4⟩ :=
    swapBelow_spec l ir (by omega) (by omega) (by rw [moved3.size]; exact inside)
      atL3 atM3
  refine ⟨one, two, three, four, v4, did, did2, did3, did4, moved3.trans moved4, atM4, ?_, ?_⟩
  · intro w atW
    rw [atL4] at atW
    cases atW
    exact vu4
  · intro w atW
    rw [same4 ir (by omega) (by omega), atIr3] at atW
    cases atW
    exact least v3 (UInt64.le_trans vv vu) vu3

/-- A partition leaves two smaller segments, and every other pair of the segment is in order. -/
theorem splitSegment_spec (l ir : Nat) (wide : l + 1 < ir) (inside : ir < ids.size) :
    ∃ i j after, splitSegment l ir ids = some (i, j, after) ∧ Rearranges l ir ids after ∧
      l < j ∧ j < i ∧ i ≤ ir ∧
      OrderedExcept Descends after l ir [(l, j - 1), (i, ir)] := by
  obtain ⟨one, two, three, chosen, a, did, did2, did3, did4, moved, atPivot, left, right⟩ :=
    median_spec wide inside
  have size : chosen.size = ids.size := moved.size
  obtain ⟨x, atL⟩ : ∃ x, chosen[l]? = some x := ⟨_, Array.getElem?_eq_getElem (by omega)⟩
  obtain ⟨i, j, parted, cut, moved', from', crossed, upTo, short, front, back⟩ :=
    @partition_spec a chosen chosen.size l ir (l + 1) ir (by omega)
      { pivot := atPivot
        front := by
          intro p y start upto atP
          rw [show p = l + 1 by omega, atPivot] at atP
          cases atP
          exact UInt64.le_refl a
        back := by
          intro p y start upto atP
          rw [show p = ir by omega] at atP
          exact right y atP
        low := Nat.le_refl _
        order := by omega
        high := Nat.le_refl ir
        room := by omega
        behind := wide } (by omega)
  have size' : parted.size = ids.size := by rw [moved'.size, size]
  have pivot : parted[l + 1]? = some a := by rw [moved'.outside (Or.inl (by omega)), atPivot]
  obtain ⟨y, atJ⟩ : ∃ y, parted[j]? = some y := ⟨_, Array.getElem?_eq_getElem (by omega)⟩
  -- The pivot and the cell at `j` change places by two writes.
  obtain ⟨once, wrote, onceSize, onceSelf, onceOther⟩ :=
    write_spec parted (show l + 1 < parted.size by omega) y
  obtain ⟨after, wrote', _, self, other⟩ :=
    write_spec once (show j < once.size by omega) a
  have atFront : after[l + 1]? = parted[j]? := by
    by_cases same : l + 1 = j
    · subst same
      rw [self, pivot]
    · rw [other _ same, onceSelf, atJ]
  have others (p : Nat) (one : p ≠ l + 1) (two : p ≠ j) : after[p]? = parted[p]? := by
    rw [other p two, onceOther p one]
  have exchanged : Rearranges l ir parted after := by
    refine ⟨Equiv.swap (l + 1) j, ?_, ?_⟩
    · intro p out
      exact Equiv.swap_apply_of_ne_of_ne (by omega) (by omega)
    · intro p
      by_cases one : p = l + 1
      · rw [one, Equiv.swap_apply_left, atFront]
      · by_cases two : p = j
        · rw [two, Equiv.swap_apply_right, self, pivot]
        · rw [Equiv.swap_apply_of_ne_of_ne one two, others p one two]
  refine ⟨i, j, after, ?_, ?_, by omega, crossed, upTo, ?_⟩
  · simp only [splitSegment, did, did2, did3, did4, atPivot, cut, atJ, wrote, wrote',
      Option.bind_eq_bind, Option.bind_some]
    rfl
  · exact (moved.trans (moved'.widen (by omega) (by omega))).trans exchanged
  · -- Up to `j` nothing is below the pivot, and behind `j` nothing is above it.
    have high (p : Nat) (w : UInt64) (start : l ≤ p) (upto : p ≤ j)
        (atP : after[p]? = some w) : a ≤ w := by
      by_cases two : p = j
      · rw [two, self] at atP
        cases atP
        exact UInt64.le_refl a
      · by_cases one : p = l + 1
        · rw [one, atFront] at atP
          exact front j w from' crossed atP
        · rw [others p one two] at atP
          by_cases zero : p = l
          · rw [zero, moved'.outside (Or.inl (by omega))] at atP
            exact left w atP
          · exact front p w (by omega) (by omega) atP
    have low (p : Nat) (w : UInt64) (start : j < p) (upto : p ≤ ir)
        (atP : after[p]? = some w) : w ≤ a := by
      rw [others p (by omega) (by omega)] at atP
      exact back p w start upto atP
    intro p q v w start less upto atP atQ
    by_cases early : q < j
    · exact Or.inr ⟨(l, j - 1), by simp, start, by simp only; omega⟩
    · by_cases late : i ≤ p
      · exact Or.inr ⟨(i, ir), by simp, late, upto⟩
      · left
        by_cases frontP : p ≤ j
        · have above := high p v start frontP atP
          by_cases atEnd : q = j
          · rw [atEnd, self] at atQ
            cases atQ
            -- the cell at `j` is the pivot itself
            exact above
          · exact UInt64.le_trans (low q w (by omega) upto atQ) above
        · -- Between the crossed indices every cell equals the pivot.
          have equal : a ≤ v := by
            rw [others p (by omega) (by omega)] at atP
            exact front p v (by omega) (by omega) atP
          exact UInt64.le_trans (low q w (by omega) upto atQ) equal

end Partition

section Loop

/-- The stack holds the bounds of the pending segments, the latest on top. -/
def OnStack (istack : Array Nat) : Nat → List (Nat × Nat) → Prop
  | jstack, [] => jstack = 0
  | jstack, segment :: rest => ∃ below, jstack = below + 2 ∧ istack[below + 2]? = some segment.2 ∧
      istack[below + 1]? = some segment.1 ∧ OnStack istack below rest

theorem OnStack.jstack_eq {istack : Array Nat} {jstack : Nat} {pending : List (Nat × Nat)}
    (stack : OnStack istack jstack pending) : jstack = 2 * pending.length := by
  induction pending generalizing jstack with
  | nil => exact stack
  | cons segment rest ih =>
      obtain ⟨below, rfl, _, _, deeper⟩ := stack
      rw [ih deeper, List.length_cons]
      omega

/-- Cells above the top do not matter. -/
theorem OnStack.congr {istack after : Array Nat} {jstack : Nat} {pending : List (Nat × Nat)}
    (stack : OnStack istack jstack pending)
    (same : ∀ idx, idx ≤ jstack → after[idx]? = istack[idx]?) : OnStack after jstack pending := by
  induction pending generalizing jstack with
  | nil => exact stack
  | cons segment rest ih =>
      obtain ⟨below, rfl, high, low, deeper⟩ := stack
      refine ⟨below, rfl, ?_, ?_, ih deeper fun idx upto => same idx (by omega)⟩
      · rw [same _ (Nat.le_refl _), high]
      · rw [same _ (by omega), low]

/-- A push writes the two bounds above the top. -/
theorem OnStack.push {istack : Array Nat} {jstack : Nat} {pending : List (Nat × Nat)}
    (stack : OnStack istack jstack pending) (room : jstack + 2 < istack.size) (lo hi : Nat) :
    ∃ once after, write istack (jstack + 2) hi = some once ∧
      write once (jstack + 2 - 1) lo = some after ∧ after.size = istack.size ∧
      OnStack after (jstack + 2) ((lo, hi) :: pending) := by
  obtain ⟨once, wrote, size, self, other⟩ := write_spec istack room hi
  obtain ⟨after, wrote', size', self', other'⟩ :=
    write_spec once (show jstack + 2 - 1 < once.size by omega) lo
  refine ⟨once, after, wrote, wrote', by rw [size', size], jstack, rfl, ?_, self', ?_⟩
  · rw [other' _ (by omega), self]
  · refine stack.congr fun idx upto => ?_
    rw [other' idx (by omega), other idx (by omega)]

/-- The number of cells of a segment. -/
def width (segment : Nat × Nat) : Nat := segment.2 + 1 - segment.1

/-- The segments become half as wide with every level of the stack. -/
def Halves (n : Nat) : List (Nat × Nat) → Prop
  | [] => True
  | segment :: rest => width segment * 2 ^ rest.length ≤ n ∧ Halves n rest

/-- The loop needs at most this many rounds for its pending segments. -/
def rounds (pending : List (Nat × Nat)) : Nat :=
  (pending.map fun segment => 2 * width segment + 1).sum

/-- The main loop keeps its segments apart and everything between them in order. -/
structure Sorting (n : Nat) (original ids : Array UInt64) (pending : List (Nat × Nat)) : Prop where
  moved : Rearranges 1 n original ids
  ordered : OrderedExcept Descends ids 1 n pending
  bounds : ∀ segment ∈ pending, 1 ≤ segment.1 ∧ segment.2 ≤ n
  apart : pending.Pairwise Beside
  halves : Halves n pending

variable {n l ir : Nat} {original ids : Array UInt64} {rest : List (Nat × Nat)}

/-- A short segment comes into order by insertion. -/
theorem Sorting.insert (sorting : Sorting n original ids ((l, ir) :: rest))
    (inside : n < original.size) :
    ∃ after, insertLoop (ir - l) (l + 1) ids = some after ∧ Sorting n original after rest := by
  obtain ⟨moved, ordered, bounds, apart, halves⟩ := sorting
  obtain ⟨low, high⟩ := bounds (l, ir) List.mem_cons_self
  obtain ⟨apart, apart'⟩ := List.pairwise_cons.mp apart
  have finish (after : Array UInt64) (rearranges : Rearranges l ir ids after)
      (within : OrderedExcept Descends after l ir []) : Sorting n original after rest :=
    { moved := moved.trans (rearranges.widen low high)
      ordered := ordered.rearrange ⟨low, high⟩ apart rearranges within
      bounds := fun segment member => bounds segment (List.mem_cons_of_mem _ member)
      apart := apart'
      halves := halves.2 }
  by_cases empty : ir < l
  · refine ⟨ids, ?_, finish ids (Rearranges.refl l ir ids) fun left right x y low less high => ?_⟩
    · rw [Nat.sub_eq_zero_of_le (by omega)]
      rfl
    · omega
  · have capped : Capped ids l ir := by
      by_cases first : l = 1
      · exact Or.inl first
      · right
        intro top x p atTop above below atP
        rcases ordered (l - 1) p top x (by simp only at low; omega) (by omega)
          (by simp only at high; omega) atTop atP with
          order | ⟨segment, member, start, stop⟩
        · exact order
        · rcases List.mem_cons.mp member with rfl | member
          · simp only at start
            omega
          · exact absurd (apart segment member p above below (by omega) stop) id
    obtain ⟨after, looped, rearranges, within⟩ := insertLoop_spec (ir - l) (l + 1)
      low (by omega) (by omega) (by rw [moved.size]; simp only at high; omega) capped
      (by intro left right x y low less high; omega)
    exact ⟨after, looped, finish after rearranges within⟩

/-- A long segment falls into two parts, of which the larger one may wait. -/
theorem Sorting.split (sorting : Sorting n original ids ((l, ir) :: rest)) (long : l + 8 ≤ ir)
    (inside : n < original.size) :
    ∃ i j after, splitSegment l ir ids = some (i, j, after) ∧ l < j ∧ j < i ∧ i ≤ ir ∧
      (ir + 1 - i ≥ j - l → Sorting n original after ((l, j - 1) :: (i, ir) :: rest)) ∧
      (ir + 1 - i < j - l → Sorting n original after ((i, ir) :: (l, j - 1) :: rest)) := by
  obtain ⟨moved, ordered, bounds, apart, halves⟩ := sorting
  obtain ⟨low, high⟩ := bounds (l, ir) List.mem_cons_self
  obtain ⟨apart, apart'⟩ := List.pairwise_cons.mp apart
  simp only at low high
  obtain ⟨i, j, after, cut, rearranges, from', crossed, upTo, within⟩ :=
    splitSegment_spec l ir (by omega) (by rw [moved.size]; omega)
  have ordered' := ordered.rearrange ⟨low, high⟩ apart rearranges within
  have left : ∀ other ∈ rest, Beside (l, j - 1) other := by
    intro other member p start stop
    exact apart other member p start (by simp only at stop ⊢; omega)
  have right : ∀ other ∈ rest, Beside (i, ir) other := by
    intro other member p start stop
    exact apart other member p (by simp only at start ⊢; omega) stop
  have bounds' (segment : Nat × Nat) (member : segment ∈ rest) : 1 ≤ segment.1 ∧ segment.2 ≤ n :=
    bounds segment (List.mem_cons_of_mem _ member)
  obtain ⟨size, halves⟩ := halves
  simp only [width] at size
  -- Both parts are narrower than the segment, and the smaller one is at most half of it.
  have fits (one other : Nat) (less : one ≤ other) (both : one + other ≤ ir - l) :
      one * 2 ^ (rest.length + 1) ≤ n ∧ other * 2 ^ rest.length ≤ n := by
    have narrow : one * 2 ^ (rest.length + 1) = (2 * one) * 2 ^ rest.length := by
      rw [Nat.pow_succ, Nat.mul_comm (2 ^ rest.length) 2, ← Nat.mul_assoc, Nat.mul_comm one 2]
    rw [narrow]
    exact ⟨(Nat.mul_le_mul_right _ (by omega)).trans size,
      (Nat.mul_le_mul_right _ (by omega)).trans size⟩
  refine ⟨i, j, after, cut, from', crossed, upTo, ?_, ?_⟩
  · intro larger
    refine ⟨moved.trans (rearranges.widen low high), ordered', ?_, ?_, ?_⟩
    · intro segment member
      rcases List.mem_cons.mp member with rfl | member
      · exact ⟨low, by simp only; omega⟩
      · rcases List.mem_cons.mp member with rfl | member
        · exact ⟨by simp only; omega, high⟩
        · exact bounds' segment member
    · refine List.pairwise_cons.mpr ⟨?_, List.pairwise_cons.mpr ⟨right, apart'⟩⟩
      intro other member
      rcases List.mem_cons.mp member with rfl | member
      · intro p _ stop start _
        simp only at stop start
        omega
      · exact left other member
    · have sizes := fits (j - l) (ir + 1 - i) larger (by omega)
      refine ⟨?_, sizes.2, halves⟩
      simp only [width, List.length_cons]
      rw [Nat.sub_add_cancel (by omega)]
      exact sizes.1
  · intro smaller
    refine ⟨moved.trans (rearranges.widen low high), ordered'.mono ?_, ?_, ?_, ?_⟩
    · intro segment member
      simp only [List.mem_append, List.mem_cons, List.not_mem_nil, or_false] at member ⊢
      tauto
    · intro segment member
      rcases List.mem_cons.mp member with rfl | member
      · exact ⟨by simp only; omega, high⟩
      · rcases List.mem_cons.mp member with rfl | member
        · exact ⟨low, by simp only; omega⟩
        · exact bounds' segment member
    · refine List.pairwise_cons.mpr ⟨?_, List.pairwise_cons.mpr ⟨left, apart'⟩⟩
      intro other member
      rcases List.mem_cons.mp member with rfl | member
      · intro p start _ _ stop
        simp only at stop start
        omega
      · exact right other member
    · have sizes := fits (ir + 1 - i) (j - l) (by omega) (by omega)
      refine ⟨sizes.1, ?_, halves⟩
      simp only [width]
      rw [Nat.sub_add_cancel (by omega)]
      exact sizes.2

/-- The loop ends with everything in order. The invariant bounds the height of its stack. -/
theorem sortLoop_spec (fuel : Nat) {jstack : Nat} (istack : Array Nat)
    (sorting : Sorting n original ids ((l, ir) :: rest)) (inside : n < original.size)
    (small : n < 2 ^ 31) (stack : OnStack istack jstack rest) (length : istack.size = istackLength)
    (enough : rounds ((l, ir) :: rest) ≤ fuel) :
    ∃ after, sortLoop fuel istack jstack l ir ids = some after ∧ Rearranges 1 n original after ∧
      OrderedExcept Descends after 1 n [] := by
  induction fuel generalizing istack jstack l ir rest ids with
  | zero => simp [rounds] at enough
  | succ fuel ih =>
      have spent : 2 * width (l, ir) + 1 + rounds rest ≤ fuel + 1 := enough
      by_cases short : ir - l < DbBench.small
      · obtain ⟨after, looped, sorted⟩ := sorting.insert inside
        cases rest with
        | nil =>
            refine ⟨after, ?_, sorted.moved, sorted.ordered⟩
            have empty : jstack = 0 := stack
            simp only [sortLoop, short, looped, empty, Option.bind_eq_bind, Option.bind_some,
              if_true, pure]
        | cons segment rest =>
            obtain ⟨below, rfl, high, low, deeper⟩ := stack
            have left : rounds (segment :: rest) ≤ fuel := by omega
            obtain ⟨final, went, result⟩ := @ih segment.1 segment.2 after rest below istack sorted deeper
              length left
            refine ⟨final, ?_, result⟩
            simp only [sortLoop, short, looped, high, Nat.add_sub_cancel,
              show below + 2 - 1 = below + 1 from rfl, low, Option.bind_eq_bind, Option.bind_some,
              if_true, if_neg (Nat.succ_ne_zero (below + 1)), went]
      · have long : l + 8 ≤ ir := by
          unfold DbBench.small at short
          omega
        have height : jstack + 2 < istack.size := by
          have wide : 9 * 2 ^ rest.length ≤ n := by
            refine (Nat.mul_le_mul_right _ ?_).trans sorting.halves.1
            simp only [width]
            omega
          have levels : rest.length < 31 := by
            by_contra more
            have large := Nat.pow_le_pow_right (n := 2) (by decide) (Nat.le_of_not_lt more)
            omega
          rw [stack.jstack_eq, length, istackLength]
          omega
        obtain ⟨i, j, after, cut, from', crossed, upTo, larger, smaller⟩ :=
          sorting.split long inside
        by_cases right : (ir : Int) - i + 1 ≥ (j : Int) - l
        · obtain ⟨once, pushed, wrote, wrote', size, stack'⟩ := stack.push height i ir
          obtain ⟨final, went, result⟩ := ih _ (larger (by omega)) stack' (by rw [size, length]) (by
            simp only [rounds, List.map_cons, List.sum_cons, width] at spent ⊢
            omega)
          refine ⟨final, ?_, result⟩
          simp only [sortLoop, short, cut, right, wrote, wrote', went, Option.bind_eq_bind,
            Option.bind_some, if_false, if_true]
        · obtain ⟨once, pushed, wrote, wrote', size, stack'⟩ := stack.push height l (j - 1)
          obtain ⟨final, went, result⟩ := ih _ (smaller (by omega)) stack' (by rw [size, length]) (by
            simp only [rounds, List.map_cons, List.sum_cons, width] at spent ⊢
            omega)
          refine ⟨final, ?_, result⟩
          simp only [sortLoop, short, cut, right, wrote, wrote', went, Option.bind_eq_bind,
            Option.bind_some, if_false]

end Loop

/-- A list in memory with its entries and its unused cells. -/
def Midl.Lists (ids : Array UInt64) (entries unused : List UInt64) : Prop :=
  Counted UInt64.toNat ids entries unused

/-- A rearrangement of the entries of a list keeps its first cell and its unused cells. -/
theorem Midl.Lists.rearrange {ids after : Array UInt64} {entries unused : List UInt64}
    (lists : Midl.Lists ids entries unused) (moved : Rearranges 1 entries.length ids after) :
    ∃ sorted, Midl.Lists after sorted unused ∧ sorted.Perm entries := by
  obtain ⟨first, layout, counts⟩ := lists
  have cell (p : Nat) (out : p < 1 ∨ entries.length < p) :
      after.toList[p]? = (first :: (entries ++ unused))[p]? := by
    rw [Array.getElem?_toList, moved.outside out, ← Array.getElem?_toList, layout]
  have size : after.toList.length = entries.length + unused.length + 1 := by
    rw [Array.length_toList, moved.size, ← Array.length_toList, layout, List.length_cons,
      List.length_append]
  let sorted := (after.toList.drop 1).take entries.length
  have length : sorted.length = entries.length := by
    simp only [sorted, List.length_take, List.length_drop, size]
    omega
  have layout' : after.toList = first :: (sorted ++ unused) := by
    apply List.ext_getElem?
    intro p
    cases p with
    | zero => rw [cell 0 (Or.inl Nat.zero_lt_one), List.getElem?_cons_zero, List.getElem?_cons_zero]
    | succ p =>
        rw [List.getElem?_cons_succ]
        by_cases inside : p < entries.length
        · rw [List.getElem?_append_left (by omega), List.getElem?_take_of_lt inside,
            List.getElem?_drop, Nat.add_comm]
        · rw [cell _ (Or.inr (by omega)), List.getElem?_cons_succ,
            List.getElem?_append_right (by omega), List.getElem?_append_right (by omega), length]
  refine ⟨sorted, ⟨first, layout', by rw [counts, length]⟩, ?_⟩
  have perm := moved.perm
  rw [Nat.add_sub_cancel] at perm
  have values (cells : Array UInt64) (held : List UInt64) (same : held.length = entries.length)
      (shape : cells.toList = first :: (held ++ unused)) :
      (List.range' 1 entries.length).map (cells[·]?) = held.map some := by
    apply List.ext_getElem?
    intro p
    by_cases inside : p < entries.length
    · rw [List.getElem?_map, List.getElem?_range' inside, List.getElem?_map, Option.map_some,
        ← Array.getElem?_toList, shape, Nat.one_mul, Nat.add_comm, List.getElem?_cons_succ,
        List.getElem?_append_left (by omega), List.getElem?_eq_getElem (by omega)]
      rfl
    · rw [List.getElem?_eq_none (by rw [List.length_map, List.length_range']; omega),
        List.getElem?_eq_none (by rw [List.length_map]; omega)]
  rw [values after sorted length layout', values ids entries rfl layout] at perm
  exact (List.map_perm_map_iff (Option.some_injective UInt64)).mp perm

/-- As long as the sum of two indices is an `int`, the sort of a list reads and writes only its
entries and its stack, ends, and leaves the same entries in descending order. -/
theorem Midl.sort_spec (ids : Array UInt64) (entries unused : List UInt64)
    (lists : Midl.Lists ids entries unused) (small : entries.length < 2 ^ 30) :
    ∃ after sorted, Midl.sort ids = some after ∧ Midl.Lists after sorted unused ∧
      sorted.Perm entries ∧ sorted.Pairwise Descends := by
  obtain ⟨first, read, counts⟩ := lists.first
  have inside : entries.length < ids.size := by
    rw [Counted.size lists]
    omega
  have start : Sorting entries.length ids ids [(1, entries.length)] :=
    { moved := Rearranges.refl _ _ ids
      ordered := fun left right _ _ low _ high _ _ =>
        Or.inr ⟨(1, entries.length), List.mem_singleton.mpr rfl, low, high⟩
      bounds := by
        intro segment member
        rw [List.mem_singleton.mp member]
        exact ⟨Nat.le_refl 1, Nat.le_refl _⟩
      apart := List.pairwise_singleton _ _
      halves := by simp [Halves, width] }
  obtain ⟨after, sorts, moved, ordered⟩ := sortLoop_spec (2 * entries.length + 1)
    (Array.replicate istackLength 0) start inside (by omega) rfl
    Array.size_replicate (by simp [rounds, width])
  obtain ⟨sorted, lists', perm⟩ := lists.rearrange moved
  refine ⟨after, sorted, ?_, lists', perm, ?_⟩
  · simp only [Midl.sort, read, counts, sorts, Option.bind_eq_bind, Option.bind_some]
  · rw [List.pairwise_iff_getElem]
    intro p q pIn qIn less
    have atCell (k : Nat) (kIn : k < sorted.length) : after[k + 1]? = some sorted[k] := by
      rw [Counted.cell lists' kIn, List.getElem?_eq_getElem kIn]
    rcases ordered (p + 1) (q + 1) sorted[p] sorted[q] (by omega) (by omega)
      (by rw [← perm.length_eq]; omega) (atCell p pIn) (atCell q qIn) with order | ⟨_, member, _⟩
    · exact order
    · cases member

end DbBench
