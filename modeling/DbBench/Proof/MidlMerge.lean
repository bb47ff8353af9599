import DbBench.Proof.MidlSort

/-
This file proves that the merge of two descending lists works in place.
-/

namespace DbBench

open Cells

/-- During the merge the front holds the entries of the first list that wait, then come as many
free cells as entries of the second list wait, then the merged entries. -/
structure Merging (xs ys : List UInt64) (i j : Nat) (merged unused : List UInt64)
    (ids : Array UInt64) : Prop where
  layout : ∃ gap : List UInt64, gap.length = i ∧
    ids.toList = -1 :: (xs.take j ++ (gap ++ (merged ++ unused)))
  firstWaits : j ≤ xs.length
  secondWaits : i ≤ ys.length
  sorted : merged.Pairwise Descends
  fromFirst : ∀ x ∈ merged, ∀ k, k < j → ∀ y, xs[k]? = some y → Descends y x
  fromSecond : ∀ x ∈ merged, ∀ k, k < i → ∀ y, ys[k]? = some y → Descends y x
  perm : merged.Perm (xs.drop j ++ ys.drop i)

/-- The word in front of the entry at `j` counts as the largest identity. -/
def oldEntry (xs : List UInt64) (j : Nat) : Option UInt64 := ((-1 : UInt64) :: xs)[j]?

section
variable {xs ys merged unused : List UInt64} {i j : Nat} {ids : Array UInt64}

theorem Merging.read (merging : Merging xs ys i j merged unused ids) :
    ids[j]? = oldEntry xs j := by
  obtain ⟨gap, _, layout⟩ := merging.layout
  have waits := merging.firstWaits
  rw [← Array.getElem?_toList, layout, oldEntry]
  cases j with
  | zero => rfl
  | succ j =>
      rw [List.getElem?_cons_succ, List.getElem?_cons_succ, List.getElem?_append_left,
        List.getElem?_take_of_lt (Nat.lt_succ_self j)]
      rw [List.length_take]
      omega

/-- The last free cell takes the smallest of the waiting entries. -/
theorem Merging.write (merging : Merging xs ys (i + 1) j merged unused ids) (id : UInt64) :
    ∃ after gap, Cells.write ids (i + 1 + j) id = some after ∧ gap.length = i ∧
      after.toList = -1 :: (xs.take j ++ (gap ++ ((id :: merged) ++ unused))) := by
  obtain ⟨gap, length, layout⟩ := merging.layout
  have waits := merging.firstWaits
  obtain ⟨gap, last, rfl⟩ : ∃ front last, gap = front ++ [last] := by
    have some' : gap ≠ [] := by
      intro empty
      rw [empty] at length
      cases length
    exact ⟨gap.dropLast, gap.getLast some', (List.dropLast_append_getLast some').symm⟩
  rw [List.length_append, List.length_singleton] at length
  have shape : ids.toList = (-1 :: (xs.take j ++ gap)) ++ last :: (merged ++ unused) := by
    rw [layout]
    simp
  obtain ⟨after, wrote, layout'⟩ := write_at shape (show i + 1 + j = _ by
    rw [List.length_cons, List.length_append, List.length_take]
    omega) id
  refine ⟨after, gap, wrote, by omega, ?_⟩
  rw [layout']
  simp

/-- A smaller entry of the first list moves behind the free cells. -/
theorem Merging.shift (merging : Merging xs ys (i + 1) (j + 1) merged unused ids)
    (descending : xs.Pairwise Descends) (descending' : ys.Pairwise Descends) {oldId mergeId : UInt64}
    (old : oldEntry xs (j + 1) = some oldId) (next : ys[i]? = some mergeId)
    (less : oldId < mergeId) :
    ∃ after, Cells.write ids (i + 1 + (j + 1)) oldId = some after ∧
      Merging xs ys (i + 1) j (oldId :: merged) unused after := by
  have held : xs[j]? = some oldId := old
  obtain ⟨inside, same⟩ := List.getElem?_eq_some_iff.mp held
  obtain ⟨after, gap, wrote, length, layout⟩ := merging.write oldId
  have taken : xs.take (j + 1) = xs.take j ++ [oldId] := by
    rw [List.take_add_one, held]
    rfl
  refine ⟨after, wrote, ⟨oldId :: gap, by rw [List.length_cons, length], ?_⟩, by omega,
    merging.secondWaits, ?_, ?_, ?_, ?_⟩
  · rw [layout, taken]
    simp
  · refine List.pairwise_cons.mpr ⟨fun x member => ?_, merging.sorted⟩
    exact merging.fromFirst x member j (Nat.lt_succ_self j) oldId held
  · intro x member k below y atK
    rcases List.mem_cons.mp member with rfl | member
    · obtain ⟨kInside, kSame⟩ := List.getElem?_eq_some_iff.mp atK
      have order := List.pairwise_iff_getElem.mp descending k j kInside inside below
      rwa [kSame, same] at order
    · exact merging.fromFirst x member k (by omega) y atK
  · intro x member k below y atK
    rcases List.mem_cons.mp member with rfl | member
    · have bound : mergeId ≤ y := by
        by_cases last : k = i
        · rw [last, next, Option.some_inj] at atK
          rw [atK]
          exact UInt64.le_refl y
        · obtain ⟨kInside, kSame⟩ := List.getElem?_eq_some_iff.mp atK
          obtain ⟨iInside, iSame⟩ := List.getElem?_eq_some_iff.mp next
          have order := List.pairwise_iff_getElem.mp descending' k i kInside iInside (by omega)
          rwa [kSame, iSame] at order
      exact UInt64.le_trans (UInt64.le_of_lt less) bound
    · exact merging.fromSecond x member k below y atK
  · rw [show xs.drop j = oldId :: xs.drop (j + 1) by rw [← same]; exact List.drop_eq_getElem_cons inside]
    exact merging.perm.cons oldId

/-- The inner loop leaves an entry that is not below the next entry of the second list. -/
theorem mergeShift_spec (descending : xs.Pairwise Descends) (descending' : ys.Pairwise Descends)
    {mergeId oldId : UInt64} (next : ys[i]? = some mergeId)
    (merging : Merging xs ys (i + 1) j merged unused ids) (old : oldEntry xs j = some oldId) :
    ∃ j' oldId' merged' after, mergeShift mergeId j (i + 1 + j) oldId ids =
        some (j', i + 1 + j', oldId', after) ∧
      Merging xs ys (i + 1) j' merged' unused after ∧ oldEntry xs j' = some oldId' ∧
      mergeId ≤ oldId' := by
  induction j generalizing oldId merged ids with
  | zero =>
      have top : oldId = -1 := (Option.some_inj.mp old).symm
      have stops : ¬ oldId < mergeId := by
        rw [top, UInt64.lt_iff_toNat_lt]
        have := mergeId.toNat_lt
        change ¬ 2 ^ 64 - 1 < mergeId.toNat
        omega
      refine ⟨0, oldId, merged, ids, ?_, merging, old, UInt64.not_lt.mp stops⟩
      simp only [mergeShift, stops, if_false]
      rfl
  | succ j ih =>
      by_cases less : oldId < mergeId
      · obtain ⟨after, wrote, merging'⟩ :=
          merging.shift descending descending' old next less
        obtain ⟨oldId', old'⟩ : ∃ oldId', oldEntry xs j = some oldId' := by
          refine ⟨_, List.getElem?_eq_getElem ?_⟩
          have := merging.firstWaits
          rw [List.length_cons]
          omega
        obtain ⟨j', last, merged', final, shifted, result⟩ := ih merging' old'
        refine ⟨j', last, merged', final, ?_, result⟩
        have read : after[j]? = some oldId' := by rw [merging'.read, old']
        simp only [mergeShift, less, if_true, wrote, read, Option.bind_eq_bind, Option.bind_some]
        exact shifted
      · refine ⟨j + 1, oldId, merged, ids, ?_, merging, old, UInt64.not_lt.mp less⟩
        simp only [mergeShift, less, if_false]
        rfl

/-- The outer loop ends when no entry of the second list waits. -/
theorem mergeLoop_spec (descending : xs.Pairwise Descends) (descending' : ys.Pairwise Descends)
    {merge : Array UInt64} {spare : List UInt64} (lists : Midl.Lists merge ys spare)
    {oldId : UInt64} (merging : Merging xs ys i j merged unused ids)
    (old : oldEntry xs j = some oldId) :
    ∃ j' merged' after, mergeLoop merge i j (i + j) oldId ids = some after ∧
      Merging xs ys 0 j' merged' unused after := by
  induction i generalizing j oldId merged ids with
  | zero => exact ⟨j, merged, ids, rfl, merging⟩
  | succ i ih =>
      have inside : i < ys.length := merging.secondWaits
      have next := List.getElem?_eq_getElem inside
      obtain ⟨j', oldId', merged', moved, shifted, merging', old', bound⟩ :=
        mergeShift_spec descending descending' next merging old
      obtain ⟨after, gap, wrote, length, layout⟩ := merging'.write ys[i]
      have merging'' : Merging xs ys i j' (ys[i] :: merged') unused after := by
        refine ⟨⟨gap, length, layout⟩, merging'.firstWaits, by omega, ?_, ?_, ?_, ?_⟩
        · refine List.pairwise_cons.mpr ⟨fun x member => ?_, merging'.sorted⟩
          exact merging'.fromSecond x member i (Nat.lt_succ_self i) _ next
        · intro x member k below y atK
          rcases List.mem_cons.mp member with rfl | member
          · -- Entries in front of the one that stopped the inner loop are at least as large.
            cases j' with
            | zero => omega
            | succ j' =>
                obtain ⟨kInside, kSame⟩ := List.getElem?_eq_some_iff.mp atK
                obtain ⟨jInside, jSame⟩ := List.getElem?_eq_some_iff.mp
                  (show xs[j']? = some oldId' from old')
                by_cases last : k = j'
                · subst last
                  rw [← kSame, jSame]
                  exact bound
                · have order := List.pairwise_iff_getElem.mp descending k j' kInside jInside
                    (by omega)
                  rw [kSame, jSame] at order
                  exact UInt64.le_trans bound order
          · exact merging'.fromFirst x member k below y atK
        · intro x member k below y atK
          rcases List.mem_cons.mp member with rfl | member
          · obtain ⟨kInside, kSame⟩ := List.getElem?_eq_some_iff.mp atK
            have order := List.pairwise_iff_getElem.mp descending' k i kInside inside below
            rwa [kSame] at order
          · exact merging'.fromSecond x member k (by omega) y atK
        · rw [List.drop_eq_getElem_cons inside]
          exact (merging'.perm.cons ys[i]).trans List.perm_middle.symm
      obtain ⟨last, all, final, looped, done⟩ := ih merging'' old'
      refine ⟨last, all, final, ?_, done⟩
      have read : merge[i + 1]? = some ys[i] := by rw [Counted.cell lists inside, next]
      simp only [mergeLoop, read, shifted, wrote, Option.bind_eq_bind, Option.bind_some]
      rw [show i + 1 + j' - 1 = i + j' by omega]
      exact looped

end

/-- The merge of two descending lists stays inside of the first one when its unused cells have room
for the second, and leaves the entries of both in descending order. -/
theorem Midl.xmerge_spec (idl merge : Array UInt64) (xs ys unused spare : List UInt64)
    (first : Midl.Lists idl xs unused) (second : Midl.Lists merge ys spare)
    (descending : xs.Pairwise Descends) (descending' : ys.Pairwise Descends)
    (room : ys.length ≤ unused.length) (small : xs.length + ys.length < 2 ^ 64) :
    ∃ after merged, Midl.xmerge idl merge = some after ∧
      Midl.Lists after merged (unused.drop ys.length) ∧ merged.Perm (xs ++ ys) ∧
      merged.Pairwise Descends := by
  obtain ⟨count, layout, counts⟩ := first
  obtain ⟨count', read', counts'⟩ := Counted.first second
  have read : idl[0]? = some count := @read_at _ idl [] _ _ _ layout rfl
  have total : (count' + count).toNat = ys.length + xs.length := by
    rw [UInt64.toNat_add, counts, counts', Nat.mod_eq_of_lt (by omega)]
  obtain ⟨marked, wrote, layout'⟩ := @write_at _ idl [] _ _ 0 layout rfl (-1 : UInt64)
  have start : Merging xs ys ys.length xs.length [] (unused.drop ys.length) marked :=
    { layout := by
        refine ⟨unused.take ys.length, by rw [List.length_take]; omega, ?_⟩
        rw [layout', List.take_length]
        simp
      firstWaits := Nat.le_refl _
      secondWaits := Nat.le_refl _
      sorted := List.Pairwise.nil
      fromFirst := by simp
      fromSecond := by simp
      perm := by simp }
  obtain ⟨oldId, old⟩ : ∃ oldId, oldEntry xs xs.length = some oldId :=
    ⟨_, List.getElem?_eq_getElem (by rw [List.length_cons]; omega)⟩
  obtain ⟨j, merged, final, looped, done⟩ :=
    mergeLoop_spec descending descending' second start old
  obtain ⟨gap, none, shape⟩ := done.layout
  rw [List.length_eq_zero_iff] at none
  rw [none, List.nil_append, ← List.append_assoc] at shape
  obtain ⟨after, wrote', layout''⟩ :=
    @write_at _ final [] _ _ 0 shape rfl (count' + count)
  have perm : (xs.take j ++ merged).Perm (xs ++ ys) := by
    have joined := done.perm.append_left (xs.take j)
    rwa [List.drop_zero, ← List.append_assoc, List.take_append_drop] at joined
  refine ⟨after, xs.take j ++ merged, ?_, ⟨count' + count, layout'', ?_⟩, perm, ?_⟩
  · simp only [Midl.xmerge, read, read', wrote, counts, counts', total, Option.bind_eq_bind,
      Option.bind_some, start.read, old, looped, wrote']
  · rw [total, perm.length_eq, List.length_append, Nat.add_comm]
  · rw [List.pairwise_append]
    refine ⟨descending.sublist (List.take_sublist j xs), done.sorted, ?_⟩
    intro y member x member'
    obtain ⟨k, inside, same⟩ := List.getElem_of_mem member
    rw [List.length_take] at inside
    rw [List.getElem_take] at same
    refine done.fromFirst x member' k (by omega) y ?_
    rw [List.getElem?_eq_getElem (by omega), same]

end DbBench
