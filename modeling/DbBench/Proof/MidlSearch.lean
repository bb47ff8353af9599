import DbBench.Proof.MidlSort
import DbBench.Spec.DirtyList

/-
This file proves that the searches find the place of an identity, and that the dirty list acts as
a map in every run.
-/

namespace DbBench

open Cells KeyValue Transition

/-- The probe is positive exactly in front of the place `front + 1`, and only there it may be
zero. -/
structure SearchWindow (probe : Nat → Option Int) (front n : Nat) : Prop where
  within : front ≤ n
  ahead : ∀ p, 1 ≤ p → p ≤ front → ∃ val, probe p = some val ∧ 0 < val
  behind : ∀ p, front < p → p ≤ n → ∃ val, probe p = some val ∧ val ≤ 0 ∧ (val = 0 → p = front + 1)

/-- The interval of the loop always contains the place. -/
theorem searchLoop_spec {probe : Nat → Option Int} {front total fuel : Nat}
    {base cursor n : UInt32} {val : Int} (points : SearchWindow probe front total)
    (small : total < 2 ^ 32 - 1) (enough : n.toNat < fuel) (low : base.toNat ≤ front)
    (high : front ≤ base.toNat + n.toNat) (inside : base.toNat + n.toNat ≤ total)
    (ends : n.toNat = 0 → (0 < val → cursor = base) ∧ (val ≤ 0 → cursor = base + 1)) :
    (searchLoop probe fuel base cursor val n).map UInt32.toNat = some (front + 1) := by
  induction fuel generalizing base cursor n val with
  | zero => omega
  | succ fuel ih =>
      have next (less : base.toNat < total) : (base + 1).toNat = base.toNat + 1 := by
        rw [UInt32.toNat_add, Nat.mod_eq_of_lt]
        · rfl
        · show base.toNat + 1 < 2 ^ 32
          omega
      by_cases more : 0 < n
      · have positive : 0 < n.toNat := UInt32.lt_iff_toNat_lt.mp more
        have half : (n >>> 1).toNat = n.toNat / 2 := by
          rw [UInt32.toNat_shiftRight]
          exact Nat.shiftRight_eq_div_pow _ 1
        have pivot : (base + n >>> 1 + 1).toNat = base.toNat + n.toNat / 2 + 1 := by
          rw [UInt32.toNat_add, UInt32.toNat_add, half]
          show ((base.toNat + n.toNat / 2) % 2 ^ 32 + 1) % 2 ^ 32 = _
          omega
        have rest : (n - (n >>> 1 + 1)).toNat = n.toNat - (n.toNat / 2 + 1) := by
          have one : (n >>> 1 + 1).toNat = n.toNat / 2 + 1 := by
            rw [UInt32.toNat_add, half]
            show (n.toNat / 2 + 1) % 2 ^ 32 = _
            omega
          rw [UInt32.toNat_sub_of_le _ _ (UInt32.le_iff_toNat_le.mpr (by omega)), one]
        simp only [searchLoop, more, if_true, pivot]
        by_cases ahead : base.toNat + n.toNat / 2 + 1 ≤ front
        · obtain ⟨val', probed, positive⟩ :=
            points.ahead (base.toNat + n.toNat / 2 + 1) (by omega) ahead
          simp only [probed, Option.bind_eq_bind, Option.bind_some, if_neg (not_lt.mpr positive.le),
            positive, if_true]
          exact ih (by omega) (by omega) (by omega) (by omega)
            fun _ => ⟨fun _ => rfl, fun _ => by omega⟩
        · obtain ⟨val', probed, low', equal⟩ :=
            points.behind (base.toNat + n.toNat / 2 + 1) (by omega) (by omega)
          simp only [probed, Option.bind_eq_bind, Option.bind_some]
          by_cases negative : val' < 0
          · simp only [negative, if_true]
            refine ih (by omega) low (by omega) (by omega)
              fun zero => ⟨fun _ => by omega, fun _ => ?_⟩
            rw [← UInt32.toNat_inj, pivot, next (by omega)]
            omega
          · have zero : val' = 0 := by omega
            simp only [zero, lt_irrefl, if_false]
            rw [← equal zero, ← pivot]
            rfl
      · have empty : n.toNat = 0 := by
          by_contra other
          exact more (UInt32.lt_iff_toNat_lt.mpr (Nat.pos_of_ne_zero other))
        obtain ⟨positive, other⟩ := ends empty
        have here : base.toNat = front := by omega
        have step : (base + 1).toNat = front + 1 := by
          rw [UInt32.toNat_add, here]
          show (front + 1) % 2 ^ 32 = _
          omega
        simp only [searchLoop, more, if_false]
        by_cases sign : 0 < val
        · simp only [gt_iff_lt, sign, if_true, positive sign]
          exact congrArg some step
        · simp only [gt_iff_lt, sign, if_false, other (by omega)]
          exact congrArg some step

theorem searchEntries_spec {probe : Nat → Option Int} {front : Nat} {n : UInt32}
    (points : SearchWindow probe front n.toNat) (small : n.toNat < 2 ^ 32 - 1) :
    searchEntries probe n = some (front + 1) := by
  refine searchLoop_spec points small (Nat.lt_succ_self _) (Nat.zero_le front) ?_ ?_ ?_
  · exact points.within.trans (Nat.le_add_left _ _)
  · exact (Nat.zero_add _).le
  · exact fun _ => ⟨fun impossible => by omega, fun _ => rfl⟩

/-- Entries for which a test holds stand in front of the others, so their number is the place
where the test ends. -/
theorem front_iff_countP {Entry : Type} (test : Entry → Bool) {entries : List Entry}
    (sorted : entries.Pairwise fun x y => test y = true → test x = true) {k : Nat} {entry : Entry}
    (held : entries[k]? = some entry) : test entry = true ↔ k < entries.countP test := by
  induction entries generalizing k with
  | nil => simp at held
  | cons first rest ih =>
      obtain ⟨leads, sorted⟩ := List.pairwise_cons.mp sorted
      rw [List.countP_cons]
      cases k with
      | zero =>
          rw [List.getElem?_cons_zero] at held
          cases held
          by_cases passes : test entry = true
          · simp [passes]
          · have none : rest.countP test = 0 := by
              rw [List.countP_eq_zero]
              intro later member later'
              exact passes (leads later member later')
            simp [passes, none]
      | succ k =>
          rw [List.getElem?_cons_succ] at held
          rw [ih sorted held]
          by_cases passes : test first = true
          · simp [passes]
          · have none : rest.countP test = 0 := by
              rw [List.countP_eq_zero]
              intro later member later'
              exact passes (leads later member later')
            simp [passes, none]

theorem cmp_pos {x y : UInt64} : 0 < cmp x y ↔ y < x := by
  unfold cmp
  split
  · rename_i less
    simp [UInt64.lt_asymm less]
  · split <;> simp_all

/-- A search over entries that a strict order sorts finds the number of the entries in front of
the wanted identity. -/
theorem searchSorted_spec {Entry : Type} (probe : Nat → Option Int) {entries : List Entry}
    {n : UInt32} (length : n.toNat = entries.length) (small : entries.length < 2 ^ 32 - 1)
    (compare : Entry → Int) (probes : ∀ k entry, entries[k]? = some entry →
      probe (k + 1) = some (compare entry))
    (sorted : entries.Pairwise fun x y => compare y < compare x ∨
      (0 < compare x ∧ 0 < compare y) ∨ (compare x < 0 ∧ compare y < 0)) :
    searchEntries probe n =
      some (entries.countP (fun entry => decide (0 < compare entry)) + 1) := by
  have fronts : entries.Pairwise fun x y =>
      decide (0 < compare y) = true → decide (0 < compare x) = true := by
    refine sorted.imp fun {x y} order => ?_
    simp only [decide_eq_true_eq]
    omega
  rw [← length] at small
  refine searchEntries_spec ⟨length ▸ List.countP_le_length, ?_, ?_⟩ small
  · intro p start upto
    obtain ⟨k, rfl⟩ : ∃ k, p = k + 1 := ⟨p - 1, by omega⟩
    have inside : k < entries.length := by
      have := entries.countP_le_length (p := fun entry => decide (0 < compare entry))
      omega
    have held := List.getElem?_eq_getElem inside
    refine ⟨_, probes k _ held, ?_⟩
    exact of_decide_eq_true ((front_iff_countP _ fronts held).mpr (by omega))
  · intro p start upto
    obtain ⟨k, rfl⟩ : ∃ k, p = k + 1 := ⟨p - 1, by omega⟩
    have held := List.getElem?_eq_getElem (show k < entries.length by omega)
    have notAhead : ¬ 0 < compare entries[k] := by
      intro positive
      have := (front_iff_countP _ fronts held).mp (decide_eq_true positive)
      omega
    refine ⟨_, probes k _ held, by omega, fun zero => ?_⟩
    -- An earlier entry that is not in front either would have to differ from this one.
    by_contra other
    have earlier := List.getElem?_eq_getElem (show k - 1 < entries.length by omega)
    have notAhead' : ¬ 0 < compare entries[k - 1] := by
      intro positive
      have := (front_iff_countP _ fronts earlier).mp (decide_eq_true positive)
      omega
    have order := (List.pairwise_iff_getElem.mp sorted) (k - 1) k (by omega) (by omega) (by omega)
    omega

/-- Distinct identities compare with the wanted one in their own order. -/
theorem cmp_order {x y id : UInt64} (less : y < x) : cmp y id < cmp x id ∨
    (0 < cmp x id ∧ 0 < cmp y id) ∨ (cmp x id < 0 ∧ cmp y id < 0) := by
  unfold cmp
  grind

theorem cmp_order' {x y id : UInt64} (less : x < y) : cmp id y < cmp id x ∨
    (0 < cmp id x ∧ 0 < cmp id y) ∨ (cmp id x < 0 ∧ cmp id y < 0) := by
  unfold cmp
  grind

/-- In a strictly descending list the search finds the place behind all larger identities, and a
member stands there. -/
theorem midl_search_places (ids : Array UInt64) (entries unused : List UInt64) (id : UInt64)
    (lists : Midl.Lists ids entries unused) (small : entries.length < 2 ^ 32 - 1)
    (descending : entries.Pairwise fun x y => y < x) :
    ∃ place, Midl.search ids id = some (place + 1) ∧
      (∀ k entry, entries[k]? = some entry → (id < entry ↔ k < place)) ∧
      (id ∈ entries ↔ entries[place]? = some id) := by
  obtain ⟨first, read, counts⟩ := lists.first
  have count : first.toUInt32.toNat = entries.length := by
    rw [UInt64.toNat_toUInt32, counts, Nat.mod_eq_of_lt (by omega)]
  have probes (k : Nat) (entry : UInt64) (held : entries[k]? = some entry) :
      (ids[k + 1]?.map fun cell => cmp cell id) = some (cmp entry id) := by
    have inside : k < entries.length := (List.getElem?_eq_some_iff.mp held).1
    rw [Counted.cell lists inside, held, Option.map_some]
  have place := searchSorted_spec (fun cursor => ids[cursor]?.map fun cell => cmp cell id) count
    small (fun entry => cmp entry id) probes (descending.imp cmp_order)
  have fronts (k : Nat) (entry : UInt64) (held : entries[k]? = some entry) :
      id < entry ↔ k < entries.countP fun entry => decide (0 < cmp entry id) := by
    rw [← cmp_pos, ← decide_eq_true_iff (p := 0 < cmp entry id)]
    refine front_iff_countP (fun entry => decide (0 < cmp entry id)) (descending.imp fun {x y} order => ?_) held
    simp only [decide_eq_true_eq, cmp_pos]
    intro above
    exact UInt64.lt_trans above order
  refine ⟨_, ?_, fronts, ?_⟩
  · simp only [Midl.search, read, Option.bind_eq_bind, Option.bind_some]
    exact place
  · constructor
    · intro member
      obtain ⟨k, inside, same⟩ := List.getElem_of_mem member
      have held := List.getElem?_eq_getElem inside
      rw [same] at held
      have upto := mt (fronts k id held).mpr (UInt64.lt_irrefl id)
      -- An entry between the place and the member would be below and above it.
      by_contra other
      have before : entries.countP (fun entry => decide (0 < cmp entry id)) < k := by
        rcases Nat.lt_or_eq_of_le (Nat.le_of_not_lt upto) with less | equal
        · exact less
        · exact absurd (equal ▸ held) other
      have atPlace := List.getElem?_eq_getElem (Nat.lt_trans before inside)
      have order := (List.pairwise_iff_getElem.mp descending) _ k (Nat.lt_trans before inside)
        inside before
      rw [same] at order
      exact absurd ((fronts _ _ atPlace).mp order) (Nat.lt_irrefl _)
    · exact List.mem_of_getElem?

/-- The search for an identity between the second and the third entry. -/
theorem midl_search_places_three :
    ∃ place, Midl.search #[3, 9, 5, 1, 8] 4 = some (place + 1) ∧
      (∀ k entry, ([9, 5, 1] : List UInt64)[k]? = some entry → (4 < entry ↔ k < place)) ∧
      ((4 : UInt64) ∈ ([9, 5, 1] : List UInt64) ↔ ([9, 5, 1] : List UInt64)[place]? = some 4) :=
  midl_search_places _ [9, 5, 1] [8] 4 ⟨3, rfl, rfl⟩ (by decide) (by decide)

section Dirty
variable {Ptr : Type}

/-- A dirty list in memory has a fixed size and ascends strictly. -/
structure DirtyList (ids : Array (MdbID2 Ptr)) (entries unused : List (MdbID2 Ptr)) : Prop where
  counted : Counted (fun cell => cell.mid.toNat) ids entries unused
  size : ids.size = midlUmMax + 1
  ascends : entries.Pairwise fun x y => x.mid < y.mid

variable {ids : Array (MdbID2 Ptr)} {entries unused : List (MdbID2 Ptr)}

theorem DirtyList.length_le (list : DirtyList ids entries unused) :
    entries.length + unused.length = midlUmMax := by
  have size := list.counted.size
  rw [list.size] at size
  omega

/-- The number of entries with smaller page numbers. -/
def placeOf (entries : List (MdbID2 Ptr)) (pgno : UInt64) : Nat :=
  entries.countP fun entry => decide (entry.mid < pgno)

theorem DirtyList.lt_iff (list : DirtyList ids entries unused) (pgno : UInt64) {k : Nat}
    {entry : MdbID2 Ptr} (held : entries[k]? = some entry) :
    entry.mid < pgno ↔ k < placeOf entries pgno := by
  rw [← decide_eq_true_iff (p := entry.mid < pgno)]
  refine front_iff_countP (fun entry => decide (entry.mid < pgno)) (list.ascends.imp fun {x y} order => ?_) held
  simp only [decide_eq_true_eq]
  exact UInt64.lt_trans order

theorem DirtyList.search_eq (list : DirtyList ids entries unused) (pgno : UInt64) :
    Mid2l.search ids pgno = some (placeOf entries pgno + 1) := by
  obtain ⟨first, read, counts⟩ := list.counted.first
  have fits := list.length_le
  have count : first.mid.toUInt32.toNat = entries.length := by
    rw [UInt64.toNat_toUInt32, counts, Nat.mod_eq_of_lt]
    unfold midlUmMax at fits
    omega
  have small : entries.length < 2 ^ 32 - 1 := by
    unfold midlUmMax at fits
    omega
  have place := searchSorted_spec
    (fun cursor => ids[cursor]?.map fun cell => cmp pgno cell.mid) count small
    (fun entry : MdbID2 Ptr => cmp pgno entry.mid)
    (by
      intro k entry held
      rw [list.counted.cell (List.getElem?_eq_some_iff.mp held).1, held, Option.map_some])
    (list.ascends.imp cmp_order')
  simp only [Mid2l.search, read, Option.bind_eq_bind, Option.bind_some]
  rw [place]
  simp only [cmp_pos, placeOf]

/-- A page number is on the list exactly when it stands at its place. -/
theorem DirtyList.mem_iff (list : DirtyList ids entries unused) (id : MdbID2 Ptr) :
    id ∈ entries ↔ entries[placeOf entries id.mid]? = some id := by
  constructor
  · intro member
    obtain ⟨k, inside, same⟩ := List.getElem_of_mem member
    have held := List.getElem?_eq_getElem inside
    rw [same] at held
    have upto := mt (list.lt_iff id.mid held).mpr (UInt64.lt_irrefl id.mid)
    by_contra other
    have before : placeOf entries id.mid < k := by
      rcases Nat.lt_or_eq_of_le (Nat.le_of_not_lt upto) with less | equal
      · exact less
      · exact absurd (equal ▸ held) other
    have atPlace := List.getElem?_eq_getElem (Nat.lt_trans before inside)
    have order := (List.pairwise_iff_getElem.mp list.ascends) _ k (Nat.lt_trans before inside)
      inside before
    rw [same] at order
    exact absurd ((list.lt_iff id.mid atPlace).mp order) (Nat.lt_irrefl _)
  · exact List.mem_of_getElem?

/-- The map that a dirty list stands for. -/
def dirtyPages (entries : List (MdbID2 Ptr)) : Store UInt64 Ptr := fun pgno =>
  match entries[placeOf entries pgno]? with
  | some entry => if entry.mid = pgno then some entry.mptr else none
  | none => none

theorem DirtyList.find_eq (list : DirtyList ids entries unused) (pgno : UInt64) :
    Mid2l.find ids pgno = some (dirtyPages entries pgno) := by
  obtain ⟨first, read, counts⟩ := list.counted.first
  simp only [Mid2l.find, read, counts, list.search_eq, Option.bind_eq_bind, Option.bind_some]
  by_cases empty : entries.length = 0
  · have none : entries[placeOf entries pgno]? = none := List.getElem?_eq_none (by omega)
    simp only [empty, if_true, dirtyPages, none]
    rfl
  · simp only [empty, if_false]
    by_cases inside : placeOf entries pgno < entries.length
    · have held := List.getElem?_eq_getElem inside
      simp only [Nat.succ_le_of_lt inside, if_true, list.counted.cell inside, held, dirtyPages,
        Option.bind_some]
      rfl
    · have none : entries[placeOf entries pgno]? = none := List.getElem?_eq_none (by omega)
      simp only [show ¬ placeOf entries pgno + 1 ≤ entries.length by omega, if_false, dirtyPages,
        none]
      rfl

/-- The map answers with an entry exactly when the entry is on the list. -/
theorem DirtyList.pages_iff (list : DirtyList ids entries unused) (id : MdbID2 Ptr) :
    dirtyPages entries id.mid = some id.mptr ↔ id ∈ entries := by
  rw [list.mem_iff, dirtyPages]
  constructor
  · intro found
    split at found
    · rename_i entry held
      split at found
      · rename_i same
        rw [held]
        cases entry
        cases id
        simp_all
      · cases found
    · cases found
  · intro held
    simp only [held, if_true]

/-- The loop of the insertion moves the entries behind the place one cell up. -/
theorem insertMove_spec {front back rest : List (MdbID2 Ptr)} {spare : MdbID2 Ptr}
    {cells : Array (MdbID2 Ptr)} (layout : cells.toList = front ++ (back ++ spare :: rest)) :
    ∃ after stale, insertMove front.length (front.length + back.length) cells = some after ∧
      after.toList = front ++ stale :: (back ++ rest) := by
  induction back using List.reverseRecOn generalizing spare rest cells with
  | nil =>
      refine ⟨cells, spare, ?_, layout⟩
      rw [List.length_nil, Nat.add_zero]
      cases same : front.length with
      | zero => rfl
      | succ i => simp [insertMove, pure]
  | append_singleton back last ih =>
      have inside : front.length + (back ++ [last]).length = front.length + back.length + 1 := by
        rw [List.length_append, List.length_singleton, Nat.add_assoc]
      have shape : cells.toList = (front ++ back) ++ last :: (spare :: rest) := by
        rw [layout]
        simp
      have shape' : cells.toList = (front ++ (back ++ [last])) ++ spare :: rest := by
        rw [layout]
        simp
      have read := read_at shape (show front.length + back.length = _ from List.length_append.symm)
      obtain ⟨moved, wrote, layout'⟩ := write_at shape'
        (show front.length + back.length + 1 = _ by rw [List.length_append, inside]) last
      obtain ⟨after, stale, shifted, layout''⟩ := @ih (last :: rest) last moved
        (by rw [layout']; simp)
      refine ⟨after, stale, ?_, ?_⟩
      · rw [inside]
        have more : front.length + back.length + 1 > front.length := by omega
        simp only [insertMove, more, if_true, read, wrote, shifted, Option.bind_eq_bind,
          Option.bind_some]
      · rw [layout'']
        simp

/-- Insertion at its place keeps the order. -/
theorem ascends_insert (list : DirtyList ids entries unused) {id : MdbID2 Ptr}
    (absent : ∀ entry ∈ entries, entry.mid ≠ id.mid) :
    (entries.take (placeOf entries id.mid) ++ id :: entries.drop (placeOf entries id.mid)).Pairwise
      fun x y => x.mid < y.mid := by
  have front (entry : MdbID2 Ptr) (member : entry ∈ entries.take (placeOf entries id.mid)) :
      entry.mid < id.mid := by
    obtain ⟨k, inside, same⟩ := List.getElem_of_mem member
    rw [List.length_take] at inside
    rw [List.getElem_take] at same
    have held : entries[k]? = some entry := by
      rw [List.getElem?_eq_getElem (by omega), same]
    exact (list.lt_iff id.mid held).mpr (by omega)
  have back (entry : MdbID2 Ptr) (member : entry ∈ entries.drop (placeOf entries id.mid)) :
      id.mid < entry.mid := by
    obtain ⟨k, inside, same⟩ := List.getElem_of_mem member
    rw [List.length_drop] at inside
    rw [List.getElem_drop] at same
    have held : entries[placeOf entries id.mid + k]? = some entry := by
      rw [List.getElem?_eq_getElem (by omega), same]
    have notFront := mt (list.lt_iff id.mid held).mp (by omega)
    have different := absent entry (List.mem_of_getElem? held)
    exact UInt64.lt_of_le_of_ne (UInt64.not_lt.mp notFront) different.symm
  have split := list.ascends
  rw [← List.take_append_drop (placeOf entries id.mid) entries, List.pairwise_append] at split
  rw [List.pairwise_append, List.pairwise_cons]
  refine ⟨split.1, ⟨back, split.2.1⟩, ?_⟩
  intro x member y member'
  rcases List.mem_cons.mp member' with rfl | member'
  · exact front x member
  · exact split.2.2 x member y member'

/-- An insertion refuses a page number that is there, then a page without room, and otherwise puts
the entry at its place. -/
theorem DirtyList.insert_spec (list : DirtyList ids entries unused) (id : MdbID2 Ptr) :
    (∃ entry ∈ entries, entry.mid = id.mid) ∧ Mid2l.insert ids id = some (-1, ids) ∨
    (∀ entry ∈ entries, entry.mid ≠ id.mid) ∧ unused = [] ∧
      Mid2l.insert ids id = some (-2, ids) ∨
    (∀ entry ∈ entries, entry.mid ≠ id.mid) ∧ ∃ after spare rest, unused = spare :: rest ∧
      Mid2l.insert ids id = some (0, after) ∧
      DirtyList after (entries.take (placeOf entries id.mid) ++
        id :: entries.drop (placeOf entries id.mid)) rest := by
  obtain ⟨first, layout, counts⟩ := list.counted
  have counts : first.mid.toNat = entries.length := counts
  have read : ids[0]? = some first := @read_at _ ids [] _ _ _ layout rfl
  have fits := list.length_le
  have within : placeOf entries id.mid ≤ entries.length := List.countP_le_length
  -- What the code finds at the place decides whether the page number is on the list.
  have there : Mid2l.stands ids first.mid (placeOf entries id.mid + 1) id.mid =
      some (decide (∃ entry ∈ entries, entry.mid = id.mid)) := by
    rw [Mid2l.stands, counts]
    by_cases inside : placeOf entries id.mid < entries.length
    · have upTo : placeOf entries id.mid + 1 ≤ entries.length := inside
      have held := List.getElem?_eq_getElem inside
      simp only [upTo, if_true, list.counted.cell inside, held, Option.map_some, Option.some_inj,
        decide_eq_decide]
      constructor
      · intro same
        exact ⟨_, List.getElem_mem inside, same⟩
      · rintro ⟨entry, member, same⟩
        have stands := (list.mem_iff entry).mp member
        rw [same] at stands
        rw [held, Option.some_inj] at stands
        rw [stands, same]
    · rw [if_neg (by omega)]
      refine congrArg some (decide_eq_false ?_).symm
      rintro ⟨entry, member, same⟩
      have stands := (list.mem_iff entry).mp member
      rw [same, List.getElem?_eq_none (by omega)] at stands
      cases stands
  by_cases present : ∃ entry ∈ entries, entry.mid = id.mid
  · refine Or.inl ⟨present, ?_⟩
    simp only [Mid2l.insert, list.search_eq, read, there, present, decide_true,
      Option.bind_eq_bind, Option.bind_some, if_true, if_neg (Nat.not_lt.mpr (Nat.le_add_left 1 _))]
    rfl
  · have absent : ∀ entry ∈ entries, entry.mid ≠ id.mid := by
      intro entry member same
      exact present ⟨entry, member, same⟩
    right
    cases unused with
    | nil =>
        refine Or.inl ⟨absent, rfl, ?_⟩
        rw [List.length_nil, Nat.add_zero] at fits
        simp only [Mid2l.insert, list.search_eq, read, there, present, decide_false, counts, fits,
          Option.bind_eq_bind, Option.bind_some, if_true, if_false, ge_iff_le, le_refl,
          if_neg (Nat.not_lt.mpr (Nat.le_add_left 1 _)), Bool.false_eq_true]
        rfl
    | cons spare rest =>
        refine Or.inr ⟨absent, ?_⟩
        rw [List.length_cons] at fits
        have room : ¬ midlUmMax ≤ entries.length := by omega
        have next : (first.mid + 1).toNat = entries.length + 1 := by
          rw [UInt64.toNat_add, counts, Nat.mod_eq_of_lt]
          · rfl
          · unfold midlUmMax at fits
            change entries.length + 1 < 2 ^ 64
            omega
        have count : (first.mid + 1).toUInt32.toNat = entries.length + 1 := by
          rw [UInt64.toNat_toUInt32, next, Nat.mod_eq_of_lt]
          unfold midlUmMax at fits
          omega
        obtain ⟨counted, wrote, layout'⟩ := @write_at _ ids [] _ _ 0 layout rfl
          {first with mid := first.mid + 1}
        let front := {first with mid := first.mid + 1} :: entries.take (placeOf entries id.mid)
        have frontLength : front.length = placeOf entries id.mid + 1 := by
          simp only [front, List.length_cons, List.length_take]
          omega
        obtain ⟨moved, stale, shifted, layout''⟩ :=
          @insertMove_spec Ptr front (entries.drop (placeOf entries id.mid)) rest spare counted (by
            rw [layout', List.nil_append]
            simp only [front, List.cons_append]
            rw [← List.append_assoc (entries.take _), List.take_append_drop])
        rw [frontLength, List.length_drop, show placeOf entries id.mid + 1 +
          (entries.length - placeOf entries id.mid) = entries.length + 1 by omega] at shifted
        obtain ⟨after, wrote', final⟩ := write_at layout'' frontLength.symm id
        refine ⟨after, spare, rest, rfl, ?_, ⟨⟨{first with mid := first.mid + 1}, ?_, ?_⟩, ?_,
          ascends_insert list absent⟩⟩
        · simp only [Mid2l.insert, list.search_eq, read, there, present, decide_false, counts,
            wrote, count, shifted, wrote', room, Option.bind_eq_bind, Option.bind_some, if_false,
            ge_iff_le, if_neg (Nat.not_lt.mpr (Nat.le_add_left 1 _)), Bool.false_eq_true]
          rfl
        · rw [final]
          simp [front]
        · simp only [next, List.length_append, List.length_cons, List.length_take,
            List.length_drop]
          omega
        · have size := congrArg List.length final
          simp only [Array.length_toList, List.length_append, List.length_cons, frontLength,
            List.length_drop] at size
          omega

/-- The map of a list after an insertion is the map with the new page. -/
theorem dirtyPages_insert {after : Array (MdbID2 Ptr)} {rest : List (MdbID2 Ptr)}
    (list : DirtyList ids entries unused) {id : MdbID2 Ptr} {more : List (MdbID2 Ptr)}
    (list' : DirtyList after more rest)
    (members : ∀ entry, entry ∈ more ↔ entry = id ∨ entry ∈ entries)
    (absent : ∀ entry ∈ entries, entry.mid ≠ id.mid) :
    dirtyPages more = (dirtyPages entries).write (.put id.mid id.mptr) := by
  funext pgno
  apply Option.ext
  intro ptr
  rw [list'.pages_iff ⟨pgno, ptr⟩, members]
  by_cases same : pgno = id.mid
  · subst same
    rw [show (dirtyPages entries).write (.put id.mid id.mptr) id.mid = some id.mptr from
      Store.write_self _ (.put id.mid id.mptr), Option.some_inj]
    constructor
    · rintro (equal | member)
      · exact (congrArg MdbID2.mptr equal).symm
      · exact absurd rfl (absent ⟨id.mid, ptr⟩ member)
    · rintro rfl
      exact Or.inl rfl
  · rw [Store.write_of_ne _ (.put id.mid id.mptr) (Ne.symm same), list.pages_iff ⟨pgno, ptr⟩]
    constructor
    · rintro (equal | member)
      · exact absurd (congrArg MdbID2.mid equal) same
      · exact member
    · exact Or.inr

/-- The list in memory stands for a map with room for the unused cells. -/
def StandsFor (ids : Array (MdbID2 Ptr)) (dirty : DirtyPages Ptr) : Prop :=
  ∃ entries unused, DirtyList ids entries unused ∧
    dirty = ⟨dirtyPages entries, unused.length⟩

/-- Every call on the list gives the answer of the map. -/
theorem dirty_step (ids : Array (MdbID2 Ptr)) (dirty : DirtyPages Ptr) (call : DirtyCall Ptr)
    (stands : StandsFor ids dirty) :
    ∃ next, Mid2l.perform ids call = .ok ((dirty.perform call).1, next) ∧
      StandsFor next (dirty.perform call).2 := by
  obtain ⟨entries, unused, list, rfl⟩ := stands
  cases call with
  | find pgno =>
      refine ⟨ids, ?_, entries, unused, list, rfl⟩
      simp only [Mid2l.perform, list.find_eq, DirtyPages.perform]
  | insert id =>
      have present : (dirtyPages entries id.mid).isSome ↔ ∃ entry ∈ entries, entry.mid = id.mid := by
        rw [Option.isSome_iff_exists]
        constructor
        · rintro ⟨ptr, found⟩
          exact ⟨⟨id.mid, ptr⟩, (list.pages_iff ⟨id.mid, ptr⟩).mp found, rfl⟩
        · rintro ⟨entry, member, same⟩
          exact ⟨entry.mptr, same ▸ (list.pages_iff entry).mpr member⟩
      rcases list.insert_spec id with ⟨there, refused⟩ | ⟨absent, full, refused⟩ |
        ⟨absent, after, spare, rest, equal, inserted, list'⟩
      · refine ⟨ids, ?_, entries, unused, list, ?_⟩ <;>
          simp only [Mid2l.perform, refused, DirtyPages.perform, present.mpr there, if_true]
      · have none : ¬ (dirtyPages entries id.mid).isSome := by
          rw [present]
          rintro ⟨entry, member, same⟩
          exact absent entry member same
        refine ⟨ids, ?_, entries, unused, list, ?_⟩ <;>
          simp only [Mid2l.perform, refused, DirtyPages.perform, none, full, List.length_nil,
            if_true, if_false, Bool.false_eq_true]
      · have none : ¬ (dirtyPages entries id.mid).isSome := by
          rw [present]
          rintro ⟨entry, member, same⟩
          exact absent entry member same
        subst equal
        have members (entry : MdbID2 Ptr) : entry ∈ entries.take (placeOf entries id.mid) ++
            id :: entries.drop (placeOf entries id.mid) ↔ entry = id ∨ entry ∈ entries := by
          conv_rhs => rw [← List.take_append_drop (placeOf entries id.mid) entries]
          simp only [List.mem_append, List.mem_cons]
          tauto
        refine ⟨after, ?_, _, rest, list', ?_⟩
        · simp only [Mid2l.perform, inserted, DirtyPages.perform, none, List.length_cons,
            if_false, Bool.false_eq_true, if_neg (Nat.succ_ne_zero rest.length)]
        · simp only [DirtyPages.perform, none, if_false, Bool.false_eq_true, List.length_cons,
            if_neg (Nat.succ_ne_zero rest.length), Nat.add_sub_cancel,
            dirtyPages_insert list list' members absent]

/-- From the empty list of a new transaction on, every run of insertions and lookups stays inside
of the array and answers like a map with room for the fixed number of pages. -/
theorem dirty_list_is_map (ids : Array (MdbID2 Ptr)) (size : ids.size = midlUmMax + 1)
    (fresh : ids[0]?.map (·.mid) = some 0) (calls : List (DirtyCall Ptr)) :
    ∃ final, run Mid2l.perform ids calls =
      .ok ((follow DirtyPages.perform DirtyPages.start calls).1, final) := by
  obtain ⟨first, read, zero⟩ := Option.map_eq_some_iff.mp fresh
  obtain ⟨tail, layout⟩ : ∃ tail, ids.toList = first :: tail := by
    rw [← Array.getElem?_toList] at read
    cases same : ids.toList with
    | nil => simp [same] at read
    | cons head tail =>
        rw [same, List.getElem?_cons_zero, Option.some_inj] at read
        exact ⟨tail, by rw [read]⟩
  have length : tail.length = midlUmMax := by
    have total := congrArg List.length layout
    rw [Array.length_toList, size, List.length_cons] at total
    omega
  have list : DirtyList ids [] tail :=
    ⟨⟨first, layout, by simp [zero]⟩, size, List.Pairwise.nil⟩
  obtain ⟨final, ran, _⟩ := run_refines Mid2l.perform DirtyPages.perform StandsFor (fun _ => True)
    (fun ids dirty call _ => dirty_step ids dirty call) calls (fun _ _ => trivial)
    (show StandsFor ids DirtyPages.start from ⟨[], tail, list, by
      rw [length]
      rfl⟩)
  exact ⟨final, ran⟩

end Dirty

/-- A new list takes a page, refuses it the second time and finds it. -/
theorem dirty_list_is_map_again :
    ∃ final, run Mid2l.perform (Array.replicate (midlUmMax + 1) (⟨0, 0⟩ : MdbID2 Nat))
        [.insert ⟨7, 1⟩, .insert ⟨7, 2⟩, .find 7] =
      .ok ([.code 0, .code (-1), .page (some 1)], final) :=
  dirty_list_is_map _ Array.size_replicate (by simp [midlUmMax]) _

end DbBench
