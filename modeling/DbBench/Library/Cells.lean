import Mathlib.Data.Finset.Card
import Mathlib.Data.List.Nodup
import Mathlib.Logic.Equiv.Basic

/-
This library reads and writes the cells of an array with a check of every index, and says how a
program that sorts them moves their values.
-/

namespace Cells

variable {Value : Type}

/-- A write outside of the array has no result. -/
def write (cells : Array Value) (idx : Nat) (value : Value) : Option (Array Value) :=
  if inside : idx < cells.size then some (cells.set idx value) else none

/-- Two cells change places. -/
def swap (cells : Array Value) (first second : Nat) : Option (Array Value) := do
  let left ← cells[first]?
  let right ← cells[second]?
  let cells ← write cells first right
  write cells second left

theorem write_inside {cells : Array Value} {idx : Nat} (inside : idx < cells.size)
    (value : Value) : write cells idx value = some (cells.set idx value) := dif_pos inside

/-- A write changes one cell and keeps the size. -/
theorem write_spec (cells : Array Value) {idx : Nat} (inside : idx < cells.size) (value : Value) :
    ∃ written, write cells idx value = some written ∧ written.size = cells.size ∧
      written[idx]? = some value ∧ ∀ other, other ≠ idx → written[other]? = cells[other]? := by
  refine ⟨_, write_inside inside value, Array.size_set inside, ?_, ?_⟩
  · exact Array.getElem?_set_self inside
  · intro other different
    exact Array.getElem?_set_ne inside different.symm

/-- The cell behind a front of the array. -/
theorem read_at {cells : Array Value} {front back : List Value} {value : Value} {idx : Nat}
    (layout : cells.toList = front ++ value :: back) (place : idx = front.length) :
    cells[idx]? = some value := by
  rw [← Array.getElem?_toList, layout, place]
  simp

/-- A write replaces the cell behind a front of the array. -/
theorem write_at {cells : Array Value} {front back : List Value} {old : Value} {idx : Nat}
    (layout : cells.toList = front ++ old :: back) (place : idx = front.length) (value : Value) :
    ∃ after, write cells idx value = some after ∧ after.toList = front ++ value :: back := by
  have inside : idx < cells.size := by
    rw [← Array.length_toList, layout, List.length_append, List.length_cons]
    omega
  refine ⟨_, write_inside inside value, ?_⟩
  rw [Array.toList_set, layout, place]
  simp

/-- The first cell counts the entries behind it, and the remaining cells are unused. -/
def Counted (count : Value → Nat) (cells : Array Value) (entries unused : List Value) : Prop :=
  ∃ first, cells.toList = first :: (entries ++ unused) ∧ count first = entries.length

namespace Counted

variable {count : Value → Nat} {cells : Array Value} {entries unused : List Value}

theorem first (counted : Counted count cells entries unused) :
    ∃ first, cells[0]? = some first ∧ count first = entries.length := by
  obtain ⟨first, layout, counts⟩ := counted
  exact ⟨first, @read_at _ cells [] _ _ _ layout rfl, counts⟩

theorem size (counted : Counted count cells entries unused) :
    cells.size = entries.length + unused.length + 1 := by
  obtain ⟨first, layout, _⟩ := counted
  rw [← Array.length_toList, layout, List.length_cons, List.length_append]

/-- The entries follow the first cell. -/
theorem cell (counted : Counted count cells entries unused) {k : Nat} (inside : k < entries.length) :
    cells[k + 1]? = entries[k]? := by
  obtain ⟨first, layout, _⟩ := counted
  rw [← Array.getElem?_toList, layout, List.getElem?_cons_succ, List.getElem?_append_left inside]

end Counted

/-- The values of the cells from `lo` to `hi` change places, and all other cells stay. -/
def Rearranges (lo hi : Nat) (before after : Array Value) : Prop :=
  ∃ move : Equiv.Perm Nat, (∀ idx, idx < lo ∨ hi < idx → move idx = idx) ∧
    ∀ idx, after[idx]? = before[move idx]?

namespace Rearranges

variable {lo hi : Nat} {first second third : Array Value}

theorem refl (lo hi : Nat) (cells : Array Value) : Rearranges lo hi cells cells :=
  ⟨Equiv.refl Nat, fun _ _ => rfl, fun _ => rfl⟩

theorem trans (one : Rearranges lo hi first second) (other : Rearranges lo hi second third) :
    Rearranges lo hi first third := by
  obtain ⟨move, fixes, moved⟩ := one
  obtain ⟨move', fixes', moved'⟩ := other
  refine ⟨move'.trans move, ?_, ?_⟩
  · intro idx outside
    rw [Equiv.trans_apply, fixes' idx outside, fixes idx outside]
  · intro idx
    rw [Equiv.trans_apply, moved', moved]

theorem widen {lo' hi' : Nat} (rearranges : Rearranges lo hi first second) (low : lo' ≤ lo)
    (high : hi ≤ hi') : Rearranges lo' hi' first second := by
  obtain ⟨move, fixes, moved⟩ := rearranges
  exact ⟨move, fun idx outside => fixes idx (by omega), moved⟩

theorem outside (rearranges : Rearranges lo hi first second) {idx : Nat}
    (out : idx < lo ∨ hi < idx) : second[idx]? = first[idx]? := by
  obtain ⟨move, fixes, moved⟩ := rearranges
  rw [moved, fixes idx out]

/-- A value inside of the segment came from a cell inside. -/
theorem source (rearranges : Rearranges lo hi first second) {idx : Nat} (low : lo ≤ idx)
    (high : idx ≤ hi) : ∃ from', lo ≤ from' ∧ from' ≤ hi ∧ second[idx]? = first[from']? := by
  obtain ⟨move, fixes, moved⟩ := rearranges
  have stays : ¬ (move idx < lo ∨ hi < move idx) := by
    intro out
    have same := move.injective (fixes (move idx) out)
    omega
  exact ⟨move idx, by omega, by omega, moved idx⟩

/-- An array that ends below a cell of the other would lose that cell. -/
theorem size (rearranges : Rearranges lo hi first second) : second.size = first.size := by
  obtain ⟨move, fixes, moved⟩ := rearranges
  have shown (idx : Nat) : idx < second.size ↔ move idx < first.size := by
    have same : second.size ≤ idx ↔ first.size ≤ move idx := by
      rw [← Array.getElem?_eq_none_iff, ← Array.getElem?_eq_none_iff, moved]
    omega
  have back : Finset.map move.toEmbedding (Finset.range second.size) =
      Finset.range first.size := by
    ext idx
    rw [Finset.mem_map_equiv, Finset.mem_range, Finset.mem_range, shown, Equiv.apply_symm_apply]
  have sizes := congrArg Finset.card back
  rwa [Finset.card_map, Finset.card_range, Finset.card_range] at sizes

/-- The cells of the segment hold the same values in another order. -/
theorem perm (rearranges : Rearranges lo hi first second) :
    ((List.range' lo (hi + 1 - lo)).map (second[·]?)).Perm
      ((List.range' lo (hi + 1 - lo)).map (first[·]?)) := by
  obtain ⟨move, fixes, moved⟩ := rearranges
  have stays (idx : Nat) (inside : lo ≤ idx ∧ idx ≤ hi) : lo ≤ move idx ∧ move idx ≤ hi := by
    by_contra out
    have same := move.injective (fixes (move idx) (by omega))
    omega
  have order : ((List.range' lo (hi + 1 - lo)).map move).Perm (List.range' lo (hi + 1 - lo)) := by
    rw [List.perm_ext_iff_of_nodup (List.Nodup.map move.injective List.nodup_range') List.nodup_range']
    intro idx
    rw [List.mem_map]
    constructor
    · rintro ⟨from', member, rfl⟩
      rw [List.mem_range'_1] at member ⊢
      have inside := stays from' (by omega)
      omega
    · intro member
      rw [List.mem_range'_1] at member
      by_contra missing
      have away : ¬ (lo ≤ move.symm idx ∧ move.symm idx ≤ hi) := by
        intro inside
        exact missing ⟨move.symm idx, List.mem_range'_1.mpr (by omega), move.apply_symm_apply idx⟩
      have same := fixes (move.symm idx) (by omega)
      rw [Equiv.apply_symm_apply] at same
      omega
  have values := order.map (first[·]?)
  rw [List.map_map] at values
  convert values using 2
  funext idx
  exact moved idx

end Rearranges

/-- A swap succeeds inside of the array and rearranges the cells between its two indices. -/
theorem swap_spec (cells : Array Value) (first second lo hi : Nat)
    (low : lo ≤ first ∧ lo ≤ second) (high : first ≤ hi ∧ second ≤ hi) (inside : hi < cells.size) :
    ∃ swapped, swap cells first second = some swapped ∧ Rearranges lo hi cells swapped ∧
      swapped[first]? = cells[second]? ∧ swapped[second]? = cells[first]? ∧
      ∀ idx, idx ≠ first → idx ≠ second → swapped[idx]? = cells[idx]? := by
  have left : cells[first]? = some cells[first] := Array.getElem?_eq_getElem (by omega)
  have right : cells[second]? = some cells[second] := Array.getElem?_eq_getElem (by omega)
  obtain ⟨once, wrote, onceSize, onceSelf, onceOther⟩ :=
    write_spec cells (show first < cells.size by omega) cells[second]
  obtain ⟨twice, wrote', _, twiceSelf, twiceOther⟩ :=
    write_spec once (show second < once.size by omega) cells[first]
  have atFirst : twice[first]? = cells[second]? := by
    by_cases same : first = second
    · subst same
      rw [twiceSelf, left]
    · rw [twiceOther first same, onceSelf, right]
  have others (idx : Nat) (one : idx ≠ first) (other : idx ≠ second) :
      twice[idx]? = cells[idx]? := by
    rw [twiceOther idx other, onceOther idx one]
  refine ⟨twice, ?_, ⟨Equiv.swap first second, ?_, ?_⟩, atFirst, by rw [twiceSelf, left], others⟩
  · simp only [swap, left, right, wrote, wrote', Option.bind_eq_bind, Option.bind_some]
  · intro idx out
    exact Equiv.swap_apply_of_ne_of_ne (by omega) (by omega)
  · intro idx
    by_cases one : idx = first
    · rw [one, Equiv.swap_apply_left, atFirst]
    · by_cases other : idx = second
      · rw [other, Equiv.swap_apply_right, twiceSelf, left]
      · rw [Equiv.swap_apply_of_ne_of_ne one other, others idx one other]

section
variable (before : Value → Value → Prop)

/-- Two cells are in order unless both lie in one segment that still has to be sorted. -/
def OrderedExcept (cells : Array Value) (lo hi : Nat) (pending : List (Nat × Nat)) : Prop :=
  ∀ left right x y, lo ≤ left → left < right → right ≤ hi → cells[left]? = some x →
    cells[right]? = some y →
    before x y ∨ ∃ segment ∈ pending, segment.1 ≤ left ∧ right ≤ segment.2

/-- Two segments have no cell in common. -/
def Beside (one other : Nat × Nat) : Prop :=
  ∀ idx, one.1 ≤ idx → idx ≤ one.2 → other.1 ≤ idx → idx ≤ other.2 → False

variable {before}

/-- More pending segments ask for less order. -/
theorem OrderedExcept.mono {cells : Array Value} {lo hi : Nat} {pending more : List (Nat × Nat)}
    (ordered : OrderedExcept before cells lo hi pending)
    (covers : ∀ segment ∈ pending, segment ∈ more) : OrderedExcept before cells lo hi more := by
  intro left right x y low less high atLeft atRight
  rcases ordered left right x y low less high atLeft atRight with order | ⟨segment, member, fits⟩
  · exact Or.inl order
  · exact Or.inr ⟨segment, covers segment member, fits⟩

/-- A program may rearrange one segment and leave smaller ones behind. The order to the other cells
stays. -/
theorem OrderedExcept.rearrange {cells after : Array Value} {lo hi : Nat} {segment : Nat × Nat}
    {rest parts : List (Nat × Nat)}
    (ordered : OrderedExcept before cells lo hi (segment :: rest))
    (inside : lo ≤ segment.1 ∧ segment.2 ≤ hi) (apart : ∀ other ∈ rest, Beside segment other)
    (rearranges : Rearranges segment.1 segment.2 cells after)
    (within : OrderedExcept before after segment.1 segment.2 parts) :
    OrderedExcept before after lo hi (parts ++ rest) := by
  -- A pair that is not within the segment was a pair of cells before, one of them outside.
  have across (left right : Nat) (x y : Value) (low : lo ≤ left) (less : left < right)
      (high : right ≤ hi) (atLeft : cells[left]? = some x) (atRight : cells[right]? = some y)
      (touches : ∃ idx, segment.1 ≤ idx ∧ idx ≤ segment.2 ∧ left ≤ idx ∧ idx ≤ right)
      (leaves : left < segment.1 ∨ segment.2 < right) :
      before x y ∨ ∃ other ∈ rest, other.1 ≤ left ∧ right ≤ other.2 := by
    rcases ordered left right x y low less high atLeft atRight with order | ⟨other, member, fits⟩
    · exact Or.inl order
    · rcases List.mem_cons.mp member with rfl | member
      · omega
      · obtain ⟨idx, above, below, after', before'⟩ := touches
        exact absurd (apart other member idx above below (by omega) (by omega)) id
  intro left right x y low less high atLeft atRight
  by_cases leftIn : segment.1 ≤ left ∧ left ≤ segment.2
  · by_cases rightIn : right ≤ segment.2
    · rcases within left right x y leftIn.1 less rightIn atLeft atRight with order | ⟨part, member, fits⟩
      · exact Or.inl order
      · exact Or.inr ⟨part, List.mem_append_left rest member, fits⟩
    · obtain ⟨from', above, below, moved⟩ := rearranges.source leftIn.1 leftIn.2
      rw [moved] at atLeft
      rw [rearranges.outside (Or.inr (by omega))] at atRight
      rcases across from' right x y (by omega) (by omega) high atLeft atRight
        ⟨from', above, below, Nat.le_refl _, by omega⟩ (Or.inr (by omega)) with
        order | ⟨other, member, fits⟩
      · exact Or.inl order
      · exact absurd (apart other member from' above below fits.1 (by omega)) id
  · by_cases rightIn : segment.1 ≤ right ∧ right ≤ segment.2
    · obtain ⟨from', above, below, moved⟩ := rearranges.source rightIn.1 rightIn.2
      rw [moved] at atRight
      rw [rearranges.outside (by omega)] at atLeft
      rcases across left from' x y low (by omega) (by omega) atLeft atRight
        ⟨from', above, below, by omega, Nat.le_refl _⟩ (Or.inl (by omega)) with
        order | ⟨other, member, fits⟩
      · exact Or.inl order
      · exact absurd (apart other member from' above below (by omega) fits.2) id
    · rw [rearranges.outside (by omega)] at atLeft
      rw [rearranges.outside (by omega)] at atRight
      rcases ordered left right x y low less high atLeft atRight with
        order | ⟨other, member, fits⟩
      · exact Or.inl order
      · rcases List.mem_cons.mp member with rfl | member
        · omega
        · exact Or.inr ⟨other, List.mem_append_right parts member, fits⟩

end

end Cells
