import DbBench.Proof.PageOps

/-
This file proves what a write transaction sees in a page and what its flush writes.
-/

namespace DbBench

open Cells Reclaim

variable {Page : Type}

section View

variable {txn : WriteTxn Page} {freed : List UInt64} {apart : Nat → Prop}

theorem Entries.inSpans {dirty : DirtyPage Page} (member : dirty ∈ txn.dirtyList) :
    dirty.span ∈ txn.spans := List.mem_append_left _ (List.mem_map_of_mem member)

/-- The entry that covers a page is the only one. -/
theorem Entries.dirty_unique (entries : Entries txn freed apart) {one other : DirtyPage Page}
    (member : one ∈ txn.dirtyList) (member' : other ∈ txn.dirtyList) {p : Nat}
    (covers : Spans one.span p) (covers' : Spans other.span p) : one = other := by
  have once : (txn.dirtyList.map DirtyPage.span).Nodup :=
    (List.nodup_append.mp entries.spans_nodup).1
  exact List.inj_on_of_nodup_map once member member'
    (entries.unique (Entries.inSpans member) (Entries.inSpans member') covers covers')

/-- A page that an entry covers is read from the memory of the entry. -/
theorem Entries.view_dirty (entries : Entries txn freed apart) (file : File Page)
    {dirty : DirtyPage Page} (member : dirty ∈ txn.dirtyList) {k : Nat}
    (inside : k < dirty.pages.length) : txn.view file (dirty.pgno + k) = dirty.pages[k] := by
  have covers : Spans dirty.span (dirty.pgno + k) :=
    ⟨Nat.le_add_right _ _, Nat.add_lt_add_left inside _⟩
  unfold WriteTxn.view
  cases sought : txn.dirtyList.find? fun dirty' => decide (Spans dirty'.span (dirty.pgno + k)) with
  | none =>
      have outside := List.find?_eq_none.mp sought dirty member
      rw [decide_eq_true_eq] at outside
      exact absurd covers outside
  | some other =>
      have found := List.find?_some sought
      rw [decide_eq_true_eq] at found
      have same := entries.dirty_unique (List.mem_of_find?_eq_some sought) member found covers
      rw [same, Option.bind_some, Nat.add_sub_cancel_left, List.getElem?_eq_getElem inside,
        Option.getD_some]

/-- All other pages are read from the file. -/
theorem WriteTxn.view_file (file : File Page) {p : Nat}
    (outside : ∀ dirty ∈ txn.dirtyList, ¬ Spans dirty.span p) :
    txn.view file p = file.pages p := by
  have sought : (txn.dirtyList.find? fun dirty => decide (Spans dirty.span p)) = none := by
    rw [List.find?_eq_none]
    intro dirty member
    rw [decide_eq_true_eq]
    exact outside dirty member
  rw [WriteTxn.view, sought]
  rfl

/-- The flush writes the pages of all entries. -/
theorem WriteTxn.mem_ahead (txn : WriteTxn Page) (write : Nat × Page) : write ∈ txn.ahead ↔
    ∃ dirty ∈ txn.dirtyList, ∃ k, ∃ inside : k < dirty.pages.length,
      write = (dirty.pgno + k, dirty.pages[k]) := by
  rw [WriteTxn.ahead, List.mem_flatMap]
  constructor
  · rintro ⟨dirty, member, inside⟩
    obtain ⟨⟨page, k⟩, cell, equal⟩ := List.mem_map.mp inside
    obtain ⟨bound, here⟩ := List.getElem?_eq_some_iff.mp (List.mem_zipIdx_iff_getElem?.mp cell)
    exact ⟨dirty, member, k, bound, by rw [here]; exact equal.symm⟩
  · rintro ⟨dirty, member, k, inside, equal⟩
    refine ⟨dirty, member, List.mem_map.mpr ⟨(dirty.pages[k], k), ?_, equal.symm⟩⟩
    exact List.mem_zipIdx_iff_getElem?.mpr (List.getElem?_eq_getElem inside)

/-- What the flush writes is what the transaction sees, and the rest is in the file. -/
theorem Entries.view (entries : Entries txn freed apart) (file : File Page) :
    (∀ write ∈ txn.ahead, write.2 = txn.view file write.1 ∧ apart write.1) ∧
      ∀ p ∉ txn.ahead.map Prod.fst, file.pages p = txn.view file p := by
  constructor
  · intro write member
    obtain ⟨dirty, inList, k, inside, rfl⟩ := (txn.mem_ahead write).mp member
    refine ⟨(entries.view_dirty file inList inside).symm, ?_⟩
    exact (entries.covered dirty.span (Entries.inSpans inList) _
      ⟨Nat.le_add_right _ _, Nat.add_lt_add_left inside _⟩).1
  · intro p outside
    refine (WriteTxn.view_file file fun dirty member covers => outside ?_).symm
    have low : dirty.pgno ≤ p := covers.1
    have high : p < dirty.pgno + dirty.pages.length := covers.2
    refine List.mem_map.mpr ⟨(p, dirty.pages[p - dirty.pgno]), ?_, rfl⟩
    refine (txn.mem_ahead _).mpr ⟨dirty, member, p - dirty.pgno, by omega, ?_⟩
    rw [Nat.add_sub_cancel' low]

end View

end DbBench
