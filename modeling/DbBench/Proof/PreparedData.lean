import DbBench.Proof.MeasuredMix
import DbBench.Proof.ShardPath

namespace DbBench

open KeyValue Transition

/-- Different indices have different keys. -/
theorem decimal_injective {first second : Int} (nonneg : 0 ≤ first) (nonneg' : 0 ≤ second)
    (equal : decimal first = decimal second) : first = second := by
  rw [decimal, decimal, if_neg (by omega), if_neg (by omega)] at equal
  have same := toString_injective equal
  omega

/-- This is the value that every write of an index stores. -/
def preparedValue (opts : Options) (index : Int) : Bytes := opts.longString ++ decimal index

/-- The indices below `keys` hold their values. The last index holds its value once a worker wrote
it, and nothing before. -/
structure Prepared (opts : Options) (last : Prop) (store : ByteStore) : Prop where
  below : ∀ index, 0 ≤ index → index < opts.keys.toInt →
    store (decimal index) = some (preparedValue opts index)
  written : last → store (decimal opts.keys.toInt) = some (preparedValue opts opts.keys.toInt)
  absent : ¬ last → store (decimal opts.keys.toInt) = none

/-- The loop of `full_test` writes the indices below its bound. -/
theorem populate_rounds (opts : Options) (count : Nat) {index : Int} (nonneg : 0 ≤ index) :
    ((List.range count).foldl (fun store (i : Nat) => (directStep store (.put (decimal i)
        (opts.longString ++ decimal i))).2) Store.empty : ByteStore) (decimal index) =
      if index < count then some (preparedValue opts index) else none := by
  induction count with
  | zero =>
      rw [if_neg (by omega)]
      rfl
  | succ count ih =>
      rw [List.range_succ, List.foldl_append]
      simp only [List.foldl_cons, List.foldl_nil, directStep]
      by_cases last : index = count
      · subst last
        rw [if_pos (by omega)]
        exact Store.write_self _ (.put (decimal count) _)
      · have different : decimal count ≠ decimal index := fun same =>
          last (decimal_injective (Int.natCast_nonneg count) nonneg same).symm
        rw [Store.write_of_ne _ (.put (decimal count) _) different]
        refine ih.trans ?_
        by_cases below : index < count
        · rw [if_pos below, if_pos (by omega)]
        · rw [if_neg below, if_neg (by omega)]

/-- The loop prepares every index but the last one. -/
theorem populate_prepared {opts : Options} (keys : 1 ≤ opts.keys.toInt) :
    Prepared opts False (populate directStep opts Store.empty) := by
  have bound : (opts.keys.toInt.toNat : Int) = opts.keys.toInt := Int.toNat_of_nonneg (by omega)
  refine ⟨fun index nonneg below => ?_, False.elim, fun _ => ?_⟩
  · rw [populate, populate_rounds opts _ nonneg, if_pos (by omega)]
  · rw [populate, populate_rounds opts _ (by omega), if_neg (by omega)]

/-- A write of an index in the range keeps the values and adds the last one. -/
theorem Prepared.write {opts : Options} {last : Prop} {store : ByteStore}
    (prepared : Prepared opts last store) {index : Int} (low : 0 ≤ index)
    (high : index ≤ opts.keys.toInt) :
    Prepared opts (last ∨ index = opts.keys.toInt)
      (store.write (.put (decimal index) (preparedValue opts index))) := by
  have self := Store.write_self store (.put (decimal index) (preparedValue opts index))
  have others : ∀ other, 0 ≤ other → index ≠ other →
      store.write (.put (decimal index) (preparedValue opts index)) (decimal other) =
        store (decimal other) := by
    intro other nonneg different
    apply Store.write_of_ne
    intro same
    exact different (decimal_injective low nonneg same)
  refine ⟨fun other nonneg below => ?_, fun either => ?_, fun neither => ?_⟩
  · by_cases same : index = other
    · rw [← same]
      exact self
    · rw [others other nonneg same, prepared.below other nonneg below]
  · by_cases same : index = opts.keys.toInt
    · rw [← same]
      exact self
    · rw [others _ (by omega) same, prepared.written (either.resolve_right same)]
  · rw [not_or] at neither
    rw [others _ (by omega) neither.2, prepared.absent neither.1]

/-- The workers keep the options and the string that they start with. -/
def SameOptions {threads : Nat} (opts : Options) (test : FullTest ByteStore threads) : Prop :=
  ∀ i, (test.workers i).opts = opts ∧ (test.workers i).longString = opts.longString

/-- An iteration that reads looks the key up and leaves the map as it was. -/
theorem FullTest.step_reads {threads : Nat} {opts : Options} {test : FullTest ByteStore threads}
    (same : SameOptions opts test) {input : Fin threads × Draws} (reads : input.2.Reads opts) :
    (FullTest.step directStep test input).1 =
        (.get (decimal input.2.randKeys), shown (test.world (decimal input.2.randKeys))) ∧
      (FullTest.step directStep test input).2.world = test.world := by
  have below : input.2.rand100 < (test.workers input.1).opts.readWeight.toInt := by
    rw [(same input.1).1]
    exact reads
  simp [FullTest.step, Worker.iterate, below, directStep, shown]

/-- An iteration that writes stores the prepared value. -/
theorem FullTest.step_writes {threads : Nat} {opts : Options} {test : FullTest ByteStore threads}
    (same : SameOptions opts test) {input : Fin threads × Draws} (writes : ¬ input.2.Reads opts) :
    (FullTest.step directStep test input).1.1 =
        .put (decimal input.2.randKeys) (preparedValue opts input.2.randKeys) ∧
      (FullTest.step directStep test input).2.world = test.world.write
        (.put (decimal input.2.randKeys) (preparedValue opts input.2.randKeys)) := by
  have above : ¬ input.2.rand100 < (test.workers input.1).opts.readWeight.toInt := by
    rw [(same input.1).1]
    exact writes
  simp [FullTest.step, Worker.iterate, above, directStep, preparedValue, (same input.1).2]

/-- An iteration changes the counters of its worker only. -/
theorem Worker.iterate_keeps {World : Type} (db : Reference World Call Reply) (worker : Worker)
    (draws : Draws) (world : World) :
    (worker.iterate db draws world).2.1.opts = worker.opts ∧
      (worker.iterate db draws world).2.1.longString = worker.longString := by
  rw [Worker.iterate]
  split <;> exact ⟨rfl, rfl⟩

theorem FullTest.step_sameOptions {threads : Nat} {opts : Options}
    {test : FullTest ByteStore threads} (same : SameOptions opts test)
    (input : Fin threads × Draws) :
    SameOptions opts (FullTest.step directStep test input).2 := by
  intro i
  obtain ⟨opts, longString⟩ :=
    Worker.iterate_keeps directStep (test.workers input.1) input.2 test.world
  have workers : (FullTest.step directStep test input).2.workers =
      Function.update test.workers input.1
        ((test.workers input.1).iterate directStep input.2 test.world).2.1 := rfl
  rw [workers]
  by_cases own : i = input.1
  · subst own
    rw [Function.update_self, opts, longString]
    exact same input.1
  · rw [Function.update_of_ne own]
    exact same i

/-- A read of an index returns true and delivers the prepared value of the index. -/
def ReadHits {threads : Nat} (opts : Options) (step : Fin threads × Draws) (output : Call × Reply) :
    Prop :=
  ∀ key, output.1 = .get key → key = decimal step.2.randKeys ∧
    output.2 = .lookup true (some (preparedValue opts step.2.randKeys))

/-- This iteration writes the last index. -/
def WritesLast {threads : Nat} (opts : Options) (step : Fin threads × Draws) : Prop :=
  ¬ step.2.Reads opts ∧ step.2.randKeys = opts.keys.toInt

/-- Every read of the last index comes after a write of it, unless it was written before. -/
def LastCovered {threads : Nat} (opts : Options) (last : Prop)
    (schedule : List (Fin threads × Draws)) : Prop :=
  ∀ before step after, schedule = before ++ step :: after → step.2.Reads opts →
    step.2.randKeys = opts.keys.toInt → last ∨ ∃ earlier ∈ before, WritesLast opts earlier

theorem lastCovered_cons {threads : Nat} (opts : Options) (last : Prop)
    (first : Fin threads × Draws) (rest : List (Fin threads × Draws)) :
    LastCovered opts last (first :: rest) ↔
      (first.2.Reads opts → first.2.randKeys = opts.keys.toInt → last) ∧
        LastCovered opts (last ∨ WritesLast opts first) rest := by
  constructor
  · intro covered
    refine ⟨fun reads index => ?_, fun before step after split reads index => ?_⟩
    · rcases covered [] first rest rfl reads index with done | ⟨earlier, member, _⟩
      · exact done
      · cases member
    · rcases covered (first :: before) step after (by rw [split, List.cons_append]) reads index with
        done | ⟨earlier, member, writes⟩
      · exact .inl (.inl done)
      · rcases List.mem_cons.mp member with same | later
        · exact .inl (.inr (same ▸ writes))
        · exact .inr ⟨earlier, later, writes⟩
  · rintro ⟨here, covered⟩ before step after split reads index
    cases before with
    | nil =>
        obtain ⟨same, _⟩ := List.cons.inj split
        subst same
        exact .inl (here reads index)
    | cons head before =>
        obtain ⟨same, tail⟩ := List.cons.inj split
        subst same
        rcases covered before step after tail reads index with (done | writes) | ⟨earlier, member, writes⟩
        · exact .inl done
        · exact .inr ⟨first, List.mem_cons_self, writes⟩
        · exact .inr ⟨earlier, List.mem_cons_of_mem first member, writes⟩

/-- A read hits unless it asks for the last index before anyone wrote it. -/
theorem Prepared.hits_iff {opts : Options} {last : Prop} {store : ByteStore}
    (prepared : Prepared opts last store) {index : Int} (low : 0 ≤ index)
    (high : index ≤ opts.keys.toInt) :
    shown (store (decimal index)) = .lookup true (some (preparedValue opts index)) ↔
      (index = opts.keys.toInt → last) := by
  by_cases same : index = opts.keys.toInt
  · subst same
    by_cases written : last
    · simp [prepared.written written, shown, written]
    · simp [prepared.absent written, shown, written]
  · rw [prepared.below index low (by omega)]
    simp [shown, same]

/-- From prepared data every read hits exactly when the reads of the last index are covered. -/
theorem readsHit_iff {threads : Nat} {opts : Options} {test : FullTest ByteStore threads}
    {last : Prop} (schedule : List (Fin threads × Draws)) (same : SameOptions opts test)
    (prepared : Prepared opts last test.world)
    (allowed : ∀ step ∈ schedule, 0 ≤ step.2.randKeys ∧ step.2.randKeys ≤ opts.keys.toInt) :
    List.Forall₂ (ReadHits opts) schedule (follow (FullTest.step directStep) test schedule).1 ↔
      LastCovered opts last schedule := by
  induction schedule generalizing test last with
  | nil =>
      refine ⟨fun _ before step after split => ?_, fun _ => .nil⟩
      simp at split
  | cons first rest ih =>
      obtain ⟨low, high⟩ := allowed first List.mem_cons_self
      have later := fun step member => allowed step (List.mem_cons_of_mem first member)
      have kept := FullTest.step_sameOptions same first
      rw [follow_cons, List.forall₂_cons, lastCovered_cons]
      by_cases reads : first.2.Reads opts
      · obtain ⟨output, world⟩ := FullTest.step_reads same reads
        have after : Prepared opts (last ∨ WritesLast opts first)
            (FullTest.step directStep test first).2.world := by
          have none : (last ∨ WritesLast opts first) = last :=
            propext ⟨fun either => either.resolve_right fun writes => writes.1 reads, .inl⟩
          rw [world, none]
          exact prepared
        refine and_congr ?_ (ih kept after later)
        have hits : ReadHits opts first (FullTest.step directStep test first).1 ↔
            shown (test.world (decimal first.2.randKeys)) =
              .lookup true (some (preparedValue opts first.2.randKeys)) := by
          rw [output]
          constructor
          · intro hits
            exact (hits _ rfl).2
          · intro answered key asked
            exact ⟨(Call.get.inj asked).symm, answered⟩
        rw [hits, prepared.hits_iff low high, forall_prop_of_true reads]
      · obtain ⟨output, world⟩ := FullTest.step_writes same reads
        have after : Prepared opts (last ∨ WritesLast opts first)
            (FullTest.step directStep test first).2.world := by
          have only : WritesLast opts first ↔ first.2.randKeys = opts.keys.toInt :=
            and_iff_right reads
          rw [world, propext only]
          exact prepared.write low high
        refine and_congr ?_ (ih kept after later)
        refine ⟨fun _ impossible => absurd impossible reads, fun _ key asked => ?_⟩
        rw [output] at asked
        cases asked

/-- Each read of the workers hits the prepared data. -/
def ReadsHit (opts : Options) (schedule : List (Fin opts.threads.toNat × Draws)) : Prop :=
  List.Forall₂ (ReadHits opts) schedule
    (follow (FullTest.step directStep) (FullTest.start directStep opts Store.empty) schedule).1

/-- Every read hits the prepared data exactly when each read of the index `keys` comes after a write
of it, because the loop of `full_test` stops before this index. -/
theorem reads_hit_prepared_iff (opts : Options) (keys : 1 ≤ opts.keys.toInt)
    (_length : 0 ≤ opts.stringLength.toInt) (schedule : List (Fin opts.threads.toNat × Draws))
    (allowed : ∀ step ∈ schedule,
      (RandomEngine.create opts.keys opts.stringLength).Allows step.2) :
    ReadsHit opts schedule ↔
      ∀ before step after, schedule = before ++ step :: after → step.2.Reads opts →
        step.2.randKeys = opts.keys.toInt → ∃ earlier ∈ before, WritesLast opts earlier := by
  have same : SameOptions opts (FullTest.start directStep opts Store.empty) :=
    fun _ => ⟨rfl, rfl⟩
  rw [ReadsHit, readsHit_iff schedule same (populate_prepared keys)
    fun step member => (allowed step member).1]
  simp only [LastCovered, false_or]

/-- One worker draws the last of its keys. -/
def lastKey (rand100 : Int) : Fin (oneWorker 60).threads.toNat × Draws :=
  (⟨0, oneWorker_threads 60⟩, ⟨1, rand100⟩)

theorem lastKey_allowed {rand100 : Int} (low : 0 ≤ rand100) (high : rand100 ≤ 100) :
    (RandomEngine.create (oneWorker 60).keys (oneWorker 60).stringLength).Allows
      (lastKey rand100).2 := by
  refine ⟨⟨?_, ?_⟩, low, high⟩
  · change (0 : Int) ≤ 1
    decide
  · change (1 : Int) ≤ Int32.toInt 1
    decide

/-- A worker writes the last key and then reads it. -/
theorem reads_hit_prepared_iff_written :
    ReadsHit (oneWorker 60) [lastKey 60, lastKey 0] := by
  refine (reads_hit_prepared_iff (oneWorker 60) (by decide) (by decide) _ ?_).mpr ?_
  · intro step member
    rcases List.mem_pair.mp member with rfl | rfl
    · exact lastKey_allowed (by decide) (by decide)
    · exact lastKey_allowed (by decide) (by decide)
  · intro before step after split reads _
    rcases before with _ | ⟨first, _ | ⟨second, _ | ⟨third, before⟩⟩⟩ <;> cases split
    · exact absurd reads (by decide)
    · exact ⟨lastKey 60, List.mem_cons_self, by decide, rfl⟩

/-- A worker reads the last key before anyone wrote it. -/
theorem reads_miss_last_key :
    ¬ ∀ (opts : Options) (schedule : List (Fin opts.threads.toNat × Draws)),
      1 ≤ opts.keys.toInt → 0 ≤ opts.stringLength.toInt →
      (∀ step ∈ schedule, (RandomEngine.create opts.keys opts.stringLength).Allows step.2) →
      ReadsHit opts schedule := by
  intro hits
  have first := hits (oneWorker 60) [lastKey 0] (by decide) (by decide) fun step member => by
    rw [List.mem_singleton.mp member]
    exact lastKey_allowed (by decide) (by decide)
  obtain ⟨_, missed⟩ := (List.forall₂_cons.mp first).1 [49] (by decide)
  revert missed
  decide

end DbBench
