import DbBench.Construction.Benchmark
import DbBench.Spec.DirectStore
import Mathlib.Algebra.BigOperators.Fin
import Mathlib.Data.UInt
import Mathlib.Tactic.Ring

namespace DbBench

open KeyValue Transition

/-- This iteration reads. -/
def Draws.Reads (opts : Options) (draws : Draws) : Prop := draws.rand100 < opts.readWeight.toInt

instance (opts : Options) : DecidablePred (Draws.Reads opts) := fun draws =>
  inferInstanceAs (Decidable (draws.rand100 < opts.readWeight.toInt))

def Call.isGet : Call → Bool
  | .get _ => true
  | _ => false

def Call.isPut : Call → Bool
  | .put _ _ => true
  | _ => false

/-- The workers issued this many calls of `get`. -/
def getCalls (outputs : List (Call × Reply)) : Nat := outputs.countP fun output => output.1.isGet

/-- The workers issued this many calls of `put`. -/
def putCalls (outputs : List (Call × Reply)) : Nat := outputs.countP fun output => output.1.isPut

/-- A total over the workers is the sum of their counters. -/
theorem foldl_counts {threads : Nat} (count : Fin threads → UInt64) :
    (List.finRange threads).foldl (fun total i => total + count i) 0 = ∑ i, count i := by
  rw [Fin.sum_univ_def, List.sum_eq_foldl, List.foldl_map]

/-- One counter that grows makes the total grow. -/
theorem sum_update {threads : Nat} (count : Fin threads → UInt64) (j : Fin threads)
    (more : UInt64) :
    ∑ i, Function.update count j (count j + more) i = ∑ i, count i + more := by
  have whole := Finset.sum_update_of_mem (Finset.mem_univ j) count (count j)
  rw [Function.update_eq_self] at whole
  rw [Finset.sum_update_of_mem (Finset.mem_univ j), whole, add_right_comm]

/-- The iterations of a schedule that read. -/
def readsIn {threads : Nat} (opts : Options) (schedule : List (Fin threads × Draws)) : Nat :=
  schedule.countP fun step => step.2.Reads opts

/-- The iterations of a schedule that write. -/
def writesIn {threads : Nat} (opts : Options) (schedule : List (Fin threads × Draws)) : Nat :=
  schedule.countP fun step => ¬ step.2.Reads opts

section
variable {World : Type} (db : Reference World Call Reply)

/-- An iteration keeps the options of its worker and counts the call that it issues. -/
theorem Worker.iterate_spec (worker : Worker) (draws : Draws) (world : World) :
    (worker.iterate db draws world).2.1.opts = worker.opts ∧
      (worker.iterate db draws world).2.1.readCount =
        worker.readCount + (if draws.Reads worker.opts then 1 else 0) ∧
      (worker.iterate db draws world).2.1.writeCount =
        worker.writeCount + (if draws.Reads worker.opts then 0 else 1) ∧
      (worker.iterate db draws world).1.1.isGet = decide (draws.Reads worker.opts) ∧
      (worker.iterate db draws world).1.1.isPut = decide (¬ draws.Reads worker.opts) := by
  by_cases reads : draws.Reads worker.opts
  · have below : draws.rand100 < worker.opts.readWeight.toInt := reads
    simp [Worker.iterate, below, reads, Call.isGet, Call.isPut]
  · have above : ¬ draws.rand100 < worker.opts.readWeight.toInt := reads
    simp [Worker.iterate, above, reads, Call.isGet, Call.isPut]

/-- One iteration moves the totals by the call that it issues. -/
theorem FullTest.step_counts {threads : Nat} {opts : Options} {test : FullTest World threads}
    (same : ∀ i, (test.workers i).opts = opts) (input : Fin threads × Draws) :
    (∀ i, ((FullTest.step db test input).2.workers i).opts = opts) ∧
      (FullTest.step db test input).2.readCount =
        test.readCount + (if input.2.Reads opts then 1 else 0) ∧
      (FullTest.step db test input).2.writeCount =
        test.writeCount + (if input.2.Reads opts then 0 else 1) ∧
      (FullTest.step db test input).1.1.isGet = decide (input.2.Reads opts) ∧
      (FullTest.step db test input).1.1.isPut = decide (¬ input.2.Reads opts) := by
  have spec := Worker.iterate_spec db (test.workers input.1) input.2 test.world
  rw [same input.1] at spec
  obtain ⟨kept, reads, writes, got, put⟩ := spec
  generalize reached : ((test.workers input.1).iterate db input.2 test.world).2.1 = worker at *
  have workers : (FullTest.step db test input).2.workers =
      Function.update test.workers input.1 worker := by rw [← reached]; rfl
  refine ⟨fun i => ?_, ?_, ?_, got, put⟩
  · rw [workers]
    by_cases own : i = input.1
    · rw [own, Function.update_self, kept]
    · rw [Function.update_of_ne own, same]
  · have counts := Function.comp_update Worker.readCount test.workers input.1 worker
    rw [FullTest.readCount, FullTest.readCount, foldl_counts, foldl_counts, workers, ← sum_update _ input.1,
      ← reads]
    exact congrArg (fun count => ∑ i, count i) counts
  · have counts := Function.comp_update Worker.writeCount test.workers input.1 worker
    rw [FullTest.writeCount, FullTest.writeCount, foldl_counts, foldl_counts, workers, ← sum_update _ input.1,
      ← writes]
    exact congrArg (fun count => ∑ i, count i) counts

/-- After every run the totals and the issued calls are the reads and writes of the schedule. -/
theorem FullTest.follow_counts {threads : Nat} {opts : Options} (schedule : List (Fin threads × Draws))
    {test : FullTest World threads} (same : ∀ i, (test.workers i).opts = opts) :
    (follow (FullTest.step db) test schedule).2.readCount =
        test.readCount + UInt64.ofNat (readsIn opts schedule) ∧
      (follow (FullTest.step db) test schedule).2.writeCount =
        test.writeCount + UInt64.ofNat (writesIn opts schedule) ∧
      getCalls (follow (FullTest.step db) test schedule).1 = readsIn opts schedule ∧
      putCalls (follow (FullTest.step db) test schedule).1 = writesIn opts schedule := by
  induction schedule generalizing test with
  | nil => simp [readsIn, writesIn, getCalls, putCalls]
  | cons input rest ih =>
      obtain ⟨kept, reads, writes, got, put⟩ := FullTest.step_counts db same input
      obtain ⟨reads', writes', got', put'⟩ := ih kept
      simp only [follow_cons]
      simp only [getCalls, putCalls, List.countP_cons] at got' put' ⊢
      rw [reads', writes', reads, writes, got', put', got, put]
      by_cases chosen : input.2.Reads opts
      · simp [readsIn, writesIn, chosen, UInt64.ofNat_add, add_assoc, add_comm, add_left_comm]
      · simp [readsIn, writesIn, chosen, UInt64.ofNat_add, add_assoc, add_comm, add_left_comm]

/-- The workers start with counters at zero. -/
theorem FullTest.start_counts (opts : Options) (world : World) :
    (FullTest.start db opts world).readCount = 0 ∧ (FullTest.start db opts world).writeCount = 0 := by
  rw [FullTest.readCount, FullTest.writeCount, foldl_counts, foldl_counts]
  simp [FullTest.start, Worker.create]

/-- The reported totals count modulo 2^64 what the schedule asks for, and the issued calls are
exactly that. -/
theorem FullTest.totals (opts : Options) (world : World)
    (schedule : List (Fin opts.threads.toNat × Draws)) :
    (follow (FullTest.step db) (FullTest.start db opts world) schedule).2.readCount.toNat =
        readsIn opts schedule % 2 ^ 64 ∧
      (follow (FullTest.step db) (FullTest.start db opts world) schedule).2.writeCount.toNat =
        writesIn opts schedule % 2 ^ 64 ∧
      getCalls (follow (FullTest.step db) (FullTest.start db opts world) schedule).1 =
        readsIn opts schedule ∧
      putCalls (follow (FullTest.step db) (FullTest.start db opts world) schedule).1 =
        writesIn opts schedule := by
  have same : ∀ i, ((FullTest.start db opts world).workers i).opts = opts := fun _ => rfl
  obtain ⟨reads, writes, got, put⟩ := FullTest.follow_counts db schedule same
  obtain ⟨noReads, noWrites⟩ := FullTest.start_counts db opts world
  rw [reads, writes, noReads, noWrites, UInt64.zero_add, UInt64.zero_add, UInt64.toNat_ofNat',
    UInt64.toNat_ofNat']
  exact ⟨rfl, rfl, got, put⟩

end

/-- Every value that `rand100` can return occurs equally often. -/
def Balanced {threads : Nat} (opts : Options) (schedule : List (Fin threads × Draws)) (count : Nat) :
    Prop :=
  ∀ value, (RandomEngine.create opts.keys opts.stringLength).uniformDist100.Returns value →
    schedule.countP (fun step => step.2.rand100 = value) = count

/-- The draws below the next value are the draws below this value and the draws of this value. -/
theorem countP_below_succ {threads : Nat} (schedule : List (Fin threads × Draws)) (bound : Int) :
    schedule.countP (fun step => step.2.rand100 < bound + 1) =
      schedule.countP (fun step => step.2.rand100 < bound) +
        schedule.countP (fun step => step.2.rand100 = bound) := by
  induction schedule with
  | nil => rfl
  | cons step rest ih =>
      simp only [List.countP_cons, decide_eq_true_eq, ih]
      split_ifs <;> omega

/-- In a balanced schedule each value below a bound contributes as many draws. -/
theorem Balanced.below {threads : Nat} {opts : Options} {schedule : List (Fin threads × Draws)}
    {count : Nat} (balanced : Balanced opts schedule count)
    (allowed : ∀ step ∈ schedule, 0 ≤ step.2.rand100) (bound : Nat) (inside : bound ≤ 101) :
    schedule.countP (fun step => step.2.rand100 < (bound : Int)) = bound * count := by
  induction bound with
  | zero =>
      rw [Nat.zero_mul, List.countP_eq_zero]
      intro step member
      have := allowed step member
      simp only [decide_eq_true_eq]
      omega
  | succ bound ih =>
      have here := balanced bound ⟨by simp [RandomEngine.create], by
        simp only [RandomEngine.create]
        omega⟩
      rw [Int.natCast_succ, countP_below_succ, ih (by omega), here, Nat.succ_mul]

/-- The reported totals have the requested ratio and count the issued calls. -/
structure ReportsMix {threads : Nat} {World : Type} (opts : Options) (outputs : List (Call × Reply))
    (final : FullTest World threads) : Prop where
  ratio : 100 * (final.readCount.toNat : Int) =
    opts.readWeight.toInt * (final.readCount.toNat + final.writeCount.toNat)
  reads : final.readCount.toNat = getCalls outputs
  writes : final.writeCount.toNat = putCalls outputs

/-- A balanced run reports the requested mix. In every run the weight 100 allows no write and the
weight 0 no read. -/
structure MeasuresMix {World : Type} (db : Reference World Call Reply) (opts : Options)
    (world : World) (schedule : List (Fin opts.threads.toNat × Draws)) : Prop where
  balanced : (∃ count, Balanced opts schedule count) →
    ReportsMix opts (follow (FullTest.step db) (FullTest.start db opts world) schedule).1
      (follow (FullTest.step db) (FullTest.start db opts world) schedule).2
  onlyReads : opts.readWeight.toInt = 100 →
    putCalls (follow (FullTest.step db) (FullTest.start db opts world) schedule).1 = 0
  onlyWrites : opts.readWeight.toInt = 0 →
    getCalls (follow (FullTest.step db) (FullTest.start db opts world) schedule).1 = 0

/-- Every iteration reads or writes. -/
theorem readsIn_add_writesIn {threads : Nat} (opts : Options)
    (schedule : List (Fin threads × Draws)) :
    readsIn opts schedule + writesIn opts schedule = schedule.length := by
  rw [readsIn, writesIn, List.length_eq_countP_add_countP fun step => decide (step.2.Reads opts)]
  simp

/-- The 101 values of `rand100` give a balanced schedule this many reads and iterations. -/
theorem Balanced.counts {threads : Nat} {opts : Options} {schedule : List (Fin threads × Draws)}
    {count : Nat} (balanced : Balanced opts schedule count)
    (allowed : ∀ step ∈ schedule, 0 ≤ step.2.rand100 ∧ step.2.rand100 ≤ 100)
    (weight : 0 ≤ opts.readWeight.toInt ∧ opts.readWeight.toInt ≤ 100) :
    readsIn opts schedule = opts.readWeight.toInt.toNat * count ∧
      schedule.length = 101 * count := by
  have above : ∀ step ∈ schedule, 0 ≤ step.2.rand100 := fun step member => (allowed step member).1
  constructor
  · have reads := balanced.below above opts.readWeight.toInt.toNat (by omega)
    rw [Int.toNat_of_nonneg weight.1] at reads
    exact reads
  · rw [← balanced.below above 101 (Nat.le_refl 101), eq_comm, List.countP_eq_length]
    intro step member
    have := (allowed step member).2
    simp only [Nat.cast_ofNat, decide_eq_true_eq]
    omega

/-- A balanced schedule measures the requested mix when it is empty, or when it asks for writes only
and its length fits a counter. -/
theorem Balanced.reports_iff {World : Type} (db : Reference World Call Reply) {opts : Options}
    (world : World) {schedule : List (Fin opts.threads.toNat × Draws)} {count : Nat}
    (balanced : Balanced opts schedule count)
    (allowed : ∀ step ∈ schedule, 0 ≤ step.2.rand100 ∧ step.2.rand100 ≤ 100)
    (weight : 0 ≤ opts.readWeight.toInt ∧ opts.readWeight.toInt ≤ 100) :
    ReportsMix opts (follow (FullTest.step db) (FullTest.start db opts world) schedule).1
        (follow (FullTest.step db) (FullTest.start db opts world) schedule).2 ↔
      schedule = [] ∨ (opts.readWeight.toInt = 0 ∧ schedule.length < 2 ^ 64) := by
  obtain ⟨reads, writes, got, put⟩ := FullTest.totals db opts world schedule
  obtain ⟨asked, length⟩ := balanced.counts allowed weight
  have whole := readsIn_add_writesIn opts schedule
  constructor
  · rintro ⟨ratio, reported, reported'⟩
    rw [got] at reported
    rw [put] at reported'
    rw [reported, reported', ← Nat.cast_add, whole, length, asked] at ratio
    push_cast at ratio
    rw [Int.toNat_of_nonneg weight.1] at ratio
    have none : opts.readWeight.toInt * count = 0 := by linarith
    rcases Int.mul_eq_zero.mp none with noReads | noIterations
    · refine .inr ⟨noReads, ?_⟩
      rw [noReads, Int.toNat_zero, Nat.zero_mul] at asked
      have same : schedule.length = writesIn opts schedule := by omega
      rw [same, ← reported', writes]
      exact Nat.mod_lt _ (by decide)
    · refine .inl (List.eq_nil_of_length_eq_zero ?_)
      omega
  · rintro (rfl | ⟨noReads, fits⟩)
    · have noReads : readsIn opts ([] : List (Fin opts.threads.toNat × Draws)) = 0 := rfl
      have noWrites : writesIn opts ([] : List (Fin opts.threads.toNat × Draws)) = 0 := rfl
      rw [noReads] at reads got
      rw [noWrites] at writes put
      refine ⟨?_, reads.trans got.symm, writes.trans put.symm⟩
      rw [reads, writes]
      simp
    · rw [noReads, Int.toNat_zero, Nat.zero_mul] at asked
      have fitting : writesIn opts schedule < 2 ^ 64 := by omega
      rw [asked] at reads got
      rw [Nat.mod_eq_of_lt fitting] at writes
      refine ⟨?_, reads.trans got.symm, writes.trans put.symm⟩
      rw [reads, noReads]
      simp

/-- With the weight 100 a worker writes exactly at the draw 100. -/
theorem writesIn_eq_zero {threads : Nat} {opts : Options} {schedule : List (Fin threads × Draws)}
    (allowed : ∀ step ∈ schedule, 0 ≤ step.2.rand100 ∧ step.2.rand100 ≤ 100)
    (onlyReads : opts.readWeight.toInt = 100) :
    writesIn opts schedule = 0 ↔ ∀ step ∈ schedule, step.2.rand100 ≠ 100 := by
  rw [writesIn, List.countP_eq_zero]
  apply forall_congr'
  intro step
  apply forall_congr'
  intro member
  have bounds := allowed step member
  simp only [Draws.Reads, onlyReads, decide_eq_true_eq]
  omega

/-- The measured mix is the requested mix exactly when a balanced run is empty or asks for writes
only, fewer than 2^64 of them, and no run with the weight 100 draws the value 100. -/
theorem measured_mix_iff {World : Type} (db : Reference World Call Reply) (opts : Options)
    (world : World) (schedule : List (Fin opts.threads.toNat × Draws))
    (weight : 0 ≤ opts.readWeight.toInt ∧ opts.readWeight.toInt ≤ 100)
    (_length : 0 ≤ opts.stringLength.toInt)
    (allowed : ∀ step ∈ schedule,
      (RandomEngine.create opts.keys opts.stringLength).Allows step.2) :
    MeasuresMix db opts world schedule ↔
      ((∃ count, Balanced opts schedule count) →
        schedule = [] ∨ (opts.readWeight.toInt = 0 ∧ schedule.length < 2 ^ 64)) ∧
      (opts.readWeight.toInt = 100 → ∀ step ∈ schedule, step.2.rand100 ≠ 100) := by
  have bounds : ∀ step ∈ schedule, 0 ≤ step.2.rand100 ∧ step.2.rand100 ≤ 100 :=
    fun step member => (allowed step member).2
  obtain ⟨_, _, got, put⟩ := FullTest.totals db opts world schedule
  constructor
  · rintro ⟨reports, onlyReads, _⟩
    refine ⟨fun balances => ?_, fun all => ?_⟩
    · obtain ⟨count, balanced⟩ := balances
      exact (balanced.reports_iff db world bounds weight).mp (reports ⟨count, balanced⟩)
    · rw [← writesIn_eq_zero bounds all, ← put]
      exact onlyReads all
  · rintro ⟨reports, noHundred⟩
    refine ⟨fun balances => ?_, fun all => ?_, fun none => ?_⟩
    · obtain ⟨count, balanced⟩ := balances
      exact (balanced.reports_iff db world bounds weight).mpr (reports ⟨count, balanced⟩)
    · rw [put, writesIn_eq_zero bounds all]
      exact noHundred all
    · rw [got, readsIn, List.countP_eq_zero]
      intro step member
      have nonneg := (bounds step member).1
      simp only [Draws.Reads, none, decide_eq_true_eq]
      omega

/-- One worker runs one key with this weight of reads. -/
def oneWorker (readWeight : Int32) : Options :=
  {Options.zero with readWeight := readWeight, keys := 1, threads := 1}

theorem oneWorker_threads (readWeight : Int32) : 0 < (oneWorker readWeight).threads.toNat :=
  Nat.one_pos

/-- One worker draws every value of `rand100` once. -/
def everyDraw (readWeight : Int32) : List (Fin (oneWorker readWeight).threads.toNat × Draws) :=
  (List.range 101).map fun value : Nat => (⟨0, oneWorker_threads readWeight⟩, ⟨0, value⟩)

theorem everyDraw_allowed (readWeight : Int32) : ∀ step ∈ everyDraw readWeight,
    (RandomEngine.create (oneWorker readWeight).keys
      (oneWorker readWeight).stringLength).Allows step.2 := by
  intro step member
  obtain ⟨value, inside, rfl⟩ := List.mem_map.mp member
  have below := List.mem_range.mp inside
  refine ⟨⟨Int.le_refl 0, ?_⟩, ?_, ?_⟩
  · change (0 : Int) ≤ Int32.toInt 1
    decide
  · simp [RandomEngine.create]
  · simp only [RandomEngine.create]
    omega

/-- Each value occurs once. -/
theorem everyDraw_balanced (readWeight : Int32) :
    Balanced (oneWorker readWeight) (everyDraw readWeight) 1 := by
  intro value returns
  have low : 0 ≤ value := returns.1
  have high : value ≤ 100 := returns.2
  obtain ⟨n, rfl⟩ := Int.eq_ofNat_of_zero_le low
  rw [everyDraw, List.countP_map]
  have once : ((fun step : Fin (oneWorker readWeight).threads.toNat × Draws =>
      decide (step.2.rand100 = n)) ∘
        fun value : Nat => (⟨0, oneWorker_threads readWeight⟩, ⟨0, value⟩)) =
      fun value => value == n := by
    funext value
    simp [beq_eq_decide]
  rw [once]
  exact List.count_eq_one_of_mem List.nodup_range (List.mem_range.mpr (by omega))

/-- The weight 0 measures the requested mix in this run. -/
theorem measured_mix_iff_writes :
    MeasuresMix directStep (oneWorker 0) Store.empty (everyDraw 0) := by
  refine (measured_mix_iff directStep (oneWorker 0) Store.empty (everyDraw 0) (by decide)
    (by decide) (everyDraw_allowed 0)).mpr ⟨fun _ => .inr ⟨by decide, by decide⟩, fun reads => ?_⟩
  exact absurd reads (by decide)

/-- The weight 60 reports 60 reads in 101 calls. -/
theorem measured_mix_misses :
    ¬ ∀ (opts : Options) (schedule : List (Fin opts.threads.toNat × Draws)),
      0 ≤ opts.readWeight.toInt ∧ opts.readWeight.toInt ≤ 100 → 0 ≤ opts.stringLength.toInt →
      (∀ step ∈ schedule, (RandomEngine.create opts.keys opts.stringLength).Allows step.2) →
      MeasuresMix directStep opts Store.empty schedule := by
  intro measures
  have reports := (measures (oneWorker 60) (everyDraw 60) (by decide) (by decide)
    (everyDraw_allowed 60)).balanced ⟨1, everyDraw_balanced 60⟩
  have bounds := fun step member => (everyDraw_allowed 60 step member).2
  rcases ((everyDraw_balanced 60).reports_iff directStep Store.empty bounds (by decide)).mp reports
    with empty | ⟨noReads, _⟩
  · exact absurd empty (by decide)
  · exact absurd noReads (by decide)

end DbBench
