import DbBench.Construction.Options

namespace DbBench

/-- A command line names a database and asks for neither the help text nor the integrity test. -/
structure VariablesMap.Runs (vm : VariablesMap) : Prop where
  db : (vm .db).isSome
  help : vm .help = none
  integrity : vm .integrity = none

/-- These options set fields of the record. -/
def OptionName.Tunes (name : OptionName) : Prop :=
  name = .read ∨ name = .duration ∨ name = .threads ∨ name = .len ∨ name = .keys

/-- The records agree on every field that this option does not denote. -/
structure Options.AgreeApart (name : OptionName) (first second : Options) : Prop where
  dbType : first.dbType = second.dbType
  readWeight : name ≠ .read → first.readWeight = second.readWeight
  writeWeight : name ≠ .read → first.writeWeight = second.writeWeight
  duration : name ≠ .duration → first.duration = second.duration
  threads : name ≠ .threads → first.threads = second.threads
  stringLength : name ≠ .len → first.stringLength = second.stringLength
  keys : name ≠ .keys → first.keys = second.keys

/-- The record holds a given length and a given number of keys. -/
structure VariablesMap.Honoured (vm : VariablesMap) (result : Options) : Prop where
  len : ∀ value, vm .len = some value → result.stringLength = value
  keys : ∀ value, vm .keys = some value → result.keys = value

/-- The option interferes with no field of another one, and both command lines are honoured. -/
def Independent (numCores : UInt32) (name : OptionName) (first second : VariablesMap) : Prop :=
  ∃ left right, handleArguments numCores first = .ok left ∧
    handleArguments numCores second = .ok right ∧ Options.AgreeApart name left right ∧
    first.Honoured left ∧ second.Honoured right

/-- The program runs with these fields. -/
theorem VariablesMap.Runs.result {vm : VariablesMap} (runs : vm.Runs) (numCores : UInt32) :
    ∃ dbType, vm .db = some dbType ∧ handleArguments numCores vm = .ok
      { dbType := dbType
        readWeight := (vm .read).getD 60
        writeWeight := 100 - (vm .read).getD 60
        duration := (vm .duration).getD 60
        stringLength := (vm .keys).getD 10000
        keys := 0
        threads := ((vm .threads).map Int32.toUInt32).getD (defaultThreads numCores) } := by
  obtain ⟨dbType, given⟩ := Option.isSome_iff_exists.mp runs.db
  refine ⟨dbType, given, ?_⟩
  simp [handleArguments, runs.help, runs.integrity, given, Options.zero]

/-- The length agrees with what `keys` left there, and the number of keys is always zero. -/
def VariablesMap.Coincides (vm : VariablesMap) : Prop :=
  (∀ value, vm .len = some value → (vm .keys).getD 10000 = value) ∧
    ∀ value, vm .keys = some value → value = 0

/-- A record with the length of `keys` and no keys honours a command line exactly when the two
coincide. -/
theorem VariablesMap.honoured_iff (vm : VariablesMap) {result : Options}
    (length : result.stringLength = (vm .keys).getD 10000) (keys : result.keys = 0) :
    vm.Honoured result ↔ vm.Coincides := by
  constructor
  · intro honours
    refine ⟨fun value held => ?_, fun value held => ?_⟩
    · rw [← length, honours.len value held]
    · rw [← honours.keys value held, keys]
  · rintro ⟨lengths, counts⟩
    refine ⟨fun value held => ?_, fun value held => ?_⟩
    · rw [length, lengths value held]
    · rw [keys, counts value held]

/-- Options are independent exactly when the number of keys does not change the length and every
given length and number of keys happens to be what the record holds. -/
theorem options_independent_iff (numCores : UInt32) {name : OptionName} (tunes : name.Tunes)
    {first second : VariablesMap} (runs : first.Runs) (runs' : second.Runs)
    (agree : ∀ other, other ≠ name → first other = second other) :
    Independent numCores name first second ↔
      (name = .keys → (first .keys).getD 10000 = (second .keys).getD 10000) ∧
        first.Coincides ∧ second.Coincides := by
  obtain ⟨dbType, given, ran⟩ := runs.result numCores
  obtain ⟨dbType', given', ran'⟩ := runs'.result numCores
  constructor
  · rintro ⟨left, right, leftRan, rightRan, apart, leftHonours, rightHonours⟩
    cases ran.symm.trans leftRan
    cases ran'.symm.trans rightRan
    refine ⟨fun same => ?_, (first.honoured_iff rfl rfl).mp leftHonours,
      (second.honoured_iff rfl rfl).mp rightHonours⟩
    subst same
    exact apart.stringLength (by decide)
  · rintro ⟨lengths, coincides, coincides'⟩
    refine ⟨_, _, ran, ran', ?_, (first.honoured_iff rfl rfl).mpr coincides,
      (second.honoured_iff rfl rfl).mpr coincides'⟩
    have keep : ∀ other, name ≠ other → first other = second other :=
      fun other different => agree other (Ne.symm different)
    constructor
    · have untouched : name ≠ .db := by
        rintro rfl
        simp [OptionName.Tunes] at tunes
      exact Option.some.inj (given.symm.trans ((keep .db untouched).trans given'))
    · intro different
      simp only [keep .read different]
    · intro different
      simp only [keep .read different]
    · intro different
      simp only [keep .duration different]
    · intro different
      simp only [keep .threads different]
    · intro _
      by_cases same : name = .keys
      · exact lengths same
      · simp only [keep .keys same]
    · intro _
      rfl

/-- This command line gives a database and these further options. -/
def commandLine (given : List (OptionName × Int32)) : VariablesMap :=
  fun name => ((.db, 0) :: given).lookup name

/-- The weight of reads is independent of the other options. -/
theorem options_independent_iff_read :
    Independent 8 .read (commandLine [(.read, 20)]) (commandLine []) := by
  refine (options_independent_iff 8 (.inl rfl) ⟨rfl, rfl, rfl⟩ ⟨rfl, rfl, rfl⟩
    fun other different => ?_).mpr ⟨nofun, ⟨nofun, nofun⟩, ⟨nofun, nofun⟩⟩
  cases other <;> first | rfl | exact absurd rfl different

/-- The option `keys` sets the string length and leaves the number of keys at zero. -/
theorem keys_sets_length :
    ¬ ∀ (numCores : UInt32) (name : OptionName) (first second : VariablesMap), name.Tunes →
      first.Runs → second.Runs → (∀ other, other ≠ name → first other = second other) →
      Independent numCores name first second := by
  intro independent
  have runs : (commandLine [(.keys, 100)]).Runs := ⟨rfl, rfl, rfl⟩
  have runs' : (commandLine [(.keys, 200)]).Runs := ⟨rfl, rfl, rfl⟩
  obtain ⟨left, right, leftRan, rightRan, apart, _⟩ := independent 8 .keys
    (commandLine [(.keys, 100)]) (commandLine [(.keys, 200)]) (by simp [OptionName.Tunes]) runs runs'
    (fun other different => by cases other <;> first | rfl | exact absurd rfl different)
  cases leftRan
  cases rightRan
  have lengths := apart.stringLength (by decide)
  revert lengths
  decide

end DbBench
