import DbBench.Library.ShellMarks
import DbBench.Spec.Isolation
import DbBench.Spec.ShellCommands
import Mathlib.Data.List.TakeWhile

namespace DbBench

open CommandLine

theorem cString_self {text : Bytes} (whole : 0 ∉ text) : cString text = text := by
  rw [cString, List.takeWhile_eq_self_iff]
  intro c member
  exact decide_eq_true fun zero => whole (zero ▸ member)

theorem rmForce_literal : ∀ word ∈ rmForce, Literal word := by decide

theorem mkdirParents_literal : ∀ word ∈ mkdirParents, Literal word := by decide

theorem removal_eq (dbname : Bytes) : removal dbname = line rmForce dbname := rfl

theorem creation_eq (dbname : Bytes) : creation dbname = line mkdirParents dbname := rfl

/-- A single argument is what a program works on, unless it looks like an option. -/
theorem operands_singleton (dbname : Bytes) :
    operands [dbname] = [dbname] ↔ ¬ ∃ c rest, dbname = 45 :: c :: rest := by
  constructor
  · rintro taken ⟨c, rest, rfl⟩
    simp only [operands] at taken
    split_ifs at taken with ends dashed
    exact dashed (by simp)
  · intro path
    have plain : ¬ (dbname.head? = some 45 ∧ dbname ≠ [45]) := by
      rintro ⟨dashed, longer⟩
      obtain ⟨rest, rfl⟩ := List.head?_eq_some_iff.mp dashed
      cases rest with
      | nil => exact longer rfl
      | cons c rest => exact path ⟨c, rest, rfl⟩
    have ends : dbname ≠ [45, 45] := fun same => path ⟨45, [], same⟩
    simp only [operands, if_neg ends]
    rw [if_neg (by simpa using plain)]

/-- The environment stands in a system where these paths exist as well. -/
def System.around (env : Environment) (others : List Bytes) : System where
  env := env
  present path := (others ++ env.listed).contains path
  listedPresent _ member := List.contains_iff_mem.mpr (List.mem_append_right others member)
  ran := []

/-- The programs that a command runs on a name in each environment decide whether it is ordinary. -/
theorem ordinary_of_runs (grammar : Grammar) {program : List Bytes} (nonempty : program ≠ [])
    (literal : ∀ word ∈ program, Literal word) {dbname : Bytes} (given : dbname ≠ [])
    (reached : ∀ env : Environment, dbname ∉ env.listed →
      runs grammar env (line program dbname) = [program ++ [dbname]] ∧
        operands (program.tail ++ [dbname]) = [dbname])
    (behind : operands (program.tail ++ [dbname]) = operands [dbname]) : Ordinary dbname := by
  refine ⟨literal_of_runs grammar nonempty literal given fun env unlisted =>
    (reached env unlisted).1, ?_⟩
  rw [← operands_singleton, ← behind]
  exact (reached (sparse none []) List.not_mem_nil).2

/-- An ordinary name is the last argument of its command and its only operand. -/
theorem Ordinary.runsOn {grammar : Grammar} {program : List Bytes} (nonempty : program ≠ [])
    (literal : ∀ word ∈ program, Literal word) {dbname : Bytes} (ordinary : Ordinary dbname)
    (behind : operands (program.tail ++ [dbname]) = operands [dbname]) {before after : System}
    (ran : after.ran = before.ran ++ runs grammar before.env (line program dbname)) :
    RunsOn program dbname before after := by
  constructor
  · rw [ran, runs_literal grammar before.env nonempty literal ordinary.literal]
  · rw [behind, operands_singleton]
    exact ordinary.path

section
variable (grammar : Grammar) {dbname : Bytes}

/-- `system` appends what the shell runs. -/
theorem system_ran {command : Bytes} (whole : 0 ∉ command) (system : System) :
    ((posix grammar).system command system).ran =
      system.ran ++ runs grammar system.env command := by
  show system.ran ++ runs grammar system.env (cString command) = _
  rw [cString_self whole]

/-- `clear` runs its command where it finds the path. -/
theorem clear_ran (given : dbname ≠ []) (whole : 0 ∉ dbname) {system : System}
    (found : (posix grammar).stat dbname system = true) :
    ((posix grammar).clear dbname system).ran =
      system.ran ++ runs grammar system.env (line rmForce dbname) := by
  have command : 0 ∉ removal dbname := by simpa [removal] using whole
  have guard : (!dbname.isEmpty && (posix grammar).stat dbname system) = true := by
    simp [found, given]
  rw [Shell.clear, if_pos guard, system_ran grammar command, removal_eq]

/-- `createSingle` runs its command where it does not find the path. -/
theorem createSingle_ran (whole : 0 ∉ dbname) {system : System} (dbType : Int)
    (missing : (posix grammar).stat dbname system = false) :
    (DBProvider.createSingle (posix grammar) dbname dbType system).2.ran =
      system.ran ++ runs grammar system.env (line mkdirParents dbname) := by
  have command : 0 ∉ creation dbname := by simpa [creation] using whole
  have guard : (!(posix grammar).stat dbname system) = true := by simp [missing]
  simp only [DBProvider.createSingle, if_pos guard]
  rw [system_ran grammar command, creation_eq]

/-- `create` runs what `createSingle` runs, if no `open` runs a command. -/
theorem create_ran {opens : Backend → Bytes → System → Bool × System}
    (silent : ∀ backend name system, (opens backend name system).2.ran = system.ran)
    (system : System) (dbType : Int) :
    (DBProvider.create (posix grammar) opens dbname dbType system).2.2.ran =
      (DBProvider.createSingle (posix grammar) dbname dbType system).2.ran :=
  silent _ _ _

/-- `clear` removes exactly its path in every system exactly when the name is ordinary. -/
theorem clearsExactly_iff (given : dbname ≠ []) (whole : 0 ∉ dbname) :
    ClearsExactly grammar dbname ↔ Ordinary dbname := by
  constructor
  · intro clears
    apply ordinary_of_runs grammar (by decide) rmForce_literal given _ rfl
    intro env _
    have found : (posix grammar).stat dbname (System.around env [dbname]) = true := by
      show ([dbname] ++ env.listed).contains (cString dbname) = true
      rw [cString_self whole]
      exact List.contains_iff_mem.mpr List.mem_cons_self
    have ran := clears (System.around env [dbname]) found
    rw [RunsOn, clear_ran grammar given whole found] at ran
    exact ran
  · intro ordinary system found
    exact ordinary.runsOn (by decide) rmForce_literal rfl (clear_ran grammar given whole found)

/-- `createSingle` creates exactly its path in every system exactly when the name is ordinary. -/
theorem createsSingleExactly_iff (given : dbname ≠ []) (whole : 0 ∉ dbname) :
    CreatesSingleExactly grammar dbname ↔ Ordinary dbname := by
  constructor
  · intro creates
    apply ordinary_of_runs grammar (by decide) mkdirParents_literal given _ rfl
    intro env unlisted
    have missing : (posix grammar).stat dbname (System.around env []) = false := by
      show ([] ++ env.listed).contains (cString dbname) = false
      rw [cString_self whole, ← Bool.not_eq_true, List.contains_iff_mem]
      exact unlisted
    have ran := creates (System.around env []) 0 missing
    rw [RunsOn, createSingle_ran grammar whole 0 missing] at ran
    exact ran
  · intro ordinary system dbType missing
    exact ordinary.runsOn (by decide) mkdirParents_literal rfl
      (createSingle_ran grammar whole dbType missing)

/-- `create` behaves as `createSingle` does before it opens the adapter. -/
theorem createsExactly_iff : CreatesExactly grammar dbname ↔ CreatesSingleExactly grammar dbname := by
  constructor
  · intro creates system dbType missing
    have ran := creates (fun _ _ system => (true, system)) (fun _ _ _ => rfl) system dbType missing
    exact ran
  · intro creates opens silent system dbType missing
    rw [RunsOn, create_ran grammar silent]
    exact creates system dbType missing

end

/-- The shell commands of the program touch exactly the path of a database, in every system and
under every grammar of expansions, exactly when the name of the database is ordinary. -/
theorem shell_commands_exact_iff (grammar : Grammar) (dbname : Bytes) (given : dbname ≠ [])
    (whole : 0 ∉ dbname) :
    (CreatesSingleExactly grammar dbname ↔ Ordinary dbname) ∧
      (CreatesExactly grammar dbname ↔ Ordinary dbname) ∧
      (ClearsExactly grammar dbname ↔ Ordinary dbname) :=
  ⟨createsSingleExactly_iff grammar given whole,
    (createsExactly_iff grammar).trans (createsSingleExactly_iff grammar given whole),
    clearsExactly_iff grammar given whole⟩

/-- On these names the shell meets no expansion and no second command. -/
def bareGrammar : Grammar := ⟨fun _ => none, fun _ _ => none⟩

theorem shell_commands_exact_iff_plain :
    CreatesSingleExactly bareGrammar [100, 98] ∧ CreatesExactly bareGrammar [100, 98] ∧
      ClearsExactly bareGrammar [100, 98] := by
  have ordinary : Ordinary [100, 98] := by decide
  obtain ⟨single, create, clear⟩ :=
    shell_commands_exact_iff bareGrammar [100, 98] (by decide) (by decide)
  exact ⟨single.mpr ordinary, create.mpr ordinary, clear.mpr ordinary⟩

/-- A blank in the name makes two arguments of it. -/
theorem shell_commands_split :
    ¬ ∀ (grammar : Grammar) (dbname : Bytes), dbname ≠ [] → 0 ∉ dbname →
      CreatesSingleExactly grammar dbname ∧ CreatesExactly grammar dbname ∧
        ClearsExactly grammar dbname := by
  intro claim
  have clears := (claim bareGrammar [97, 32, 98] (by decide) (by decide)).2.2
  have ran := clears (System.around (sparse none []) [[97, 32, 98]]) rfl
  exact absurd ran.1 (by decide)

section
variable {World Live : Type}

/-- This shell performs the programs that a command runs, one after the other. -/
def performing (grammar : Grammar) (stat : Bytes → World → Bool) (env : World → Environment)
    (perform : List Bytes → World → World) : Shell World where
  stat := stat
  system command world :=
    (runs grammar (env world) (cString command)).foldl (fun world argv => perform argv world) world

/-- `rm -rf` changes nothing outside of its operands, and no live object. -/
structure RemovesOperands (perform : List Bytes → World → World) (inside : Bytes → Bytes → Prop)
    (files : World → Bytes → ByteStore) (live : World → Live) : Prop where
  live : ∀ arguments world, live (perform (rmForce ++ arguments) world) = live world
  files : ∀ arguments world path,
    (∀ name ∈ operands (rmForce.tail ++ arguments), ¬ inside path name) →
    files (perform (rmForce ++ arguments) world) path = files world path

/-- Where `rm` keeps to its operands, a command of `clear` keeps to the directory of its name. -/
theorem performing_removesInside (grammar : Grammar) (stat : Bytes → World → Bool)
    (env : World → Environment) {perform : List Bytes → World → World}
    {inside : Bytes → Bytes → Prop} {files : World → Bytes → ByteStore} {live : World → Live}
    (removes : RemovesOperands perform inside files live) :
    (performing grammar stat env perform).RemovesInside inside files live := by
  have performed : ∀ dbname world, Named dbname →
      (performing grammar stat env perform).system (removal dbname) world =
        perform (rmForce ++ [dbname]) world := by
    rintro dbname world ⟨ordinary, whole⟩
    have command : cString (removal dbname) = line rmForce dbname :=
      cString_self (by simpa [removal] using whole)
    have performs : (performing grammar stat env perform).system (removal dbname) world =
        (runs grammar (env world) (cString (removal dbname))).foldl
          (fun world argv => perform argv world) world := rfl
    rw [performs, command,
      runs_literal grammar (env world) (by decide) rmForce_literal ordinary.literal]
    rfl
  constructor
  · intro dbname world named
    rw [performed dbname world named]
    exact removes.live [dbname] world
  · intro dbname world path named outside
    rw [performed dbname world named]
    apply removes.files
    intro name member
    have own : operands (rmForce.tail ++ [dbname]) = [dbname] :=
      (operands_singleton dbname).mpr named.1.path
    rw [own] at member
    rw [List.mem_singleton.mp member]
    exact outside

end

end DbBench
