import DbBench.Construction.DBProvider
import DbBench.Library.ShellLiteral

/-
This file states what the shell commands of the program should do: run one program on the path that
the `stat` before them examined.
-/

namespace DbBench

open CommandLine

/-- The C interface takes a string up to its first NUL. -/
def cString (text : Bytes) : Bytes := text.takeWhile fun c => c ≠ 0

/-- The operating system knows which paths exist, and it records the programs that `system` runs. -/
structure System where
  env : Environment
  present : Bytes → Bool
  listedPresent : ∀ path ∈ env.listed, present path = true
  ran : List (List Bytes)

/-- `system` gives its command to a POSIX shell. -/
def posix (grammar : Grammar) : Shell System where
  stat path system := system.present (cString path)
  system command system :=
    {system with ran := system.ran ++ runs grammar system.env (cString command)}

/-- The programs and their options. -/
def rmForce : List Bytes := [[114, 109], [45, 114, 102]]

def mkdirParents : List Bytes := [[109, 107, 100, 105, 114], [45, 112]]

/-- Between the two states one program ran. The name is its last argument and the only path that it
works on. -/
def RunsOn (program : List Bytes) (dbname : Bytes) (before after : System) : Prop :=
  after.ran = before.ran ++ [program ++ [dbname]] ∧ operands (program.tail ++ [dbname]) = [dbname]

/-- The shell takes the name literally, and no program takes it for an option. -/
structure Ordinary (dbname : Bytes) : Prop where
  literal : Literal dbname
  path : ¬ ∃ c rest, dbname = 45 :: c :: rest

instance (dbname : Bytes) : Decidable (Ordinary dbname) :=
  decidable_of_iff (Literal dbname ∧ ¬ (dbname.head? = some 45 ∧ dbname ≠ [45]))
    ⟨fun ⟨literal, path⟩ => ⟨literal, fun ⟨_, _, same⟩ => path (by simp [same])⟩,
      fun ⟨literal, path⟩ => ⟨literal, fun ⟨dashed, longer⟩ => by
        obtain ⟨rest, same⟩ := List.head?_eq_some_iff.mp dashed
        cases rest with
        | nil => exact longer same
        | cons c rest => exact path ⟨c, rest, same⟩⟩⟩

/-- Whenever `clear` finds its path, it removes that path and nothing else. -/
def ClearsExactly (grammar : Grammar) (dbname : Bytes) : Prop :=
  ∀ system : System, (posix grammar).stat dbname system = true →
    RunsOn rmForce dbname system ((posix grammar).clear dbname system)

/-- Whenever `createSingle` does not find its path, it creates that path and nothing else. -/
def CreatesSingleExactly (grammar : Grammar) (dbname : Bytes) : Prop :=
  ∀ (system : System) (dbType : Int), (posix grammar).stat dbname system = false →
    RunsOn mkdirParents dbname system
      (DBProvider.createSingle (posix grammar) dbname dbType system).2

/-- The same for `create`, where no `open` of an adapter runs a shell command. -/
def CreatesExactly (grammar : Grammar) (dbname : Bytes) : Prop :=
  ∀ (opens : Backend → Bytes → System → Bool × System),
    (∀ backend name system, (opens backend name system).2.ran = system.ran) →
    ∀ (system : System) (dbType : Int), (posix grammar).stat dbname system = false →
      RunsOn mkdirParents dbname system
        (DBProvider.create (posix grammar) opens dbname dbType system).2.2

end DbBench
