import Mathlib.Data.Option.Basic

/-
This file contains the command line of the benchmark and the record that it fills.
-/

namespace DbBench

/-- These are the options that the program declares. -/
inductive OptionName where
  | help
  | db
  | integrity
  | read
  | duration
  | threads
  | len
  | keys
  deriving DecidableEq

/-- This is the parsed command line. The flags `help` and `integrity` count by their presence. -/
abbrev VariablesMap := OptionName → Option Int32

/-- This is `struct options`. -/
structure Options where
  dbType : Int32
  readWeight : Int32
  writeWeight : Int32
  duration : Int32
  stringLength : Int32
  keys : Int32
  threads : UInt32
  deriving DecidableEq

/-- This is `struct options result{}`. -/
def Options.zero : Options := ⟨0, 0, 0, 0, 0, 0, 0⟩

/-- The program ends after the help text, after the integrity test, or without a database. -/
inductive Exit where
  | help
  | integrity
  | missing
  deriving DecidableEq

/-- Without the option the program leaves one core to itself. -/
def defaultThreads (numCores : UInt32) : UInt32 := if numCores = 0 then 1 else numCores - 1

/-- `numCores` is the answer of `std::thread::hardware_concurrency()`. -/
def handleArguments (numCores : UInt32) (vm : VariablesMap) : Except Exit Options :=
  if (vm .help).isSome then .error .help
  else if (vm .integrity).isSome then .error .integrity
  else match vm .db with
    | none => .error .missing
    | some dbType =>
        let result : Options := {Options.zero with dbType := dbType}
        let result : Options := {result with readWeight := (vm .read).getD 60}
        let result : Options := {result with writeWeight := 100 - result.readWeight}
        let result : Options := {result with duration := (vm .duration).getD 60}
        let result : Options :=
          {result with threads := ((vm .threads).map Int32.toUInt32).getD (defaultThreads numCores)}
        let result : Options := {result with stringLength := (vm .len).getD 5000}
        -- The block of `keys` assigns the string length once more.
        let result : Options := {result with stringLength := (vm .keys).getD 10000}
        .ok result

end DbBench
