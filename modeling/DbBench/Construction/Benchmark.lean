import DbBench.Construction.Options
import DbBench.Construction.StateDB

/-
This file contains the benchmark: the loop that prepares the data, the workers and the totals that
`full_test` reports. The database is any implementation of the interface.
-/

namespace DbBench

open Transition

/-- This is `std::to_string` on an `int`. -/
def decimal (n : Int) : Bytes := if n < 0 then 45 :: toString n.natAbs else toString n.natAbs

/-- `std::uniform_int_distribution` returns an integer of its closed range. -/
structure Distribution where
  low : Int
  high : Int
  deriving DecidableEq

def Distribution.Returns (distribution : Distribution) (value : Int) : Prop :=
  distribution.low ≤ value ∧ value ≤ distribution.high

structure RandomEngine where
  uniformDistKey : Distribution
  uniformDist100 : Distribution
  deriving DecidableEq

/-- The constructor ignores the length of the values. -/
def RandomEngine.create (keyLength _valueLength : Int32) : RandomEngine :=
  ⟨⟨0, keyLength.toInt⟩, ⟨0, 100⟩⟩

/-- One iteration of a worker takes one draw of `randKeys` and one of `rand100`. -/
structure Draws where
  randKeys : Int
  rand100 : Int
  deriving DecidableEq

/-- The engine may return these draws. -/
def RandomEngine.Allows (r : RandomEngine) (draws : Draws) : Prop :=
  r.uniformDistKey.Returns draws.randKeys ∧ r.uniformDist100.Returns draws.rand100

/-- The string consists of `stringLength` characters `x`. The constructor of the string throws for a
negative length, so no worker runs then. -/
def Options.longString (opts : Options) : Bytes := List.replicate opts.stringLength.toInt.toNat 120

/-- The members of a worker. -/
structure Worker where
  opts : Options
  id : Nat
  readCount : UInt64
  writeCount : UInt64
  longString : Bytes

def Worker.create (opts : Options) (id : Nat) : Worker := ⟨opts, id, 0, 0, opts.longString⟩

section
variable {World : Type} (db : Reference World Call Reply)

/-- One iteration of the loop of `run` counts and issues one call. -/
def Worker.iterate (worker : Worker) (draws : Draws) (world : World) :
    (Call × Reply) × Worker × World :=
  let index := draws.randKeys
  let expectedValue := worker.longString ++ decimal index
  if draws.rand100 < worker.opts.readWeight.toInt then
    let worker := {worker with readCount := worker.readCount + 1}
    let (reply, world) := db world (.get (decimal index))
    ((.get (decimal index), reply), worker, world)
  else
    let worker := {worker with writeCount := worker.writeCount + 1}
    let (reply, world) := db world (.put (decimal index) expectedValue)
    ((.put (decimal index) expectedValue, reply), worker, world)

/-- The first loop of `full_test` writes the values of the indices below `keys`. -/
def populate (opts : Options) (world : World) : World :=
  (List.range opts.keys.toInt.toNat).foldl
    (fun world (i : Nat) => (db world (.put (decimal i) (opts.longString ++ decimal i))).2) world

/-- The workers of `full_test` share one database. -/
structure FullTest (World : Type) (threads : Nat) where
  workers : Fin threads → Worker
  world : World

/-- The workers start on the prepared data. -/
def FullTest.start (opts : Options) (world : World) : FullTest World opts.threads.toNat :=
  ⟨fun i => Worker.create opts i, populate db opts world⟩

/-- One worker runs one iteration. -/
def FullTest.step {threads : Nat} :
    Reference (FullTest World threads) (Fin threads × Draws) (Call × Reply) :=
  fun test input =>
    let (output, worker, world) := (test.workers input.1).iterate db input.2 test.world
    (output, ⟨Function.update test.workers input.1 worker, world⟩)

/-- This is the total that `full_test` reports as `Read  Ops`. -/
def FullTest.readCount {threads : Nat} (test : FullTest World threads) : UInt64 :=
  (List.finRange threads).foldl (fun count i => count + (test.workers i).readCount) 0

/-- This is the total that `full_test` reports as `Write Ops`. -/
def FullTest.writeCount {threads : Nat} (test : FullTest World threads) : UInt64 :=
  (List.finRange threads).foldl (fun count i => count + (test.workers i).writeCount) 0

end

end DbBench
