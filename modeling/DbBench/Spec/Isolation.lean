import DbBench.Spec.Clearing
import DbBench.Spec.ShellCommands

/-
This file states that two opened objects do not notice each other: whatever operations run on one
of them, the other gives the same answers.
-/

namespace DbBench

open KeyValue Transition

section
variable {Object World Input Output Fault : Type}

/-- Two objects work in one world. The flag selects the object that performs the operation. -/
def pair (operate : Machine (Object × World) Input Output Fault) :
    Machine ((Object × Object) × World) (Bool × Input) Output Fault
  | ((first, second), world), (true, input) => do
      let (output, first, world) ← operate (first, world) input
      pure (output, (first, second), world)
  | ((first, second), world), (false, input) => do
      let (output, second, world) ← operate (second, world) input
      pure (output, (first, second), world)

/-- The machine of one object, with the library failures of each operation. -/
abbrev Operate (Object World Fault : Type) :=
  Machine (Object × World) (Operation × Fault) Reply Misuse

/-- This machine performs the data operations only. -/
def dataOf (operate : Operate Object World Fault) :
    Machine (Object × World) (Call × Fault) Reply Misuse :=
  fun state input => operate state (.call input.1, input.2)

/-- The replies to a sequence of data operations. -/
def repliesTo (operate : Operate Object World Fault) (state : Object × World)
    (calls : List (Call × Fault)) : Except Misuse (List Reply) :=
  (run (dataOf operate) state calls).map Prod.fst

/-- No operation of the acting object changes what any later sequence of data operations on the
other object answers. -/
def Undisturbed (operate : Operate Object World Fault) (acting other : Object) (world : World) :
    Prop :=
  ∀ input reply next after, operate (acting, world) input = .ok (reply, next, after) →
    ∀ calls, repliesTo operate (other, after) calls = repliesTo operate (other, world) calls

/-- Two states with a common abstraction give the same replies. -/
theorem repliesTo_eq {Abstract : Type} {operate : Operate Object World Fault}
    {abstract : Machine Abstract (Call × Fault) Reply Misuse}
    {Related : Object × World → Abstract → Prop}
    (bisimulates : Bisimulates (dataOf operate) abstract Related) {first second : Object × World}
    {common : Abstract} (left : Related first common) (right : Related second common)
    (calls : List (Call × Fault)) : repliesTo operate first calls = repliesTo operate second calls :=
  (bisimulates.run left calls).outputs.trans (bisimulates.run right calls).outputs.symm

/-- In this state neither object disturbs the other. -/
def Isolated (operate : Operate Object World Fault) (state : (Object × Object) × World) : Prop :=
  Undisturbed operate state.1.1 state.1.2 state.2 ∧ Undisturbed operate state.1.2 state.1.1 state.2

/-- Two objects were opened under two names, the second one after any run of the first. -/
inductive BothOpened (operate : Operate Object World Fault)
    (Opens : Bytes → World → Object × World → Prop) (firstName secondName : Bytes) :
    (Object × Object) × World → Prop where
  | opened {world : World} {start middle : Object × World} {second : Object} {after : World}
      {inputs : List (Operation × Fault)} {replies : List Reply}
      (first : Opens firstName world start) (ran : run operate start inputs = .ok (replies, middle))
      (later : Opens secondName middle.2 (second, after)) :
      BothOpened operate Opens firstName secondName ((middle.1, second), after)

/-- Objects under separate names are isolated in every state of every interleaving. -/
def IsolatesStores (operate : Operate Object World Fault)
    (Opens : Bytes → World → Object × World → Prop) (Separate : Bytes → Bytes → Prop) : Prop :=
  ∀ firstName secondName, Separate firstName secondName →
    ∀ start, BothOpened operate Opens firstName secondName start →
      ∀ inputs replies state, run (pair operate) start inputs = .ok (replies, state) →
        Isolated operate state

/-- Two objects answer from one store in every state of every interleaving. -/
def SharesStore (operate : Operate Object World Fault)
    (Opens : Bytes → World → Object × World → Prop) (quiet : Fault) : Prop :=
  ∀ firstName secondName start, BothOpened operate Opens firstName secondName start →
    ∀ inputs replies state, run (pair operate) start inputs = .ok (replies, state) →
      ∃ store : ByteStore, ∀ key,
        replyTo operate quiet (state.1.1, state.2) key = .ok (shown (store key)) ∧
          replyTo operate quiet (state.1.2, state.2) key = .ok (shown (store key))

/-- This invariant of two objects is symmetric, and an operation of the first one keeps it without
disturbing the second. -/
structure Sparing (operate : Operate Object World Fault)
    (Kept : Object → Object → World → Prop) : Prop where
  swap : ∀ first second world, Kept first second world → Kept second first world
  keeps : ∀ acting other world input reply next after, Kept acting other world →
    operate (acting, world) input = .ok (reply, next, after) → Kept next other after
  spares : ∀ acting other world, Kept acting other world → Undisturbed operate acting other world

/-- A symmetric invariant that every operation of the first object keeps holds at the end of every
interleaving. -/
theorem pair_invariant {operate : Operate Object World Fault}
    {Kept : Object → Object → World → Prop}
    (swap : ∀ first second world, Kept first second world → Kept second first world)
    (keeps : ∀ acting other world input reply next after, Kept acting other world →
      operate (acting, world) input = .ok (reply, next, after) → Kept next other after)
    {start state : (Object × Object) × World} {inputs : List (Bool × Operation × Fault)}
    {replies : List Reply} (kept : Kept start.1.1 start.1.2 start.2)
    (ran : run (pair operate) start inputs = .ok (replies, state)) :
    Kept state.1.1 state.1.2 state.2 := by
  apply run_invariant (pair operate) (fun state => Kept state.1.1 state.1.2 state.2) _ kept ran
  rintro ⟨⟨first, second⟩, world⟩ ⟨side, input⟩ reply next kept step
  cases side with
  | true =>
      obtain ⟨⟨said, object, after⟩, acted, equal⟩ := (bind_eq_ok _ _ _).mp step
      cases equal
      exact keeps _ _ _ _ _ _ _ kept acted
  | false =>
      obtain ⟨⟨said, object, after⟩, acted, equal⟩ := (bind_eq_ok _ _ _).mp step
      cases equal
      exact swap _ _ _ (keeps _ _ _ _ _ _ _ (swap _ _ _ kept) acted)

/-- Where the invariant holds at the start, the objects are isolated in every state of every
interleaving. -/
theorem Sparing.isolated {operate : Operate Object World Fault}
    {Kept : Object → Object → World → Prop} (sparing : Sparing operate Kept)
    {start state : (Object × Object) × World} {inputs : List (Bool × Operation × Fault)}
    {replies : List Reply} (kept : Kept start.1.1 start.1.2 start.2)
    (ran : run (pair operate) start inputs = .ok (replies, state)) : Isolated operate state := by
  have ends := pair_invariant sparing.swap sparing.keeps kept ran
  exact ⟨sparing.spares _ _ _ ends, sparing.spares _ _ _ (sparing.swap _ _ _ ends)⟩

end

/-- The directory of a name holds the name itself and its shard paths, and directories form a
tree. -/
structure Directories (inside : Bytes → Bytes → Prop) : Prop where
  self : ∀ name, inside name name
  shard : ∀ name idx, inside (shardPath name idx) name
  tree : ∀ path first second, inside path first → inside path second →
    inside first second ∨ inside second first

/-- The name is a path, and the shell takes it for nothing else. -/
def Named (name : Bytes) : Prop := Ordinary name ∧ 0 ∉ name

instance (name : Bytes) : Decidable (Named name) := inferInstanceAs (Decidable (_ ∧ _))

/-- The directories of the two names are distinct and neither is nested in the other. -/
structure Separate (inside : Bytes → Bytes → Prop) (first second : Bytes) : Prop where
  named : Named first ∧ Named second
  apart : ¬ inside first second ∧ ¬ inside second first

theorem Separate.symm {inside : Bytes → Bytes → Prop} {first second : Bytes}
    (separate : Separate inside first second) : Separate inside second first :=
  ⟨separate.named.symm, separate.apart.symm⟩

/-- No path lies in two separate directories. -/
theorem Separate.outside {inside : Bytes → Bytes → Prop} (directories : Directories inside)
    {first second : Bytes} (separate : Separate inside first second) {path : Bytes}
    (within : inside path second) : ¬ inside path first := by
  intro other
  rcases directories.tree path first second other within with nested | nested
  · exact separate.apart.1 nested
  · exact separate.apart.2 nested

section
variable {World Live : Type}

/-- The removal of a name changes only files inside its directory, and no live object of the
process. -/
structure Shell.RemovesInside (shell : Shell World) (inside : Bytes → Bytes → Prop)
    (files : World → Bytes → ByteStore) (live : World → Live) : Prop where
  live : ∀ dbname world, Named dbname → live (shell.system (removal dbname) world) = live world
  files : ∀ dbname world path, Named dbname → ¬ inside path dbname →
    files (shell.system (removal dbname) world) path = files world path

theorem Shell.RemovesInside.clear {shell : Shell World} {inside : Bytes → Bytes → Prop}
    {files : World → Bytes → ByteStore} {live : World → Live}
    (removes : shell.RemovesInside inside files live) {dbname : Bytes} (named : Named dbname)
    (world : World) :
    live (shell.clear dbname world) = live world ∧
      ∀ path, ¬ inside path dbname → files (shell.clear dbname world) path = files world path := by
  unfold Shell.clear
  split
  · exact ⟨removes.live dbname world named, fun path => removes.files dbname world path named⟩
  · exact ⟨rfl, fun _ _ => rfl⟩

end

end DbBench
