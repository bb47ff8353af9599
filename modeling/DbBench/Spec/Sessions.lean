import DbBench.Construction.StateDB

/-
This file states that contents survive the end of an object: each session opens a fresh object on
one name, performs data operations on it and destroys it.
-/

namespace DbBench

open Transition

/-- One life of an object, with the library failures of each of its operations. -/
structure Session (Fault : Type) where
  opening : Fault
  calls : List (Call × Fault)
  closing : Fault

/-- These are the operations between `open` and the destructor. -/
def Session.operations {Fault : Type} (session : Session Fault) : List (Action × Fault) :=
  session.calls.map fun input => (.call input.1, input.2)

section
variable {Object World Fault : Type}

/-- Every `get` whose own library call meets no failure answers from this store. -/
def Answers (act : Machine (Object × World) (Action × Fault) Reply Misuse) (quiet : Fault)
    (state : Object × World) (store : ByteStore) : Prop :=
  ∀ key, (act state (.call (.get key), quiet)).map Prod.fst = .ok (shown (store key))

/-- The first session answers from some store, and every later one answers after its `open` as the
session before it did before its destructor. -/
def Survives (act : Machine (Object × World) (Action × Fault) Reply Misuse) (quiet : Fault)
    (Meets : Object × World → Action × Fault → Prop) (fresh : Object) (dbname : Bytes) :
    Option ByteStore → World → List (Session Fault) → Prop
  | _, _, [] => True
  | before, world, session :: later =>
      Meets (fresh, world) (.opening dbname, session.opening) →
      ∀ opened, act (fresh, world) (.opening dbname, session.opening) = .ok (.flag true, opened) →
        (∀ store, before = some store → Answers act quiet opened store) ∧
        ∀ replies final, Along act Meets opened session.operations →
          run act opened session.operations = .ok (replies, final) →
          Meets final (.closing, session.closing) →
          ∃ store, Answers act quiet final store ∧
            ∃ closed, act final (.closing, session.closing) = .ok (.unit, closed) ∧
              Survives act quiet Meets fresh dbname (some store) closed.2 later

/-- An invariant of the sessions of one name that leads from the contents of the world back to
them. -/
structure Keeping (act : Machine (Object × World) (Action × Fault) Reply Misuse) (quiet : Fault)
    (Meets : Object × World → Action × Fault → Prop) (fresh : Object) (dbname : Bytes)
    (contents : World → ByteStore) (Keeps : Object × World → Prop) : Prop where
  opens : ∀ world fault opened, Meets (fresh, world) (.opening dbname, fault) →
    act (fresh, world) (.opening dbname, fault) = .ok (.flag true, opened) →
      Keeps opened ∧ Answers act quiet opened (contents world)
  calls : ∀ state request fault reply next, Keeps state → Meets state (.call request, fault) →
    act state (.call request, fault) = .ok (reply, next) → Keeps next
  closes : ∀ state fault, Keeps state → Meets state (.closing, fault) →
    ∃ next, act state (.closing, fault) = .ok (.unit, next) ∧
      Answers act quiet state (contents next.2)

/-- The invariant carries the contents through every number of sessions. -/
theorem Keeping.survives {act : Machine (Object × World) (Action × Fault) Reply Misuse}
    {quiet : Fault} {Meets : Object × World → Action × Fault → Prop} {fresh : Object}
    {dbname : Bytes} {contents : World → ByteStore} {Keeps : Object × World → Prop}
    (keeping : Keeping act quiet Meets fresh dbname contents Keeps)
    (sessions : List (Session Fault)) {before : Option ByteStore} {world : World}
    (same : ∀ store, before = some store → store = contents world) :
    Survives act quiet Meets fresh dbname before world sessions := by
  induction sessions generalizing before world with
  | nil => trivial
  | cons session later ih =>
      intro meets opened opens
      obtain ⟨kept, answers⟩ := keeping.opens world session.opening opened meets opens
      refine ⟨fun store held => same store held ▸ answers, ?_⟩
      intro replies final along ran closing
      have shaped : ∀ input ∈ session.operations, ∃ request, input.1 = .call request := by
        intro input member
        obtain ⟨call, _, equal⟩ := List.mem_map.mp member
        exact ⟨call.1, by rw [← equal]⟩
      have keeps : Keeps final := by
        apply run_along_invariant act _ Keeps _ (along.and_inputs shaped) kept ran
        intro state input reply next kept conforms step
        obtain ⟨action, fault⟩ := input
        obtain ⟨meets, request, rfl⟩ := conforms
        exact keeping.calls state request fault reply next kept meets step
      obtain ⟨closed, closes, shows⟩ := keeping.closes final session.closing keeps closing
      refine ⟨contents closed.2, shows, closed, closes, ih ?_⟩
      intro store held
      exact (Option.some.inj held).symm

/-- Two sessions in a row: the second object answers as the first one did before its destructor. -/
def ReopensAlike (act : Machine (Object × World) (Action × Fault) Reply Misuse) (quiet : Fault)
    (fresh : Object) (dbname : Bytes) (world : World) (session : Session Fault) : Prop :=
  ∃ opened replies final closed reopened,
    act (fresh, world) (.opening dbname, session.opening) = .ok (.flag true, opened) ∧
      run act opened session.operations = .ok (replies, final) ∧
      act final (.closing, session.closing) = .ok (.unit, closed) ∧
      act (fresh, closed.2) (.opening dbname, quiet) = .ok (.flag true, reopened) ∧
      ∀ key, (act reopened (.call (.get key), quiet)).map Prod.fst =
        (act final (.call (.get key), quiet)).map Prod.fst

/-- This session does nothing without a failure. -/
def Session.quiet (fault : Fault) : Session Fault := ⟨fault, [], fault⟩

/-- Contents that survive are the same for the next object. -/
theorem Survives.reopensAlike
    {act : Machine (Object × World) (Action × Fault) Reply Misuse} {quiet : Fault}
    {Meets : Object × World → Action × Fault → Prop} {fresh : Object} {dbname : Bytes}
    {world : World} {session : Session Fault} {opened final closed reopened : Object × World}
    {replies : List Reply}
    (survives : Survives act quiet Meets fresh dbname none world [session, .quiet quiet])
    (meets : Meets (fresh, world) (.opening dbname, session.opening))
    (opens : act (fresh, world) (.opening dbname, session.opening) = .ok (.flag true, opened))
    (along : Along act Meets opened session.operations)
    (ran : run act opened session.operations = .ok (replies, final))
    (ending : Meets final (.closing, session.closing))
    (closes : act final (.closing, session.closing) = .ok (.unit, closed))
    (again : Meets (fresh, closed.2) (.opening dbname, quiet))
    (reopens : act (fresh, closed.2) (.opening dbname, quiet) = .ok (.flag true, reopened)) :
    ReopensAlike act quiet fresh dbname world session := by
  refine ⟨opened, replies, final, closed, reopened, opens, ran, closes, reopens, fun key => ?_⟩
  obtain ⟨store, answers, closed', closes', later⟩ :=
    (survives meets opened opens).2 replies final along ran ending
  rw [closes] at closes'
  cases closes'
  rw [answers key]
  exact (later again reopened reopens).1 store rfl key

end

end DbBench
