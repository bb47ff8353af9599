import DbBench.Construction.Clear
import DbBench.Library.Matching

/-
This file states that `clear` empties a store: until the next write no `get` finds a key, and a
write that waited before the `clear` never becomes visible.
-/

namespace DbBench

open KeyValue Transition

/-- These operations write nothing and queue nothing. -/
def Operation.Observes : Operation → Prop
  | .call (.get _) => True
  | .call .applyBatch => True
  | .clear => True
  | .call _ => False

/-- These operations queue a write to the key. -/
def Operation.Queues (key : Bytes) : Operation → Prop
  | .call (.putBatch other _) => other = key
  | .call (.delBatch other) => other = key
  | _ => False

section
variable {State Other Fault : Type}

/-- The reply of a `get` in this state. -/
def replyTo (operate : Machine State (Operation × Fault) Reply Misuse) (fault : Fault)
    (state : State) (key : Bytes) : Except Misuse Reply :=
  (operate state (.call (.get key), fault)).map Prod.fst

/-- No `get` finds its key. -/
def Hides (operate : Machine State (Operation × Fault) Reply Misuse) (quiet : Fault)
    (state : State) : Prop :=
  ∀ (key : Bytes) (value : Option Bytes), replyTo operate quiet state key ≠ .ok (.lookup true value)

/-- Until the next write no `get` finds its key, whatever fails. -/
def FindsNothing (operate : Machine State (Operation × Fault) Reply Misuse) (state : State) :
    Prop :=
  ∀ (inputs : List (Operation × Fault)) (replies : List Reply) (final : State),
    (∀ input ∈ inputs, input.1.Observes) → run operate state inputs = .ok (replies, final) →
    ∀ reply ∈ replies, ∀ value, reply ≠ .lookup true value

/-- No later `applyBatch` changes the answer for a key to which no write was queued since. -/
def ForgetsQueue (operate : Machine State (Operation × Fault) Reply Misuse) (quiet : Fault)
    (state : State) : Prop :=
  ∀ (inputs : List (Operation × Fault)) (replies : List Reply) (before : State),
    run operate state inputs = .ok (replies, before) →
    ∀ (fault : Fault) (reply : Reply) (after : State),
      operate before (.call .applyBatch, fault) = .ok (reply, after) →
      ∀ key, (∀ input ∈ inputs, ¬ input.1.Queues key) →
        ∀ first second, replyTo operate quiet before key = .ok first →
          replyTo operate quiet after key = .ok second → second = first

/-- A `clear` that returns in this state empties the store. -/
def ClearEmpties (operate : Machine State (Operation × Fault) Reply Misuse) (quiet : Fault)
    (state : State) : Prop :=
  ∀ (fault : Fault) (cleared : State), operate state (.clear, fault) = .ok (.unit, cleared) →
    FindsNothing operate cleared ∧ ForgetsQueue operate quiet cleared

/-- After every run of an opened object, `clear` empties the store exactly under this condition. -/
def EmptiesExactlyWhen (operate : Machine State (Operation × Fault) Reply Misuse) (quiet : Fault)
    (Opened Condition : State → Prop) : Prop :=
  ∀ (opened : State) (inputs : List (Operation × Fault)) (replies : List Reply) (state : State),
    Opened opened → run operate opened inputs = .ok (replies, state) →
    (ClearEmpties operate quiet state ↔ Condition state)

/-- Where no later `get` finds its key, the next one does not. -/
theorem FindsNothing.hides {operate : Machine State (Operation × Fault) Reply Misuse}
    {state : State} (finds : FindsNothing operate state) (quiet : Fault) :
    Hides operate quiet state := by
  intro key value shown
  cases step : operate state (.call (.get key), quiet) with
  | error fault =>
      rw [replyTo, step] at shown
      cases shown
  | ok result =>
      rw [replyTo, step] at shown
      have said : result.1 = .lookup true value := Except.ok.inj shown
      have ran : run operate state [(.call (.get key), quiet)] = .ok ([result.1], result.2) := by
        rw [run_cons_of_ok operate step]
        rfl
      exact finds _ _ _ (by simp [Operation.Observes]) ran result.1 (by simp) value said

/-- Related states show the same reply. -/
theorem replyTo_eq {operate : Machine State (Operation × Fault) Reply Misuse}
    {abstract : Machine Other (Operation × Fault) Reply Misuse} {Related : State → Other → Prop}
    (bisimulates : Bisimulates operate abstract Related) {state : State} {other : Other}
    (related : Related state other) (fault : Fault) (key : Bytes) :
    replyTo operate fault state key = replyTo abstract fault other key :=
  (bisimulates state other (.call (.get key), fault) related).outputs

theorem hides_iff {operate : Machine State (Operation × Fault) Reply Misuse}
    {abstract : Machine Other (Operation × Fault) Reply Misuse} {Related : State → Other → Prop}
    (bisimulates : Bisimulates operate abstract Related) {state : State} {other : Other}
    (related : Related state other) (quiet : Fault) :
    Hides operate quiet state ↔ Hides abstract quiet other := by
  simp only [Hides, replyTo_eq bisimulates related]

/-- What holds of a cleared state holds of every state that is related to it. -/
theorem FindsNothing.transfer {operate : Machine State (Operation × Fault) Reply Misuse}
    {abstract : Machine Other (Operation × Fault) Reply Misuse} {Related : State → Other → Prop}
    (bisimulates : Bisimulates operate abstract Related) {state : State} {other : Other}
    (related : Related state other) (finds : FindsNothing operate state) :
    FindsNothing abstract other := by
  intro inputs replies final observes ran
  obtain ⟨reached, ran', _⟩ := (ran ▸ (bisimulates.run related inputs).symm).ok
  exact finds inputs replies reached observes ran'

theorem ForgetsQueue.transfer {operate : Machine State (Operation × Fault) Reply Misuse}
    {abstract : Machine Other (Operation × Fault) Reply Misuse} {Related : State → Other → Prop}
    (bisimulates : Bisimulates operate abstract Related) {state : State} {other : Other}
    (related : Related state other) {quiet : Fault}
    (forgets : ForgetsQueue operate quiet state) : ForgetsQueue abstract quiet other := by
  intro inputs replies before ran fault reply after applied key unqueued first second shown later
  obtain ⟨before', ran', reached⟩ := (ran ▸ (bisimulates.run related inputs).symm).ok
  obtain ⟨after', applied', ended⟩ :=
    (applied ▸ (bisimulates before' before (.call .applyBatch, fault) reached).symm).ok
  rw [← replyTo_eq bisimulates reached] at shown
  rw [← replyTo_eq bisimulates ended] at later
  exact forgets inputs replies before' ran' fault reply after' applied' key unqueued first second
    shown later

theorem ClearEmpties.transfer {operate : Machine State (Operation × Fault) Reply Misuse}
    {abstract : Machine Other (Operation × Fault) Reply Misuse} {Related : State → Other → Prop}
    (bisimulates : Bisimulates operate abstract Related) {state : State} {other : Other}
    (related : Related state other) {quiet : Fault}
    (empties : ClearEmpties operate quiet state) : ClearEmpties abstract quiet other := by
  intro fault cleared step
  obtain ⟨cleared', step', reached⟩ :=
    (step ▸ (bisimulates state other (.clear, fault) related).symm).ok
  obtain ⟨finds, forgets⟩ := empties fault cleared' step'
  exact ⟨finds.transfer bisimulates reached, forgets.transfer bisimulates reached⟩

/-- `clear` empties the store of an object exactly when it empties the store of its abstraction. -/
theorem clearEmpties_iff {operate : Machine State (Operation × Fault) Reply Misuse}
    {abstract : Machine Other (Operation × Fault) Reply Misuse} {Related : State → Other → Prop}
    (bisimulates : Bisimulates operate abstract Related) {state : State} {other : Other}
    (related : Related state other) (quiet : Fault) :
    ClearEmpties operate quiet state ↔ ClearEmpties abstract quiet other :=
  ⟨fun empties => empties.transfer bisimulates related,
    fun empties => empties.transfer bisimulates.symm related⟩

end

section
variable {World Live : Type}

/-- The removal of a directory alters neither the live objects of the process nor the contents
that they hold open. -/
structure Shell.KeepsOpen (shell : Shell World) (files : World → Bytes → ByteStore)
    (live : World → Live) (held : World → Bytes → Prop) : Prop where
  live : ∀ dbname world, live (shell.system (removal dbname) world) = live world
  files : ∀ dbname world path, held world path →
    files (shell.system (removal dbname) world) path = files world path

/-- `clear` alters them no more, whether it finds the directory or not. -/
theorem Shell.KeepsOpen.clear {shell : Shell World} {files : World → Bytes → ByteStore}
    {live : World → Live} {held : World → Bytes → Prop} (keeps : shell.KeepsOpen files live held)
    (dbname : Bytes) (world : World) :
    live (shell.clear dbname world) = live world ∧
      ∀ path, held world path → files (shell.clear dbname world) path = files world path := by
  unfold Shell.clear
  split
  · exact ⟨keeps.live dbname world, keeps.files dbname world⟩
  · exact ⟨rfl, fun _ _ => rfl⟩

end

end DbBench
