import DbBench.Library.Transition

/-
This library compares two fallible machines that read the same inputs.
-/

namespace Transition

variable {State Other Input Output Fault : Type}

/-- Two results match when their faults are equal, or when their outputs are equal and their states
are related. -/
def Matches (Related : State → Other → Prop) :
    Except Fault (Output × State) → Except Fault (Output × Other) → Prop
  | .ok result, .ok expected => result.1 = expected.1 ∧ Related result.2 expected.2
  | .error fault, .error expected => fault = expected
  | _, _ => False

/-- Related states give matching results on every input. -/
def Bisimulates (machine : Machine State Input Output Fault)
    (abstract : Machine Other Input Output Fault) (Related : State → Other → Prop) : Prop :=
  ∀ state other input, Related state other →
    Matches Related (machine state input) (abstract other input)

theorem Matches.symm {Related : State → Other → Prop} {result : Except Fault (Output × State)}
    {expected : Except Fault (Output × Other)} (matching : Matches Related result expected) :
    Matches (fun other state => Related state other) expected result := by
  cases result with
  | ok result =>
      cases expected with
      | ok expected => exact ⟨matching.1.symm, matching.2⟩
      | error fault => exact matching
  | error fault =>
      cases expected with
      | ok expected => exact matching
      | error other => exact Eq.symm matching

/-- A result that matches a success is a success with the same output. -/
theorem Matches.ok {Related : State → Other → Prop} {output : Output} {next : State}
    {expected : Except Fault (Output × Other)}
    (matching : Matches Related (.ok (output, next)) expected) :
    ∃ other, expected = .ok (output, other) ∧ Related next other := by
  cases expected with
  | ok expected =>
      obtain ⟨said, other⟩ := expected
      obtain ⟨same, related⟩ := matching
      exact ⟨other, congrArg (fun word => Except.ok (word, other)) same.symm, related⟩
  | error fault => exact matching.elim

/-- Matching results show the same outputs and faults. -/
theorem Matches.outputs {Related : State → Other → Prop} {result : Except Fault (Output × State)}
    {expected : Except Fault (Output × Other)} (matching : Matches Related result expected) :
    result.map Prod.fst = expected.map Prod.fst := by
  cases result with
  | ok result =>
      cases expected with
      | ok expected => exact congrArg Except.ok matching.1
      | error fault => exact matching.elim
  | error fault =>
      cases expected with
      | ok expected => exact matching.elim
      | error other => exact congrArg Except.error matching

theorem Bisimulates.symm {machine : Machine State Input Output Fault}
    {abstract : Machine Other Input Output Fault} {Related : State → Other → Prop}
    (bisimulates : Bisimulates machine abstract Related) :
    Bisimulates abstract machine fun other state => Related state other :=
  fun other state input related => (bisimulates state other input related).symm

/-- Related states give matching runs. -/
theorem Bisimulates.run {machine : Machine State Input Output Fault}
    {abstract : Machine Other Input Output Fault} {Related : State → Other → Prop}
    (bisimulates : Bisimulates machine abstract Related) {state : State} {other : Other}
    (related : Related state other) (inputs : List Input) :
    Matches Related (run machine state inputs) (run abstract other inputs) := by
  induction inputs generalizing state other with
  | nil => exact ⟨rfl, related⟩
  | cons input rest ih =>
      have first := bisimulates state other input related
      cases step : machine state input with
      | ok result =>
          rw [step] at first
          obtain ⟨next, taken, kept⟩ := first.ok
          rw [run_cons_of_ok machine step, run_cons_of_ok abstract taken]
          have later := ih kept
          cases ran : Transition.run machine result.2 rest with
          | ok outcome =>
              rw [ran] at later
              obtain ⟨final, reached, ended⟩ := later.ok
              rw [reached]
              exact ⟨rfl, ended⟩
          | error fault =>
              rw [ran] at later
              cases reached : Transition.run abstract next rest with
              | ok outcome =>
                  rw [reached] at later
                  exact later.elim
              | error other =>
                  rw [reached] at later
                  exact later
      | error fault =>
          rw [step] at first
          cases taken : abstract other input with
          | ok result =>
              rw [taken] at first
              exact first.elim
          | error other =>
              rw [taken] at first
              simp only [Transition.run, step, taken, bind, Except.bind]
              exact first

/-- A property that every allowed step keeps holds at the end of a run, and the outputs on the way
are good when they are in every such step. -/
theorem run_outputs (machine : Machine State Input Output Fault) (Keeps : State → Prop)
    (Allowed : Input → Prop) (Good : Output → Prop)
    (step : ∀ state input output next, Keeps state → Allowed input →
      machine state input = .ok (output, next) → Good output ∧ Keeps next)
    {state final : State} {inputs : List Input} {outputs : List Output} (start : Keeps state)
    (allowed : ∀ input ∈ inputs, Allowed input)
    (ran : run machine state inputs = .ok (outputs, final)) :
    (∀ output ∈ outputs, Good output) ∧ Keeps final := by
  induction inputs generalizing state outputs with
  | nil =>
      cases ran
      exact ⟨by simp, start⟩
  | cons input rest ih =>
      obtain ⟨output, next, tail, first, tailRan, equal⟩ :=
        (run_cons_eq_ok machine state final input rest outputs).mp ran
      obtain ⟨good, kept⟩ :=
        step state input output next start (allowed input List.mem_cons_self) first
      obtain ⟨later, ended⟩ :=
        ih kept (fun other member => allowed other (List.mem_cons_of_mem input member)) tailRan
      rw [equal]
      exact ⟨List.forall_mem_cons.mpr ⟨good, later⟩, ended⟩

end Transition
