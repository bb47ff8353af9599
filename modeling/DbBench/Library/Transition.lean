import Mathlib.Data.List.Forall2

/-
This library runs fallible machines over lists of inputs.
-/

namespace Transition

variable {State Input Output Fault Other Ghost : Type}

/-- A machine answers one input and moves on, or stops with a fault. -/
abbrev Machine (State Input Output Fault : Type) :=
  State → Input → Except Fault (Output × State)

/-- A run feeds the inputs in order and collects the outputs. -/
def run (machine : Machine State Input Output Fault) :
    State → List Input → Except Fault (List Output × State)
  | state, [] => .ok ([], state)
  | state, input :: rest => do
      let (output, next) ← machine state input
      let (outputs, final) ← run machine next rest
      pure (output :: outputs, final)

/-- A bind succeeds exactly when both of its parts succeed. -/
theorem bind_eq_ok {A B : Type} (first : Except Fault A) (next : A → Except Fault B) (result : B) :
    (first >>= next) = .ok result ↔ ∃ value, first = .ok value ∧ next value = .ok result := by
  cases first with
  | error fault =>
      constructor
      · intro equal
        cases equal
      · rintro ⟨value, equal, _⟩
        cases equal
  | ok value =>
      constructor
      · intro equal
        exact ⟨value, rfl, equal⟩
      · rintro ⟨other, equal, result⟩
        cases equal
        exact result

@[simp] theorem run_nil (machine : Machine State Input Output Fault) (state : State) :
    run machine state [] = .ok ([], state) := rfl

/-- One successful step continues the run with the same later steps. -/
theorem run_cons_of_ok (machine : Machine State Input Output Fault) {state next : State}
    {input : Input} {output : Output} (step : machine state input = .ok (output, next))
    (rest : List Input) :
    run machine state (input :: rest) =
      (run machine next rest).map fun result => (output :: result.1, result.2) := by
  simp only [run, step, bind, Except.bind]
  cases run machine next rest <;> rfl

/-- A run over a longer list succeeds exactly when its first step and its tail succeed. -/
theorem run_cons_eq_ok (machine : Machine State Input Output Fault) (state final : State)
    (input : Input) (rest : List Input) (outputs : List Output) :
    run machine state (input :: rest) = .ok (outputs, final) ↔
      ∃ output next tail, machine state input = .ok (output, next) ∧
        run machine next rest = .ok (tail, final) ∧ outputs = output :: tail := by
  simp only [run, bind_eq_ok, Prod.exists, pure, Except.pure, Except.ok.injEq, Prod.mk.injEq]
  constructor
  · rintro ⟨output, next, step, tail, last, ran, equal, same⟩
    subst same
    exact ⟨output, next, tail, step, ran, equal.symm⟩
  · rintro ⟨output, next, tail, step, ran, equal⟩
    exact ⟨output, next, step, tail, final, ran, equal.symm, rfl⟩

/-- A run answers every input once. -/
theorem run_length (machine : Machine State Input Output Fault) {state final : State}
    {inputs : List Input} {outputs : List Output}
    (ran : run machine state inputs = .ok (outputs, final)) : outputs.length = inputs.length := by
  induction inputs generalizing state outputs with
  | nil =>
      cases ran
      rfl
  | cons input rest ih =>
      obtain ⟨output, next, tail, _, tailRan, equal⟩ :=
        (run_cons_eq_ok machine state final input rest outputs).mp ran
      rw [equal, List.length_cons, List.length_cons, ih tailRan]

/-- A property that every step keeps holds at the end of every run. -/
theorem run_invariant (machine : Machine State Input Output Fault) (Keeps : State → Prop)
    (step : ∀ state input output next, Keeps state →
      machine state input = .ok (output, next) → Keeps next)
    {state final : State} {inputs : List Input} {outputs : List Output} (start : Keeps state)
    (ran : run machine state inputs = .ok (outputs, final)) : Keeps final := by
  induction inputs generalizing state outputs with
  | nil =>
      cases ran
      exact start
  | cons input rest ih =>
      obtain ⟨output, next, tail, first, tailRan, _⟩ :=
        (run_cons_eq_ok machine state final input rest outputs).mp ran
      exact ih (step state input output next start first) tailRan

/-- Every step of a run meets a condition on the state before it and on its input. -/
def Along (machine : Machine State Input Output Fault) (Meets : State → Input → Prop) :
    State → List Input → Prop
  | _, [] => True
  | state, input :: rest => Meets state input ∧
      match machine state input with
      | .ok result => Along machine Meets result.2 rest
      | .error _ => True

/-- A ghost value records what the steps asked for and answered. -/
def record (advance : Ghost → Input → Output → Ghost) : Ghost → List Input → List Output → Ghost
  | ghost, input :: inputs, output :: outputs =>
      record advance (advance ghost input output) inputs outputs
  | ghost, _, _ => ghost

/-- A relation between state and record that every conforming step keeps holds at the end of
every conforming run. -/
theorem run_along (machine : Machine State Input Output Fault) (Meets : State → Input → Prop)
    (Related : State → Ghost → Prop) (advance : Ghost → Input → Output → Ghost)
    (step : ∀ state ghost input output next, Related state ghost → Meets state input →
      machine state input = .ok (output, next) → Related next (advance ghost input output))
    {state final : State} {ghost : Ghost} {inputs : List Input} {outputs : List Output}
    (along : Along machine Meets state inputs) (start : Related state ghost)
    (ran : run machine state inputs = .ok (outputs, final)) :
    Related final (record advance ghost inputs outputs) := by
  induction inputs generalizing state ghost outputs with
  | nil =>
      cases ran
      exact start
  | cons input rest ih =>
      obtain ⟨output, next, tail, first, tailRan, equal⟩ :=
        (run_cons_eq_ok machine state final input rest outputs).mp ran
      obtain ⟨meets, along⟩ := along
      simp only [first] at along
      rw [equal]
      exact ih along (step state ghost input output next start meets first) tailRan

/-- A property that every conforming step keeps holds at the end of every conforming run. -/
theorem run_along_invariant (machine : Machine State Input Output Fault)
    (Meets : State → Input → Prop) (Keeps : State → Prop)
    (step : ∀ state input output next, Keeps state → Meets state input →
      machine state input = .ok (output, next) → Keeps next)
    {state final : State} {inputs : List Input} {outputs : List Output}
    (along : Along machine Meets state inputs) (start : Keeps state)
    (ran : run machine state inputs = .ok (outputs, final)) : Keeps final := by
  exact @run_along State Input Output Fault Unit machine Meets (fun state _ => Keeps state)
    (fun ghost _ _ => ghost) (fun state _ => step state) state final () inputs outputs along start
    ran

/-- A condition that holds everywhere holds along every run. -/
theorem Along.of_forall {machine : Machine State Input Output Fault}
    {Meets : State → Input → Prop} (meets : ∀ state input, Meets state input) (state : State)
    (inputs : List Input) : Along machine Meets state inputs := by
  induction inputs generalizing state with
  | nil => trivial
  | cons input rest ih =>
      refine ⟨meets state input, ?_⟩
      split
      · exact ih _
      · trivial

/-- A relation that every step keeps between the state and the record holds at the end of
every run. -/
theorem run_recorded (machine : Machine State Input Output Fault) (Related : State → Ghost → Prop)
    (advance : Ghost → Input → Output → Ghost)
    (step : ∀ state ghost input output next, Related state ghost →
      machine state input = .ok (output, next) → Related next (advance ghost input output))
    {state final : State} {ghost : Ghost} {inputs : List Input} {outputs : List Output}
    (start : Related state ghost) (ran : run machine state inputs = .ok (outputs, final)) :
    Related final (record advance ghost inputs outputs) :=
  run_along machine (fun _ _ => True) Related advance
    (fun state ghost input output next related _ => step state ghost input output next related)
    (Along.of_forall (fun _ _ => trivial) state inputs) start ran

/-- A condition on the inputs alone joins the condition of a conforming run. -/
theorem Along.and_inputs {machine : Machine State Input Output Fault}
    {Meets : State → Input → Prop} {Allowed : Input → Prop} {state : State} {inputs : List Input}
    (along : Along machine Meets state inputs) (allowed : ∀ input ∈ inputs, Allowed input) :
    Along machine (fun state input => Meets state input ∧ Allowed input) state inputs := by
  induction inputs generalizing state with
  | nil => trivial
  | cons input rest ih =>
      obtain ⟨meets, along⟩ := along
      refine ⟨⟨meets, allowed input List.mem_cons_self⟩, ?_⟩
      split
      · rename_i result step
        simp only [step] at along
        exact ih along fun later member => allowed later (List.mem_cons_of_mem input member)
      · trivial

/-- Along a run that keeps a contract, one condition passes to another when it does so in every
step and keeps the invariant that this needs. -/
theorem along_of_along (machine : Machine State Input Output Fault) {Keeps : State → Prop}
    {Contract Given Wanted : State → Input → Prop}
    (imply : ∀ state input, Keeps state → Contract state input → Given state input →
      Wanted state input)
    (step : ∀ state input output next, Keeps state → Contract state input → Given state input →
      machine state input = .ok (output, next) → Keeps next)
    {state : State} {inputs : List Input} (start : Keeps state)
    (contract : Along machine Contract state inputs) (given : Along machine Given state inputs) :
    Along machine Wanted state inputs := by
  induction inputs generalizing state with
  | nil => trivial
  | cons input rest ih =>
      obtain ⟨here, contract⟩ := contract
      obtain ⟨meets, given⟩ := given
      refine ⟨imply state input start here meets, ?_⟩
      cases result : machine state input with
      | ok result' =>
          simp only [result] at contract given
          exact ih (step state input result'.1 result'.2 start here meets result) contract given
      | error fault => trivial

/-- A step ends in a state with one property or in a fault with the other. -/
def Ends (Kept : State → Prop) (Harmless : Fault → Prop) :
    Except Fault (Output × State) → Prop
  | .ok result => Kept result.2
  | .error fault => Harmless fault

/-- Every state of a run is good, and a fault that stops the run is harmless. -/
def Throughout (machine : Machine State Input Output Fault) (Good : State → Prop)
    (Harmless : Fault → Prop) : State → List Input → Prop
  | state, [] => Good state
  | state, input :: rest => Good state ∧
      Ends (fun next => Throughout machine Good Harmless next rest) Harmless (machine state input)

theorem Throughout.good {machine : Machine State Input Output Fault} {Good : State → Prop}
    {Harmless : Fault → Prop} {state : State} {inputs : List Input}
    (throughout : Throughout machine Good Harmless state inputs) : Good state := by
  cases inputs with
  | nil => exact throughout
  | cons input rest => exact throughout.1

/-- Conforming steps keep an invariant that implies the good property, so the property holds
throughout every conforming run. -/
theorem throughout_of_along (machine : Machine State Input Output Fault)
    {Keeps Good : State → Prop} {Harmless : Fault → Prop} {Meets : State → Input → Prop}
    (good : ∀ state, Keeps state → Good state)
    (step : ∀ state input, Keeps state → Meets state input →
      Ends Keeps Harmless (machine state input))
    {state : State} {inputs : List Input} (start : Keeps state)
    (along : Along machine Meets state inputs) :
    Throughout machine Good Harmless state inputs := by
  induction inputs generalizing state with
  | nil => exact good state start
  | cons input rest ih =>
      obtain ⟨meets, along⟩ := along
      have ends := step state input start meets
      refine ⟨good state start, ?_⟩
      cases result : machine state input with
      | ok result' =>
          rw [result] at ends
          simp only [result] at along
          exact ih ends along
      | error fault =>
          rw [result] at ends
          exact ends

/-- When every other step reaches a bad state or a harmful fault, the property holds throughout
exactly the conforming runs. -/
theorem throughout_iff_along (machine : Machine State Input Output Fault)
    {Keeps Good : State → Prop} {Harmless : Fault → Prop} {Meets : State → Input → Prop}
    (good : ∀ state, Keeps state → Good state)
    (step : ∀ state input, Keeps state → Meets state input →
      Ends Keeps Harmless (machine state input))
    (breaks : ∀ state input, Keeps state → ¬ Meets state input →
      Ends (fun next => ¬ Good next) (fun fault => ¬ Harmless fault) (machine state input))
    {state : State} {inputs : List Input} (start : Keeps state) :
    Throughout machine Good Harmless state inputs ↔ Along machine Meets state inputs := by
  refine ⟨fun throughout => ?_, throughout_of_along machine good step start⟩
  induction inputs generalizing state with
  | nil => trivial
  | cons input rest ih =>
      obtain ⟨_, throughout⟩ := throughout
      have meets : Meets state input := by
        by_contra other
        have ends := breaks state input start other
        cases result : machine state input with
        | ok result' =>
            rw [result] at ends throughout
            exact ends (Throughout.good throughout)
        | error fault =>
            rw [result] at ends throughout
            exact ends throughout
      have ends := step state input start meets
      refine ⟨meets, ?_⟩
      split
      · rename_i result' result
        rw [result] at ends throughout
        exact ih ends throughout
      · trivial

/-- A reference answers every input, so its runs never fault. -/
abbrev Reference (State Input Output : Type) := State → Input → Output × State

/-- This run of a reference collects its outputs. -/
def follow (reference : Reference Other Input Output) : Other → List Input → List Output × Other
  | other, [] => ([], other)
  | other, input :: rest =>
      let first := reference other input
      let later := follow reference first.2 rest
      (first.1 :: later.1, later.2)

@[simp] theorem follow_nil (reference : Reference Other Input Output) (other : Other) :
    follow reference other [] = ([], other) := rfl

@[simp] theorem follow_cons (reference : Reference Other Input Output) (other : Other)
    (input : Input) (rest : List Input) :
    follow reference other (input :: rest) =
      ((reference other input).1 :: (follow reference (reference other input).2 rest).1,
        (follow reference (reference other input).2 rest).2) := rfl

/-- A reference that reads one more input takes its last step from the earlier end. -/
theorem follow_snoc (reference : Reference Other Input Output) (other : Other)
    (inputs : List Input) (input : Input) :
    follow reference other (inputs ++ [input]) =
      ((follow reference other inputs).1 ++
          [(reference (follow reference other inputs).2 input).1],
        (reference (follow reference other inputs).2 input).2) := by
  induction inputs generalizing other with
  | nil => rfl
  | cons first rest ih => simp [ih]

/-- The output at one position is the answer in the state that the earlier inputs led to. -/
theorem follow_getElem (reference : Reference Other Input Output) (other : Other)
    (inputs : List Input) (position : Nat) :
    (follow reference other inputs).1[position]? = inputs[position]?.map fun input =>
      (reference (follow reference other (inputs.take position)).2 input).1 := by
  induction inputs generalizing other position with
  | nil => rfl
  | cons input rest ih =>
      cases position with
      | zero => rfl
      | succ position => exact ih (reference other input).2 position

/-- A relation that both references keep in every allowed step holds after all of their inputs. -/
theorem follow_related {First Second : Type} (first : Reference First Input Output)
    (second : Reference Second Input Output) (Related : First → Second → Prop)
    (Allowed : Input → Prop)
    (step : ∀ left right input, Allowed input → Related left right →
      Related (first left input).2 (second right input).2)
    {left : First} {right : Second} (inputs : List Input) (allowed : ∀ input ∈ inputs, Allowed input)
    (start : Related left right) :
    Related (follow first left inputs).2 (follow second right inputs).2 := by
  induction inputs generalizing left right with
  | nil => exact start
  | cons input rest ih =>
      apply ih (fun later member => allowed later (List.mem_cons_of_mem input member))
      exact step left right input (allowed input List.mem_cons_self) start

/-- A machine that simulates a reference step by step gives outputs that agree with it. -/
theorem run_simulation (machine : Machine State Input Output Fault)
    (reference : Reference Other Input Output) (Agrees : Output → Output → Prop)
    (Related : State → Other → Prop) (Allowed : Input → Prop)
    (step : ∀ state other input, Allowed input → Related state other →
      ∃ output next, machine state input = .ok (output, next) ∧
        Agrees output (reference other input).1 ∧ Related next (reference other input).2)
    {state : State} {other : Other} (inputs : List Input)
    (allowed : ∀ input ∈ inputs, Allowed input) (start : Related state other) :
    ∃ outputs final, run machine state inputs = .ok (outputs, final) ∧
      List.Forall₂ Agrees outputs (follow reference other inputs).1 ∧
      Related final (follow reference other inputs).2 := by
  induction inputs generalizing state other with
  | nil => exact ⟨[], state, rfl, .nil, start⟩
  | cons input rest ih =>
      obtain ⟨output, next, first, agrees, related⟩ :=
        step state other input (allowed input List.mem_cons_self) start
      obtain ⟨outputs, final, ran, agree, ended⟩ :=
        ih (fun later member => allowed later (List.mem_cons_of_mem input member)) related
      refine ⟨output :: outputs, final, ?_, .cons agrees agree, ended⟩
      rw [run_cons_of_ok machine first, ran]
      rfl

/-- A machine that gives the reference's output in every step gives all of its outputs. -/
theorem run_refines (machine : Machine State Input Output Fault)
    (reference : Reference Other Input Output) (Related : State → Other → Prop)
    (Allowed : Input → Prop)
    (step : ∀ state other input, Allowed input → Related state other →
      ∃ next, machine state input = .ok ((reference other input).1, next) ∧
        Related next (reference other input).2)
    {state : State} {other : Other} (inputs : List Input)
    (allowed : ∀ input ∈ inputs, Allowed input) (start : Related state other) :
    ∃ final, run machine state inputs = .ok ((follow reference other inputs).1, final) ∧
      Related final (follow reference other inputs).2 := by
  obtain ⟨outputs, final, ran, agree, ended⟩ :=
    run_simulation machine reference (· = ·) Related Allowed
      (fun state other input permitted related => by
        obtain ⟨next, taken, kept⟩ := step state other input permitted related
        exact ⟨_, next, taken, rfl, kept⟩) inputs allowed start
  rw [List.forall₂_eq_eq_eq] at agree
  exact ⟨final, agree ▸ ran, ended⟩

end Transition
