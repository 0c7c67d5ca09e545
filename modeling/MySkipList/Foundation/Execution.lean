import Mathlib

namespace MySkipList.Foundation

/-- A fault is an undefined access or number, a loop without an end, or an exception that nobody catches. -/
inductive Fault where
  | nullPointer
  | danglingPointer
  | outOfBounds
  | doubleFree
  | signedOverflow
  | divergence
  | uncaughtException
  deriving DecidableEq

/-- An execution returns a value or stops at its first fault. -/
abbrev Exec (A : Type) := Except Fault A

@[simp] theorem Exec.ok_bind {A B : Type} (value : A) (next : A → Exec B) :
    ((Except.ok value : Exec A) >>= next) = next value := rfl

@[simp] theorem Exec.error_bind {A B : Type} (fault : Fault) (next : A → Exec B) :
    ((Except.error fault : Exec A) >>= next) = Except.error fault := rfl

@[simp] theorem Exec.pure_eq {A : Type} (value : A) :
    (pure value : Exec A) = Except.ok value := rfl

@[simp] theorem Exec.throw_eq {A : Type} (fault : Fault) :
    (throw fault : Exec A) = Except.error fault := rfl

/-- A sequence returns exactly when both of its parts return. -/
theorem Exec.bind_eq_ok {A B : Type} (first : Exec A) (next : A → Exec B) (result : B) :
    (first >>= next) = Except.ok result ↔ ∃ value, first = Except.ok value ∧ next value = Except.ok result := by
  cases first <;> simp

section Runs
variable {State Abstract Input Output : Type}

/-- A run feeds the inputs to the step function and collects the outputs. -/
def run (step : State → Input → Exec (Output × State)) : State → List Input → Exec (List Output × State)
  | state, [] => pure ([], state)
  | state, input :: rest => do
      let (output, middle) ← step state input
      let (outputs, final) ← run step middle rest
      pure (output :: outputs, final)

@[simp] theorem run_nil (step : State → Input → Exec (Output × State)) (state : State) :
    run step state [] = .ok ([], state) := rfl

/-- A run of a nonempty input list is its first step and the run of the rest. -/
theorem run_cons (step : State → Input → Exec (Output × State)) (state : State) (input : Input)
    (rest : List Input) :
    run step state (input :: rest) = (do
      let (output, middle) ← step state input
      let (outputs, final) ← run step middle rest
      pure (output :: outputs, final)) := rfl

/-- A run that returns is a first step that returns and a run of the rest that returns. -/
theorem run_cons_eq_ok (step : State → Input → Exec (Output × State)) (state final : State)
    (input : Input) (rest : List Input) (outputs : List Output) :
    run step state (input :: rest) = .ok (outputs, final) ↔
      ∃ output middle later, step state input = .ok (output, middle) ∧
        run step middle rest = .ok (later, final) ∧ outputs = output :: later := by
  rw [run_cons]
  constructor
  · intro returned
    obtain ⟨⟨output, middle⟩, first, returned⟩ := (Exec.bind_eq_ok _ _ _).mp returned
    obtain ⟨⟨later, last⟩, second, returned⟩ := (Exec.bind_eq_ok _ _ _).mp returned
    simp only [Exec.pure_eq, Except.ok.injEq, Prod.mk.injEq] at returned
    rcases returned with ⟨rfl, rfl⟩
    exact ⟨output, middle, later, first, second, rfl⟩
  · rintro ⟨output, middle, later, first, second, rfl⟩
    simp [first, second]

/-- A run of two input lists is the run of the first and then of the second. -/
theorem run_append_eq_ok (step : State → Input → Exec (Output × State)) (state final : State)
    (first second : List Input) (outputs : List Output) :
    run step state (first ++ second) = .ok (outputs, final) ↔
      ∃ early middle late, run step state first = .ok (early, middle) ∧
        run step middle second = .ok (late, final) ∧ outputs = early ++ late := by
  induction first generalizing state outputs with
  | nil => simp
  | cons input rest ih =>
      rw [List.cons_append]
      constructor
      · intro returned
        obtain ⟨output, next, later, stepped, continued, rfl⟩ := (run_cons_eq_ok ..).mp returned
        obtain ⟨early, middle, late, start, finish, rfl⟩ := (ih next later).mp continued
        exact ⟨output :: early, middle, late,
          (run_cons_eq_ok ..).mpr ⟨output, next, early, stepped, start, rfl⟩, finish, rfl⟩
      · rintro ⟨early, middle, late, start, finish, rfl⟩
        obtain ⟨output, next, later, stepped, continued, rfl⟩ := (run_cons_eq_ok ..).mp start
        exact (run_cons_eq_ok ..).mpr ⟨output, next, later ++ late, stepped,
          (ih next (later ++ late)).mpr ⟨later, middle, late, continued, finish, rfl⟩, rfl⟩

/-- A step that always returns and extends an invariant of the past inputs and outputs gives runs that do so. -/
theorem run_total_history (step : State → Input → Exec (Output × State))
    (Invariant : List Input → List Output → State → Prop)
    (total : ∀ past answers state input, Invariant past answers state →
      ∃ output next, step state input = .ok (output, next) ∧ Invariant (past ++ [input]) (answers ++ [output]) next)
    (past : List Input) (answers : List Output) (state : State) (inputs : List Input)
    (holds : Invariant past answers state) :
    ∃ outputs final, run step state inputs = .ok (outputs, final) ∧
      Invariant (past ++ inputs) (answers ++ outputs) final := by
  induction inputs generalizing past answers state with
  | nil => exact ⟨[], state, rfl, by rwa [List.append_nil, List.append_nil]⟩
  | cons input rest ih =>
      obtain ⟨output, next, stepped, kept⟩ := total past answers state input holds
      obtain ⟨outputs, final, continued, result⟩ := ih (past ++ [input]) (answers ++ [output]) next kept
      refine ⟨output :: outputs, final, by simp [run_cons, stepped, continued], ?_⟩
      rwa [List.append_assoc, List.append_assoc, List.singleton_append, List.singleton_append] at result

/-- A step that always returns into its invariant gives runs that always return into it. -/
theorem run_total (step : State → Input → Exec (Output × State)) (Invariant : State → Prop)
    (total : ∀ state input, Invariant state →
      ∃ output next, step state input = .ok (output, next) ∧ Invariant next)
    (state : State) (inputs : List Input) (holds : Invariant state) :
    ∃ outputs final, run step state inputs = .ok (outputs, final) ∧ Invariant final :=
  run_total_history step (fun _ _ state => Invariant state) (fun _ _ => total) [] [] state inputs holds

/-- A step that always returns and extends an invariant of the past inputs gives runs that do so. -/
theorem run_total_past (step : State → Input → Exec (Output × State)) (Invariant : List Input → State → Prop)
    (total : ∀ past state input, Invariant past state →
      ∃ output next, step state input = .ok (output, next) ∧ Invariant (past ++ [input]) next)
    (past : List Input) (state : State) (inputs : List Input) (holds : Invariant past state) :
    ∃ outputs final, run step state inputs = .ok (outputs, final) ∧ Invariant (past ++ inputs) final :=
  run_total_history step (fun past _ state => Invariant past state) (fun past _ => total past) past [] state inputs holds

/-- A machine with a step that keeps its invariant and lowers a measure until the goal has a run to the goal. -/
theorem run_reaches (step : State → Input → Exec (Output × State)) (Invariant Goal : State → Prop)
    (measure : State → Nat)
    (progress : ∀ state, Invariant state → ¬ Goal state →
      ∃ input output next, step state input = .ok (output, next) ∧ Invariant next ∧ measure next < measure state)
    (state : State) (holds : Invariant state) :
    ∃ inputs outputs final, run step state inputs = .ok (outputs, final) ∧ Goal final := by
  induction size : measure state using Nat.strong_induction_on generalizing state with
  | _ size ih =>
      by_cases done : Goal state
      · exact ⟨[], [], state, rfl, done⟩
      · obtain ⟨input, output, next, stepped, kept, lower⟩ := progress state holds done
        obtain ⟨inputs, outputs, final, continued, reached⟩ := ih (measure next) (size ▸ lower) next kept rfl
        exact ⟨input :: inputs, output :: outputs, final,
          (run_cons_eq_ok ..).mpr ⟨output, next, outputs, stepped, continued, rfl⟩, reached⟩

/-- The abstract machine answers every input. -/
def abstractRun (step : Abstract → Input → Output × Abstract) : Abstract → List Input → List Output × Abstract
  | state, [] => ([], state)
  | state, input :: rest =>
      let result := abstractRun step (step state input).2 rest
      ((step state input).1 :: result.1, result.2)

theorem abstractRun_append (step : Abstract → Input → Output × Abstract) (state : Abstract)
    (first second : List Input) :
    (abstractRun step state (first ++ second)).2 = (abstractRun step (abstractRun step state first).2 second).2 := by
  induction first generalizing state with
  | nil => rfl
  | cons input rest ih => exact ih _

/-- The last output of a run is the output of its last step. -/
theorem abstractRun_last (step : Abstract → Input → Output × Abstract) (state : Abstract)
    (inputs : List Input) (input : Input) :
    (abstractRun step state (inputs ++ [input])).1.getLast? =
      some (step (abstractRun step state inputs).2 input).1 := by
  induction inputs generalizing state with
  | nil => rfl
  | cons first rest ih => rw [List.cons_append, abstractRun, List.getLast?_cons, ih]; rfl

/-- Two machines that always return and stay related on matching inputs give runs that do so. -/
theorem run_related {Other Input' Output' : Type} (step : State → Input → Exec (Output × State))
    (step' : Other → Input' → Exec (Output' × Other)) (Matching : Input → Input' → Prop) (Related : State → Other → Prop)
    (matched : ∀ state other input input', Related state other → Matching input input' →
      ∃ output next output' next', step state input = .ok (output, next) ∧
        step' other input' = .ok (output', next') ∧ Related next next')
    (state : State) (other : Other) {inputs : List Input} {inputs' : List Input'}
    (matching : List.Forall₂ Matching inputs inputs') (related : Related state other) :
    ∃ outputs final outputs' final', run step state inputs = .ok (outputs, final) ∧
      run step' other inputs' = .ok (outputs', final') ∧ Related final final' := by
  induction matching generalizing state other with
  | nil => exact ⟨[], state, [], other, rfl, rfl, related⟩
  | cons same _ ih =>
      obtain ⟨output, next, output', next', stepped, stepped', kept⟩ := matched state other _ _ related same
      obtain ⟨outputs, final, outputs', final', continued, continued', result⟩ := ih next next' kept
      exact ⟨output :: outputs, final, output' :: outputs', final', by simp [run_cons, stepped, continued],
        by simp [run_cons, stepped', continued'], result⟩

/-- The steps that a run takes, each with the state before it, up to its first fault. -/
def visits (step : State → Input → Exec (Output × State)) : State → List Input → List (State × Input)
  | _, [] => []
  | state, input :: rest => (state, input) :: match step state input with
      | .ok (_, next) => visits step next rest
      | .error _ => []

theorem visits_cons_ok {step : State → Input → Exec (Output × State)} {state next : State} {input : Input}
    {output : Output} (stepped : step state input = .ok (output, next)) (rest : List Input) :
    visits step state (input :: rest) = (state, input) :: visits step next rest := by
  rw [visits, stepped]

/-- A visited step comes after a part of the run that returns. -/
theorem visits_split {step : State → Input → Exec (Output × State)} {state reached : State} {inputs : List Input}
    {input : Input} (member : (reached, input) ∈ visits step state inputs) :
    ∃ before after outputs, inputs = before ++ input :: after ∧ run step state before = .ok (outputs, reached) := by
  induction inputs generalizing state with
  | nil => simp [visits] at member
  | cons first rest ih =>
      rcases List.mem_cons.mp member with same | later
      · obtain ⟨rfl, rfl⟩ := Prod.mk.inj same
        exact ⟨[], rest, [], rfl, rfl⟩
      · cases stepped : step state first with
        | error fault => simp [stepped] at later
        | ok result =>
            obtain ⟨output, next⟩ := result
            simp only [stepped] at later
            obtain ⟨before, after, outputs, rfl, returned⟩ := ih later
            exact ⟨first :: before, after, output :: outputs, rfl, by simp [run_cons, stepped, returned]⟩

/-- Every step of the run meets the condition in the state before it. -/
def Meets (step : State → Input → Exec (Output × State)) (Condition : State → Input → Prop) (state : State)
    (inputs : List Input) : Prop :=
  ∀ visit ∈ visits step state inputs, Condition visit.1 visit.2

theorem Meets.first {step : State → Input → Exec (Output × State)} {Condition : State → Input → Prop}
    {state : State} {input : Input} {rest : List Input} (meets : Meets step Condition state (input :: rest)) :
    Condition state input :=
  meets (state, input) (List.mem_cons_self ..)

theorem Meets.rest {step : State → Input → Exec (Output × State)} {Condition : State → Input → Prop}
    {state next : State} {input : Input} {rest : List Input} {output : Output}
    (meets : Meets step Condition state (input :: rest)) (stepped : step state input = .ok (output, next)) :
    Meets step Condition next rest := by
  intro visit member
  apply meets
  rw [visits_cons_ok stepped]
  exact List.mem_cons_of_mem _ member

theorem Meets.cons {step : State → Input → Exec (Output × State)} {Condition : State → Input → Prop}
    {state next : State} {input : Input} {rest : List Input} {output : Output} (first : Condition state input)
    (stepped : step state input = .ok (output, next)) (later : Meets step Condition next rest) :
    Meets step Condition state (input :: rest) := by
  rw [Meets, visits_cons_ok stepped]
  exact List.forall_mem_cons.mpr ⟨first, later⟩

theorem Meets.nil {step : State → Input → Exec (Output × State)} {Condition : State → Input → Prop}
    {state : State} : Meets step Condition state [] := by
  simp [Meets, visits]

/-- A machine whose steps have one outcome only under the condition. Every other step does what `undefined` says. -/
def guarded (Defined : State → Input → Prop) [∀ state input, Decidable (Defined state input)]
    (undefined step : State → Input → Exec (Output × State)) (state : State) (input : Input) : Exec (Output × State) :=
  if Defined state input then step state input else undefined state input

/-- A run of the guarded machine whose steps are all defined is a run of the machine. -/
theorem run_guarded {Defined Condition : State → Input → Prop} [∀ state input, Decidable (Defined state input)]
    {undefined step : State → Input → Exec (Output × State)}
    (defined : ∀ state input, Condition state input → Defined state input) {state : State} {inputs : List Input}
    (meets : Meets (guarded Defined undefined step) Condition state inputs) :
    run (guarded Defined undefined step) state inputs = run step state inputs ∧ Meets step Condition state inputs := by
  induction inputs generalizing state with
  | nil => exact ⟨rfl, .nil⟩
  | cons input rest ih =>
      have same : guarded Defined undefined step state input = step state input :=
        if_pos (defined state input meets.first)
      cases stepped : step state input with
      | error fault =>
          refine ⟨by simp [run_cons, same, stepped], fun visit member => ?_⟩
          obtain rfl : visit = (state, input) := by simpa [visits, stepped] using member
          exact meets.first
      | ok result =>
          obtain ⟨output, next⟩ := result
          obtain ⟨continued, later⟩ := ih (meets.rest (same.trans stepped))
          exact ⟨by simp [run_cons, same, stepped, continued], .cons meets.first stepped later⟩

/-- An invariant of the steps, the outputs and the state that every step keeps under the condition holds at the end of
the run. -/
theorem run_history_of_meets (step : State → Input → Exec (Output × State)) (Condition : State → Input → Prop)
    (Invariant : List (State × Input) → List Output → State → Prop)
    (kept : ∀ past answers state input output next, Invariant past answers state → Condition state input →
      step state input = .ok (output, next) → Invariant (past ++ [(state, input)]) (answers ++ [output]) next)
    (past : List (State × Input)) (answers : List Output) (state final : State) (inputs : List Input)
    (outputs : List Output) (holds : Invariant past answers state) (meets : Meets step Condition state inputs)
    (returned : run step state inputs = .ok (outputs, final)) :
    Invariant (past ++ visits step state inputs) (answers ++ outputs) final := by
  induction inputs generalizing past answers state outputs with
  | nil =>
      simp only [run_nil, Except.ok.injEq, Prod.mk.injEq] at returned
      rw [visits, List.append_nil, ← returned.1, ← returned.2, List.append_nil]
      exact holds
  | cons input rest ih =>
      obtain ⟨output, next, later, stepped, continued, rfl⟩ := (run_cons_eq_ok ..).mp returned
      have result := ih _ _ next later (kept past answers state input output next holds meets.first stepped)
        (meets.rest stepped) continued
      rw [visits_cons_ok stepped]
      rwa [List.append_assoc, List.append_assoc, List.singleton_append, List.singleton_append] at result

/-- An invariant of the outputs and the state that every step keeps under the condition holds at the end of the run. -/
theorem run_outputs_of_meets (step : State → Input → Exec (Output × State)) (Condition : State → Input → Prop)
    (Invariant : List Output → State → Prop)
    (kept : ∀ past state input output next, Invariant past state → Condition state input →
      step state input = .ok (output, next) → Invariant (past ++ [output]) next)
    (past : List Output) (state final : State) (inputs : List Input) (outputs : List Output)
    (holds : Invariant past state) (meets : Meets step Condition state inputs)
    (returned : run step state inputs = .ok (outputs, final)) : Invariant (past ++ outputs) final :=
  run_history_of_meets step Condition (fun _ answers state => Invariant answers state) (fun _ => kept) [] past state
    final inputs outputs holds meets returned

/-- An invariant of the past and the state that every step keeps holds at the end of the run. -/
theorem run_invariant_past (step : State → Input → Exec (Output × State)) (Invariant : List (State × Input) → State → Prop)
    (kept : ∀ past state input output next, Invariant past state → step state input = .ok (output, next) →
      Invariant (past ++ [(state, input)]) next)
    (past : List (State × Input)) (state final : State) (inputs : List Input) (outputs : List Output)
    (holds : Invariant past state) (returned : run step state inputs = .ok (outputs, final)) :
    Invariant (past ++ visits step state inputs) final :=
  run_history_of_meets step (fun _ _ => True) (fun past _ state => Invariant past state)
    (fun past _ state input output next before _ => kept past state input output next before) past [] state final
    inputs outputs holds (fun _ _ => trivial) returned

/-- A step that keeps its invariant under the condition gives runs that keep it. -/
theorem run_invariant_of_meets (step : State → Input → Exec (Output × State))
    (Condition : State → Input → Prop) (Invariant : State → Prop)
    (kept : ∀ state input output next, Invariant state → Condition state input →
      step state input = .ok (output, next) → Invariant next)
    (state final : State) (inputs : List Input) (outputs : List Output) (holds : Invariant state)
    (meets : Meets step Condition state inputs) (returned : run step state inputs = .ok (outputs, final)) :
    Invariant final :=
  run_outputs_of_meets step Condition (fun _ state => Invariant state) (fun _ => kept) [] state final inputs outputs
    holds meets returned

/-- A step that keeps its invariant gives runs that keep it. -/
theorem run_invariant (step : State → Input → Exec (Output × State)) (Invariant : State → Prop)
    (kept : ∀ state input output next, Invariant state → step state input = .ok (output, next) → Invariant next)
    (state final : State) (inputs : List Input) (outputs : List Output) (holds : Invariant state)
    (returned : run step state inputs = .ok (outputs, final)) : Invariant final :=
  run_invariant_of_meets step (fun _ _ => True) Invariant
    (fun state input output next before _ => kept state input output next before) state final inputs outputs holds
    (fun _ _ => trivial) returned

/-- A step that matches the abstract machine under the condition gives runs with the abstract outputs. -/
theorem run_simulation_of_meets (step : State → Input → Exec (Output × State))
    (abstractStep : Abstract → Input → Output × Abstract) (Condition : State → Input → Prop)
    (Related : State → Abstract → Prop)
    (matched : ∀ state model input, Related state model → Condition state input →
      ∃ next, step state input = .ok ((abstractStep model input).1, next) ∧
        Related next (abstractStep model input).2)
    (state : State) (model : Abstract) (inputs : List Input) (related : Related state model)
    (meets : Meets step Condition state inputs) :
    ∃ final, run step state inputs = .ok ((abstractRun abstractStep model inputs).1, final) ∧
      Related final (abstractRun abstractStep model inputs).2 := by
  induction inputs generalizing state model with
  | nil => exact ⟨state, rfl, related⟩
  | cons input rest ih =>
      obtain ⟨next, stepped, kept⟩ := matched state model input related meets.first
      obtain ⟨final, continued, result⟩ := ih next _ kept (meets.rest stepped)
      exact ⟨final, by simp [run_cons, stepped, continued, abstractRun], result⟩

/-- A step that matches the abstract machine gives runs with the abstract outputs. -/
theorem run_simulation (step : State → Input → Exec (Output × State))
    (abstractStep : Abstract → Input → Output × Abstract) (Related : State → Abstract → Prop)
    (matched : ∀ state model input, Related state model →
      ∃ next, step state input = .ok ((abstractStep model input).1, next) ∧
        Related next (abstractStep model input).2)
    (state : State) (model : Abstract) (inputs : List Input) (related : Related state model) :
    ∃ final, run step state inputs = .ok ((abstractRun abstractStep model inputs).1, final) ∧
      Related final (abstractRun abstractStep model inputs).2 :=
  run_simulation_of_meets step abstractStep (fun _ _ => True) Related
    (fun state model input before _ => matched state model input before) state model inputs related
    fun _ _ => trivial

/-- A strict machine that agrees with the machine under the condition, and that stops at a fault otherwise, returns
exactly on the runs that meet the condition. -/
theorem run_strict_iff_meets (strict step : State → Input → Exec (Output × State))
    (Condition : State → Input → Prop) (Invariant : State → Prop)
    (total : ∀ state input, Invariant state →
      ∃ output next, step state input = .ok (output, next) ∧ Invariant next)
    (agrees : ∀ state input, Invariant state → Condition state input → strict state input = step state input)
    (faults : ∀ state input, Invariant state → ¬ Condition state input → ∃ fault, strict state input = .error fault)
    (state : State) (inputs : List Input) (holds : Invariant state) :
    (∃ outputs final, run strict state inputs = .ok (outputs, final) ∧ run step state inputs = .ok (outputs, final)) ↔
      Meets step Condition state inputs := by
  induction inputs generalizing state with
  | nil => exact ⟨fun _ => .nil, fun _ => ⟨[], state, rfl, rfl⟩⟩
  | cons input rest ih =>
      obtain ⟨output, next, stepped, kept⟩ := total state input holds
      constructor
      · rintro ⟨outputs, final, strictly, plainly⟩
        obtain ⟨first, middle, later, started, continued, rfl⟩ := (run_cons_eq_ok ..).mp strictly
        have allowed : Condition state input := by
          by_contra broken
          obtain ⟨fault, stopped⟩ := faults state input holds broken
          rw [stopped] at started
          cases started
        rw [agrees state input holds allowed, stepped] at started
        obtain ⟨rfl, rfl⟩ := Prod.mk.inj (Except.ok.inj started)
        obtain ⟨_, _, _, begun, remaining, same⟩ := (run_cons_eq_ok ..).mp plainly
        obtain ⟨rfl, rfl⟩ := Prod.mk.inj (Except.ok.inj (stepped.symm.trans begun))
        obtain rfl := (List.cons.inj same).2
        exact .cons allowed stepped ((ih _ kept).mp ⟨later, final, continued, remaining⟩)
      · intro meets
        obtain ⟨later, final, strictly, plainly⟩ := (ih next kept).mpr (meets.rest stepped)
        have first := (agrees state input holds meets.first).trans stepped
        exact ⟨output :: later, final, (run_cons_eq_ok ..).mpr ⟨output, next, later, first, strictly, rfl⟩,
          (run_cons_eq_ok ..).mpr ⟨output, next, later, stepped, plainly, rfl⟩⟩

/-- A property of the outputs that the invariant gives, and that no later output repairs after a step outside the
condition, holds of a run exactly when every step meets the condition. -/
theorem run_outputs_iff_meets (step : State → Input → Exec (Output × State)) (Condition : State → Input → Prop)
    (Invariant : List Output → State → Prop) (Good : List Output → Prop)
    (good : ∀ past state, Invariant past state → Good past)
    (kept : ∀ past state input, Invariant past state → Condition state input →
      ∃ output next, step state input = .ok (output, next) ∧ Invariant (past ++ [output]) next)
    (broken : ∀ past state input output next later, Invariant past state → ¬ Condition state input →
      step state input = .ok (output, next) → ¬ Good (past ++ output :: later))
    (past : List Output) (state : State) (inputs : List Input) (holds : Invariant past state) :
    (∃ outputs final, run step state inputs = .ok (outputs, final) ∧ Good (past ++ outputs)) ↔
      Meets step Condition state inputs := by
  induction inputs generalizing past state with
  | nil =>
      refine ⟨fun _ => .nil, fun _ => ⟨[], state, rfl, ?_⟩⟩
      rw [List.append_nil]
      exact good past state holds
  | cons input rest ih =>
      by_cases allowed : Condition state input
      · obtain ⟨output, next, stepped, still⟩ := kept past state input holds allowed
        have rule := ih (past ++ [output]) next still
        simp only [List.append_assoc, List.singleton_append] at rule
        constructor
        · rintro ⟨outputs, final, returned, result⟩
          obtain ⟨first, middle, later, started, continued, rfl⟩ := (run_cons_eq_ok ..).mp returned
          obtain ⟨rfl, rfl⟩ := Prod.mk.inj (Except.ok.inj (stepped.symm.trans started))
          exact .cons allowed stepped (rule.mp ⟨later, final, continued, result⟩)
        · intro meets
          obtain ⟨later, final, continued, result⟩ := rule.mpr (meets.rest stepped)
          exact ⟨output :: later, final, (run_cons_eq_ok ..).mpr ⟨output, next, later, stepped, continued, rfl⟩, result⟩
      · refine ⟨?_, fun meets => absurd meets.first allowed⟩
        rintro ⟨outputs, final, returned, result⟩
        obtain ⟨output, next, later, stepped, _, rfl⟩ := (run_cons_eq_ok ..).mp returned
        exact absurd result (broken past state input output next later holds allowed stepped)

/-- An invariant of the past and the state that every step keeps holds at every step of the run. -/
theorem visits_invariant (step : State → Input → Exec (Output × State)) (Condition : State → Input → Prop)
    (Invariant : List (State × Input) → State → Prop)
    (kept : ∀ past state input output next, Invariant past state → Condition state input →
      step state input = .ok (output, next) → Invariant (past ++ [(state, input)]) next)
    (past : List (State × Input)) (state : State) (inputs : List Input) (holds : Invariant past state)
    (meets : Meets step Condition state inputs) {front back : List (State × Input)} {visit : State × Input}
    (split : visits step state inputs = front ++ visit :: back) : Invariant (past ++ front) visit.1 := by
  induction inputs generalizing past state front with
  | nil => simp [visits] at split
  | cons input rest ih =>
      cases front with
      | nil =>
          obtain rfl : visit = (state, input) := ((List.cons.inj split).1).symm
          rw [List.append_nil]
          exact holds
      | cons first front =>
          cases stepped : step state input with
          | error fault => simp [visits, stepped] at split
          | ok result =>
              obtain ⟨output, next⟩ := result
              rw [visits_cons_ok stepped, List.cons_append] at split
              obtain ⟨rfl, remaining⟩ := List.cons.inj split
              have later := ih (past ++ [(state, input)]) next
                (kept past state input output next holds meets.first stepped) (meets.rest stepped) remaining
              rwa [List.append_assoc, List.singleton_append] at later

end Runs

section Keyed
variable {Key Local Input Output : Type} [DecidableEq Key]

/-- A machine of independent parts: an input runs the part of its key. -/
def keyedStep (key : Input → Key) (step : Local → Input → Output × Local) (parts : Key → Local) (input : Input) :
    Output × (Key → Local) :=
  let result := step (parts (key input)) input
  (result.1, Function.update parts (key input) result.2)

/-- The outputs for the inputs of one key. -/
def outputsAt (key : Input → Key) (chosen : Key) (inputs : List Input) (outputs : List Output) : List Output :=
  ((inputs.zip outputs).filter fun pair => key pair.1 = chosen).map Prod.snd

/-- The outputs for one key are the outputs of its part on the inputs of the key. -/
theorem outputsAt_keyedStep (key : Input → Key) (step : Local → Input → Output × Local) (parts : Key → Local)
    (chosen : Key) (inputs : List Input) :
    outputsAt key chosen inputs (abstractRun (keyedStep key step) parts inputs).1 =
      (abstractRun step (parts chosen) (inputs.filter fun input => key input = chosen)).1 := by
  induction inputs generalizing parts with
  | nil => rfl
  | cons input rest ih =>
      have later := ih (keyedStep key step parts input).2
      rw [outputsAt] at later ⊢
      rw [abstractRun, List.zip_cons_cons]
      by_cases same : key input = chosen
      · rw [List.filter_cons_of_pos (by simpa using same), List.filter_cons_of_pos (by simpa using same), abstractRun,
          List.map_cons, later]
        subst same
        simp [keyedStep]
      · rw [List.filter_cons_of_neg (by simpa using same), List.filter_cons_of_neg (by simpa using same), later]
        have kept : (keyedStep key step parts input).2 chosen = parts chosen :=
          Function.update_of_ne (Ne.symm same) _ _
        rw [kept]

end Keyed

end MySkipList.Foundation
