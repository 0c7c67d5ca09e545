import MySkipList.Foundation.Execution

namespace MySkipList.Foundation

/-- Two executions agree when they stop at the same fault or return related values. -/
inductive Exec.Agrees {A B : Type} (Related : A → B → Prop) : Exec A → Exec B → Prop where
  | returned {value : A} {other : B} (related : Related value other) : Agrees Related (.ok value) (.ok other)
  | stopped (fault : Fault) : Agrees Related (.error fault) (.error fault)

namespace Exec.Agrees
variable {A B C D : Type} {Related : A → B → Prop} {Later : C → D → Prop}

/-- Agreeing executions with agreeing continuations agree. -/
theorem bind {first : Exec A} {second : Exec B} {next : A → Exec C} {other : B → Exec D}
    (start : Agrees Related first second)
    (rest : ∀ value model, Related value model → Agrees Later (next value) (other model)) :
    Agrees Later (first >>= next) (second >>= other) := by
  cases start with
  | returned related => exact rest _ _ related
  | stopped fault => exact .stopped fault

/-- The same execution with agreeing continuations. -/
theorem bind_same (first : Exec A) {next : A → Exec C} {other : A → Exec D}
    (rest : ∀ value, first = .ok value → Agrees Later (next value) (other value)) :
    Agrees Later (first >>= next) (first >>= other) := by
  cases first with
  | ok value => exact rest value rfl
  | error fault => exact .stopped fault

theorem of_returns {first : Exec A} {second : Exec B} {value : A} {model : B} (one : first = .ok value)
    (other : second = .ok model) (related : Related value model) : Agrees Related first second := by
  rw [one, other]
  exact .returned related

theorem ok_left {second : Exec B} {value : A} (agrees : Agrees Related (.ok value) second) :
    ∃ model, second = .ok model ∧ Related value model := by
  cases agrees with
  | returned related => exact ⟨_, rfl, related⟩

/-- Agreeing executions give the same view of their values when related values do. -/
theorem map_eq {first : Exec A} {second : Exec B} (agrees : Agrees Related first second) (one : A → C) (other : B → C)
    (same : ∀ value model, Related value model → one value = other model) :
    first.map one = second.map other := by
  cases agrees with
  | returned related => exact congrArg Except.ok (same _ _ related)
  | stopped fault => rfl

end Exec.Agrees

section Runs
variable {State Model Input Output : Type}

/-- A step that agrees with the step of a model under the condition gives runs that agree with the runs of the model. -/
theorem run_agrees_of_meets (step : State → Input → Exec (Output × State))
    (modelStep : Model → Input → Exec (Output × Model)) (Condition : State → Input → Prop)
    (Related : State → Model → Prop)
    (matched : ∀ state model input, Related state model → Condition state input →
      Exec.Agrees (fun result answer => result.1 = answer.1 ∧ Related result.2 answer.2) (step state input)
        (modelStep model input))
    (state : State) (model : Model) (inputs : List Input) (related : Related state model)
    (meets : Meets step Condition state inputs) :
    Exec.Agrees (fun result answer => result.1 = answer.1 ∧ Related result.2 answer.2) (run step state inputs)
      (run modelStep model inputs) := by
  induction inputs generalizing state model with
  | nil => exact .returned ⟨rfl, related⟩
  | cons input rest ih =>
      have start := matched state model input related meets.first
      rw [run_cons, run_cons]
      cases stepped : step state input with
      | error fault =>
          rw [stepped] at start
          cases answered : modelStep model input with
          | error other =>
              rw [answered] at start
              cases start
              exact .stopped fault
          | ok result =>
              rw [answered] at start
              cases start
      | ok result =>
          obtain ⟨output, next⟩ := result
          rw [stepped] at start
          obtain ⟨⟨answer, later⟩, answered, rfl, kept⟩ := start.ok_left
          rw [answered, Exec.ok_bind, Exec.ok_bind]
          refine (ih next later kept (meets.rest stepped)).bind ?_
          rintro ⟨outputs, final⟩ ⟨_, last⟩ ⟨rfl, still⟩
          exact .returned ⟨rfl, still⟩

/-- A step that agrees with the step of a model or stops for an excused reason gives runs that agree with the runs of
the model, up to the first step that stops for such a reason. -/
theorem run_agrees_or_stops (step : State → Input → Exec (Output × State))
    (modelStep : Model → Input → Exec (Output × Model)) (Excused : State → Input → Fault → Prop)
    (Related : State → Model → Prop)
    (matched : ∀ state model input, Related state model →
      Exec.Agrees (fun result answer => result.1 = answer.1 ∧ Related result.2 answer.2) (step state input)
        (modelStep model input) ∨ ∃ fault, step state input = .error fault ∧ Excused state input fault)
    (state : State) (model : Model) (inputs : List Input) (related : Related state model) :
    Exec.Agrees (fun result answer => result.1 = answer.1 ∧ Related result.2 answer.2) (run step state inputs)
        (run modelStep model inputs) ∨
      ∃ before input after outputs reached fault, inputs = before ++ input :: after ∧
        run step state before = .ok (outputs, reached) ∧ step reached input = .error fault ∧
        Excused reached input fault := by
  by_cases meets : Meets step (fun state input => ∀ fault, step state input = .error fault → ¬ Excused state input fault)
      state inputs
  · refine Or.inl (run_agrees_of_meets step modelStep _ Related ?_ state model inputs related meets)
    intro state model input before unexcused
    refine (matched state model input before).resolve_right ?_
    rintro ⟨fault, stopped, excused⟩
    exact unexcused fault stopped excused
  · simp only [Meets, not_forall, not_not] at meets
    obtain ⟨⟨reached, input⟩, visited, fault, stopped, excused⟩ := meets
    obtain ⟨before, after, outputs, split, returned⟩ := visits_split visited
    exact Or.inr ⟨before, input, after, outputs, reached, fault, split, returned, stopped, excused⟩

/-- A step that agrees with the step of a model gives runs that agree with the runs of the model. -/
theorem run_agrees (step : State → Input → Exec (Output × State)) (modelStep : Model → Input → Exec (Output × Model))
    (Related : State → Model → Prop)
    (matched : ∀ state model input, Related state model →
      Exec.Agrees (fun result answer => result.1 = answer.1 ∧ Related result.2 answer.2) (step state input)
        (modelStep model input))
    (state : State) (model : Model) (inputs : List Input) (related : Related state model) :
    Exec.Agrees (fun result answer => result.1 = answer.1 ∧ Related result.2 answer.2) (run step state inputs)
      (run modelStep model inputs) :=
  run_agrees_of_meets step modelStep (fun _ _ => True) Related
    (fun state model input before _ => matched state model input before) state model inputs related
    fun _ _ => trivial

end Runs

end MySkipList.Foundation
