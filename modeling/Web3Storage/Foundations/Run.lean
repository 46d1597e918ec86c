import Mathlib

/-!
# Runs of a deterministic machine

A machine is a step function on states. A run feeds it a list of inputs; the states of the run are
the results of the prefixes of that list. `StepsMeet` says that every step of a run meets a
condition on the state before it and its input, and `invariant_of_step` is the invariant rule: what
the initial state has and every such step keeps, the last state has. Prefixes of a run are runs
(`StepsMeet.left`), so the rule covers every state reached on the way. `simulation_of_step` is the rule
for two machines that are fed the same inputs. `Since` says that something
happened in a run and a property has held in every state after it.
-/

set_option autoImplicit false
set_option relaxedAutoImplicit false

namespace Web3Storage.Foundations

variable {State Input : Type}

/-- The state a machine is in after a list of inputs. -/
def run (step : State → Input → State) (start : State) (inputs : List Input) : State :=
  inputs.foldl step start

/-- Every step of the run meets a condition on the state before the step and its input. -/
def StepsMeet (step : State → Input → State) (condition : State → Input → Prop) :
    State → List Input → Prop
  | _, [] => True
  | state, input :: rest =>
    condition state input ∧ StepsMeet step condition (step state input) rest

/-- Whether the steps of a run meet a decidable condition. -/
def decideStepsMeet (step : State → Input → State) (condition : State → Input → Prop)
    [∀ state input, Decidable (condition state input)] :
    (start : State) → (inputs : List Input) → Decidable (StepsMeet step condition start inputs)
  | _, [] => .isTrue trivial
  | start, input :: rest =>
    @instDecidableAnd _ _ inferInstance (decideStepsMeet step condition (step start input) rest)

instance (step : State → Input → State) (condition : State → Input → Prop)
    [∀ state input, Decidable (condition state input)] (start : State) (inputs : List Input) :
    Decidable (StepsMeet step condition start inputs) :=
  decideStepsMeet step condition start inputs

variable {step : State → Input → State} {condition : State → Input → Prop}

@[simp] theorem run_nil (start : State) : run step start [] = start :=
  rfl

@[simp] theorem run_cons (start : State) (input : Input) (rest : List Input) :
    run step start (input :: rest) = run step (step start input) rest :=
  rfl

theorem run_append (start : State) (first second : List Input) :
    run step start (first ++ second) = run step (run step start first) second :=
  List.foldl_append

theorem run_concat (start : State) (first : List Input) (input : Input) :
    run step start (first ++ [input]) = step (run step start first) input := by
  rw [run_append]
  rfl

theorem stepsMeet_append (start : State) (first second : List Input) :
    StepsMeet step condition start (first ++ second) ↔
      StepsMeet step condition start first ∧
        StepsMeet step condition (run step start first) second := by
  induction first generalizing start with
  | nil => simp [StepsMeet]
  | cons input rest ih =>
    simp only [List.cons_append, StepsMeet, run_cons, ih, and_assoc]

/-- A prefix of a run whose steps meet a condition is such a run. -/
theorem StepsMeet.left {start : State} {first second : List Input}
    (h : StepsMeet step condition start (first ++ second)) :
    StepsMeet step condition start first :=
  ((stepsMeet_append start first second).mp h).1

/-- The rest of a run whose steps meet a condition is such a run. -/
theorem StepsMeet.right {start : State} {first second : List Input}
    (h : StepsMeet step condition start (first ++ second)) :
    StepsMeet step condition (run step start first) second :=
  ((stepsMeet_append start first second).mp h).2

/-- A run whose steps meet a condition meets every weaker one. -/
theorem StepsMeet.mono {weaker : State → Input → Prop}
    (himp : ∀ state input, condition state input → weaker state input) {start : State}
    {inputs : List Input} (h : StepsMeet step condition start inputs) :
    StepsMeet step weaker start inputs := by
  induction inputs generalizing start with
  | nil => trivial
  | cons input rest ih => exact ⟨himp _ _ h.1, ih h.2⟩

/-- A run whose steps meet two conditions meets both at once. -/
theorem StepsMeet.and {other : State → Input → Prop} {start : State} {inputs : List Input}
    (h : StepsMeet step condition start inputs) (h' : StepsMeet step other start inputs) :
    StepsMeet step (fun state input ↦ condition state input ∧ other state input) start inputs := by
  induction inputs generalizing start with
  | nil => trivial
  | cons input rest ih => exact ⟨⟨h.1, h'.1⟩, ih h.2 h'.2⟩

/-- A condition that holds at every step holds along every run. -/
theorem stepsMeet_of_forall (h : ∀ state input, condition state input) (start : State)
    (inputs : List Input) : StepsMeet step condition start inputs := by
  induction inputs generalizing start with
  | nil => trivial
  | cons input rest ih => exact ⟨h _ _, ih _⟩

/-- The invariant rule. Assumes: a property that every step meeting the condition keeps. A run of
such steps from a state with the property ends in one. -/
theorem invariant_of_step (property : State → Prop)
    (hstep : ∀ state input, property state → condition state input → property (step state input))
    {start : State} (hstart : property start) {inputs : List Input}
    (hinputs : StepsMeet step condition start inputs) : property (run step start inputs) := by
  induction inputs generalizing start with
  | nil => exact hstart
  | cons input rest ih => exact ih (hstep _ _ hstart hinputs.1) hinputs.2

/-- The invariant rule for a property that every step keeps. -/
theorem invariant_of_every_step (property : State → Prop)
    (hstep : ∀ state input, property state → property (step state input))
    {start : State} (hstart : property start) (inputs : List Input) :
    property (run step start inputs) := by
  have hinputs : StepsMeet step (fun _ _ ↦ True) start inputs :=
    stepsMeet_of_forall (fun _ _ ↦ trivial) start inputs
  exact invariant_of_step property (fun state input hstate _ ↦ hstep state input hstate) hstart hinputs

/-- The simulation rule. Assumes: steps on one allowed input lead from related states to related
states. -/
theorem simulation_of_step {State' : Type} {step' : State' → Input → State'}
    (related : State → State' → Prop) (allowed : Input → Prop)
    (hstep : ∀ state state' input, related state state' → allowed input →
      related (step state input) (step' state' input))
    {start : State} {start' : State'} (hstart : related start start') {inputs : List Input}
    (hinputs : ∀ input ∈ inputs, allowed input) :
    related (run step start inputs) (run step' start' inputs) := by
  induction inputs generalizing start start' with
  | nil => exact hstart
  | cons input rest ih =>
    rw [List.forall_mem_cons] at hinputs
    exact ih (hstep start start' input hstart hinputs.1) hinputs.2

/-! ### Sums over a run -/

/-- The sum of an amount over the steps of a run. -/
def tally (step : State → Input → State) (amount : State → Input → ℕ) (start : State) :
    List Input → ℕ
  | [] => 0
  | input :: rest => amount start input + tally step amount (step start input) rest

theorem tally_append (step : State → Input → State) (amount : State → Input → ℕ) (start : State)
    (first second : List Input) :
    tally step amount start (first ++ second) =
      tally step amount start first + tally step amount (run step start first) second := by
  induction first generalizing start with
  | nil => rw [List.nil_append, tally, Nat.zero_add, run_nil]
  | cons input rest ih => rw [List.cons_append, tally, tally, ih, run_cons, Nat.add_assoc]

/-- Two amounts that agree at every step add up to the same. Assumes: an invariant of the steps that
meet the condition, under which the amounts agree. -/
theorem tally_congr {amount amount' : State → Input → ℕ} (property : State → Prop)
    (hstep : ∀ state input, property state → condition state input → property (step state input))
    (hamount : ∀ state input, property state → condition state input →
      amount state input = amount' state input) {start : State} (hstart : property start)
    {inputs : List Input} (hinputs : StepsMeet step condition start inputs) :
    tally step amount start inputs = tally step amount' start inputs := by
  induction inputs generalizing start with
  | nil => rfl
  | cons input rest ih =>
    rw [tally, tally, hamount start input hstart hinputs.1,
      ih (hstep start input hstart hinputs.1) hinputs.2]

/-! ### Since an event -/

/-- An event happened at some step of a run, and a property has held in every state since. -/
def Since (step : State → Input → State) (event : State → Input → Prop) (held : State → Prop)
    (start : State) (inputs : List Input) : Prop :=
  ∃ before input after, inputs = before ++ input :: after ∧ event (run step start before) input ∧
    ∀ later, later <+: after → held (run step start (before ++ input :: later))

section Since

variable {event : State → Input → Prop} {held : State → Prop} {start : State}

/-- Without the event there is nothing since it. -/
theorem not_since_of_stepsMeet {inputs : List Input}
    (h : StepsMeet step (fun state input ↦ ¬ event state input) start inputs) :
    ¬ Since step event held start inputs := by
  rintro ⟨before, input, after, rfl, hevent, -⟩
  exact h.right.1 hevent

/-- What has held since an event still holds, and the event lies before the last step or is the last
step itself. -/
theorem since_concat (inputs : List Input) (input : Input) :
    Since step event held start (inputs ++ [input]) ↔
      held (step (run step start inputs) input) ∧
        (Since step event held start inputs ∨ event (run step start inputs) input) := by
  have hrun : run step start (inputs ++ [input]) = step (run step start inputs) input :=
    run_concat start inputs input
  rw [← hrun]
  constructor
  · rintro ⟨before, first, after, hinputs, hevent, hheld⟩
    have hlast := hheld after (List.prefix_refl after)
    rw [← hinputs] at hlast
    refine ⟨hlast, ?_⟩
    rcases List.eq_nil_or_concat after with rfl | ⟨rest, last, rfl⟩
    · obtain ⟨rfl, hfirst⟩ := List.append_inj' hinputs rfl
      cases hfirst
      exact .inr hevent
    · rw [List.concat_eq_append, ← List.cons_append, ← List.append_assoc] at hinputs
      obtain ⟨rfl, -⟩ := List.append_inj' hinputs rfl
      refine .inl ⟨before, first, rest, rfl, hevent, fun later hlater ↦ hheld later ?_⟩
      rw [List.concat_eq_append]
      exact hlater.trans (List.prefix_append rest [last])
  · rintro ⟨hlast, ⟨before, first, after, rfl, hevent, hheld⟩ | hevent⟩
    · refine ⟨before, first, after ++ [input], by simp, hevent, fun later hlater ↦ ?_⟩
      rcases List.prefix_concat_iff.mp hlater with rfl | hearlier
      · simpa using hlast
      · exact hheld later hearlier
    · refine ⟨inputs, input, [], rfl, hevent, fun later hlater ↦ ?_⟩
      rw [List.prefix_nil.mp hlater]
      exact hlast

/-- A property that failed in the middle of a run and has held since an event holds since an event of
the second part. -/
theorem Since.right {first second : List Input} (h : Since step event held start (first ++ second))
    (hnot : ¬ held (run step start first)) : Since step event held (run step start first) second := by
  obtain ⟨before, input, after, hinputs, hevent, hheld⟩ := h
  rcases List.append_eq_append_iff.mp hinputs with ⟨middle, rfl, rfl⟩ | ⟨middle, rfl, hrest⟩
  · refine ⟨middle, input, after, rfl, ?_, fun later hlater ↦ ?_⟩
    · rw [← run_append]
      exact hevent
    · rw [← run_append, ← List.append_assoc]
      exact hheld later hlater
  · cases middle with
    | nil =>
      rw [List.append_nil] at hnot ⊢
      exact ⟨[], input, after, hrest.symm, hevent, fun later hlater ↦ by
        rw [← run_append]
        exact hheld later hlater⟩
    | cons other rest =>
      -- the event would lie before the state in which the property failed
      rw [List.cons_append, List.cons.injEq] at hrest
      obtain ⟨rfl, rfl⟩ := hrest
      exact absurd (hheld rest (List.prefix_append rest second)) hnot

/-- Along steps that meet a condition an event can be read as another one. -/
theorem Since.of_stepsMeet {other : State → Input → Prop} {inputs : List Input}
    (h : Since step event held start inputs) (hinputs : StepsMeet step condition start inputs)
    (himp : ∀ state input, condition state input → event state input → other state input) :
    Since step other held start inputs := by
  obtain ⟨before, input, after, rfl, hevent, hheld⟩ := h
  exact ⟨before, input, after, rfl, himp _ _ hinputs.right.1 hevent, hheld⟩

end Since

end Web3Storage.Foundations
