import Mathlib.Logic.Basic

/-!
# Runs of a step function that may fail

A run takes the steps of a list one after another and stops at the first fault.
Two kinds of statement about runs are packaged here: a concrete run follows an
abstract one as long as the abstract one allows each step, and a property holds
in every state of a run exactly when each step meets its guard.
-/

namespace Dnsp2p.Run

universe u v w x

variable {σ : Type u} {α : Type v} {ε : Type w} {τ : Type x}

/-- The state after all steps. -/
def run (step : σ → α → Except ε σ) : σ → List α → Except ε σ
  | state, [] => .ok state
  | state, action :: actions => match step state action with
    | .error fault => .error fault
    | .ok next => run step next actions

@[simp]
theorem run_nil (step : σ → α → Except ε σ) (state : σ) : run step state [] = .ok state :=
  rfl

theorem run_cons_of_ok {step : σ → α → Except ε σ} {state next : σ} {action : α}
    (stepped : step state action = .ok next) (actions : List α) :
    run step state (action :: actions) = run step next actions := by
  simp [run, stepped]

/-- A run goes on from where its first part ended. -/
theorem run_append_of_ok {step : σ → α → Except ε σ} {state middle : σ} {actions : List α}
    (ran : run step state actions = .ok middle) (more : List α) :
    run step state (actions ++ more) = run step middle more := by
  induction actions generalizing state with
  | nil =>
      cases ran
      rfl
  | cons action actions ih =>
      rw [List.cons_append]
      cases stepped : step state action with
      | error fault =>
          rw [run, stepped] at ran
          cases ran
      | ok next =>
          rw [run_cons_of_ok stepped] at ran ⊢
          exact ih ran

/-! ## Simulation -/

/-- Each step is allowed in the abstract state before it. -/
def Legal (allows : τ → α → Prop) (next : τ → α → τ) : τ → List α → Prop
  | _, [] => True
  | abstract, action :: actions =>
      allows abstract action ∧ Legal allows next (next abstract action) actions

/-- A condition on the steps alone. -/
theorem legal_of_forall {allows : α → Prop} {next : τ → α → τ} {actions : List α}
    (allowed : ∀ action ∈ actions, allows action) (abstract : τ) :
    Legal (fun _ action => allows action) next abstract actions := by
  induction actions generalizing abstract with
  | nil => trivial
  | cons action actions ih =>
      constructor
      · exact allowed action List.mem_cons_self
      · exact ih (fun other member => allowed other (List.mem_cons_of_mem _ member)) _

/-- When allowed steps succeed and keep a relation, so does a legal run. -/
theorem run_simulates (relation : σ → τ → Prop) {step : σ → α → Except ε σ}
    {allows : τ → α → Prop} {next : τ → α → τ}
    (keeps : ∀ {state abstract action}, relation state abstract → allows abstract action →
      ∃ state', step state action = .ok state' ∧ relation state' (next abstract action))
    {state : σ} {abstract : τ} {actions : List α} (related : relation state abstract)
    (legal : Legal allows next abstract actions) :
    ∃ last, run step state actions = .ok last ∧ relation last (actions.foldl next abstract) := by
  induction actions generalizing state abstract with
  | nil => exact ⟨state, rfl, related⟩
  | cons action actions ih =>
      rcases keeps related legal.1 with ⟨middle, stepped, related'⟩
      rw [run_cons_of_ok stepped]
      exact ih related' legal.2

/-! ## Properties of all states of a run -/

/-- A property of the first state and of the state after each step. -/
def Always (step : σ → α → Except ε σ) (good : σ → Prop) : σ → List α → Prop
  | state, [] => good state
  | state, action :: actions =>
      good state ∧ ∀ next, step state action = .ok next → Always step good next actions

/-- A property of all states holds in the first one. -/
theorem Always.head {step : σ → α → Except ε σ} {good : σ → Prop} {state : σ} {actions : List α}
    (always : Always step good state actions) : good state := by
  cases actions with
  | nil => exact always
  | cons => exact always.1

/-- Each step that returns meets its guard. -/
def Guarded (step : σ → α → Except ε σ) (guard : σ → α → Prop) : σ → List α → Prop
  | _, [] => True
  | state, action :: actions =>
      ∀ next, step state action = .ok next →
        guard state action ∧ Guarded step guard next actions

/-- A guard on the steps alone. -/
theorem guarded_of_forall {step : σ → α → Except ε σ} {guard : α → Prop} {actions : List α}
    (met : ∀ action ∈ actions, guard action) (state : σ) :
    Guarded step (fun _ action => guard action) state actions := by
  induction actions generalizing state with
  | nil => trivial
  | cons action actions ih =>
      intro next stepped
      constructor
      · exact met action List.mem_cons_self
      · exact ih (fun other member => met other (List.mem_cons_of_mem _ member)) next

/-- When a guard says exactly which steps keep a property, a run has the property
throughout exactly when it is guarded. -/
theorem always_iff_guarded (invariant : σ → Prop) {step : σ → α → Except ε σ} {good : σ → Prop}
    {guard : σ → α → Prop}
    (keeps : ∀ {state action next}, invariant state → step state action = .ok next →
      invariant next)
    (exact_guard : ∀ {state action next}, invariant state → good state →
      step state action = .ok next → (good next ↔ guard state action))
    {state : σ} {actions : List α} (holds : invariant state) (begins : good state) :
    Always step good state actions ↔ Guarded step guard state actions := by
  induction actions generalizing state with
  | nil => simp [Always, Guarded, begins]
  | cons action actions ih =>
      constructor
      · intro always next stepped
        have rest := always.2 next stepped
        have nextGood : good next := rest.head
        exact ⟨(exact_guard holds begins stepped).mp nextGood,
          (ih (keeps holds stepped) nextGood).mp rest⟩
      · intro guarded
        refine ⟨begins, fun next stepped => ?_⟩
        rcases guarded next stepped with ⟨met, rest⟩
        exact (ih (keeps holds stepped) ((exact_guard holds begins stepped).mpr met)).mpr rest

/-- A run whose steps meet a guard has a property throughout when an invariant that
implies it is kept by each step that meets the guard. -/
theorem always_of_guarded (invariant : σ → Prop) {step : σ → α → Except ε σ} {good : σ → Prop}
    {guard : σ → α → Prop}
    (keeps : ∀ {state action next}, invariant state → guard state action →
      step state action = .ok next → invariant next)
    (enough : ∀ {state}, invariant state → good state)
    {state : σ} {actions : List α} (holds : invariant state)
    (guarded : Guarded step guard state actions) : Always step good state actions := by
  induction actions generalizing state with
  | nil => exact enough holds
  | cons action actions ih =>
      constructor
      · exact enough holds
      · intro next stepped
        rcases guarded next stepped with ⟨met, rest⟩
        exact ih (keeps holds met stepped) rest

/-- When each step that returns keeps an invariant, what the invariant implies holds
throughout every run. -/
theorem always_of_kept (invariant : σ → Prop) {step : σ → α → Except ε σ} {good : σ → Prop}
    (keeps : ∀ {state action next}, invariant state → step state action = .ok next →
      invariant next)
    (enough : ∀ {state}, invariant state → good state)
    {state : σ} (holds : invariant state) (actions : List α) : Always step good state actions := by
  induction actions generalizing state with
  | nil => exact enough holds
  | cons action actions ih =>
      constructor
      · exact enough holds
      · intro next stepped
        exact ih (keeps holds stepped)

/-- When every step returns and keeps an invariant, so does every run, and what the
invariant implies holds throughout. -/
theorem always_of_total (invariant : σ → Prop) {step : σ → α → Except ε σ} {good : σ → Prop}
    (keeps : ∀ {state} action, invariant state →
      ∃ next, step state action = .ok next ∧ invariant next)
    (enough : ∀ {state}, invariant state → good state)
    {state : σ} (holds : invariant state) (actions : List α) :
    (∃ last, run step state actions = .ok last) ∧ Always step good state actions := by
  induction actions generalizing state with
  | nil => exact ⟨⟨state, rfl⟩, enough holds⟩
  | cons action actions ih =>
      rcases keeps action holds with ⟨next, stepped, holds'⟩
      rcases ih holds' with ⟨⟨last, ran⟩, always⟩
      refine ⟨⟨last, ?_⟩, enough holds, fun next' stepped' => ?_⟩
      · rw [run_cons_of_ok stepped]
        exact ran
      · cases stepped.symm.trans stepped'
        exact always

/-- A property of all states holds in the last one. -/
theorem Always.last {step : σ → α → Except ε σ} {good : σ → Prop} {state last : σ}
    {actions : List α} (always : Always step good state actions)
    (ran : run step state actions = .ok last) : good last := by
  induction actions generalizing state with
  | nil =>
      cases ran
      exact always
  | cons action actions ih =>
      rw [run] at ran
      cases stepped : step state action with
      | error fault =>
          rw [stepped] at ran
          cases ran
      | ok next =>
          rw [stepped] at ran
          exact ih (always.2 next stepped) ran

end Dnsp2p.Run
