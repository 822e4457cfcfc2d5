import Mathlib.Init

/-!
# Transition systems

A system of parties that take labelled steps one at a time.  A step is a partial
function of the state and the label, so a label that is not possible in a state leads
nowhere, and a list of labels is a schedule that determines its execution.

`Execution property` is an execution each of whose steps has a property of the state
before it, the label and the state after it.  Two such properties are related by an
invariant: `Execution.transfer` is the induction over the steps that every result about
all executions is an instance of.

A system refines another when each of its steps is a step of the other or none; the steps
along an execution then make an execution of the other system.
-/

namespace Library

universe u v

/-- A transition system with labelled steps, each of which has one outcome at most. -/
structure System (State : Type u) (Label : Type v) where
  /-- The states to start in. -/
  initial : State → Prop
  /-- The state after a step, if the step is possible. -/
  step : State → Label → Option State

namespace System

variable {State : Type u} {Label : Type v}

/-- The execution of a list of labels, each of whose steps has the property. -/
inductive Execution (system : System State Label) (property : State → Label → State → Prop) :
    State → List Label → State → Prop
  | refl (state : State) : Execution system property state [] state
  | step {before next after : State} {label : Label} {labels : List Label}
      (taken : system.step before label = some next) (holds : property before label next)
      (rest : Execution system property next labels after) :
      Execution system property before (label :: labels) after

/-- An execution of which nothing else is known. -/
abbrev Executes (system : System State Label) : State → List Label → State → Prop :=
  system.Execution fun _ _ _ => True

/-- The state that a list of labels leads to, if each of the steps is possible. -/
def execute (system : System State Label) : State → List Label → Option State
  | state, [] => some state
  | state, label :: labels =>
      match system.step state label with
      | none => none
      | some next => system.execute next labels

variable {system : System State Label} {property : State → Label → State → Prop}

namespace Execution

variable {before middle after : State} {label : Label} {labels later : List Label}

theorem single (taken : system.step before label = some after)
    (holds : property before label after) :
    system.Execution property before [label] after :=
  .step taken holds (.refl after)

theorem append (first : system.Execution property before labels middle)
    (second : system.Execution property middle later after) :
    system.Execution property before (labels ++ later) after := by
  induction first with
  | refl => exact second
  | step taken holds rest ih => exact .step taken holds (ih second)

/-- An invariant that every step with the one property keeps, so that the step also has
the other, carries executions over. -/
theorem transfer (invariant : State → Prop) {property' : State → Label → State → Prop}
    (keeps : ∀ {before label after}, invariant before → system.step before label = some after →
      property before label after → invariant after ∧ property' before label after)
    (execution : system.Execution property before labels after) (holds : invariant before) :
    invariant after ∧ system.Execution property' before labels after := by
  induction execution with
  | refl state => exact ⟨holds, .refl state⟩
  | step taken has rest ih =>
      rcases keeps holds taken has with ⟨next, has'⟩
      rcases ih next with ⟨final, execution⟩
      exact ⟨final, .step taken has' execution⟩

/-- What every step keeps holds at the end. -/
theorem keeps (invariant : State → Prop)
    (step : ∀ {before label after}, invariant before → system.step before label = some after →
      invariant after)
    (execution : system.Execution property before labels after) (holds : invariant before) :
    invariant after := by
  induction execution with
  | refl state => exact holds
  | step taken _ rest ih => exact ih (step holds taken)

/-- What every step keeps of the labels so far and the state holds of all labels at the end. -/
theorem keepsRecord (invariant : List Label → State → Prop)
    (step : ∀ {earlier before label after}, invariant earlier before →
      system.step before label = some after → invariant (earlier ++ [label]) after)
    (execution : system.Execution property before labels after) {earlier : List Label}
    (holds : invariant earlier before) : invariant (earlier ++ labels) after := by
  induction execution generalizing earlier with
  | refl state => rwa [List.append_nil]
  | @step before next after label labels taken _ rest ih =>
      have later := ih (step holds taken)
      rwa [List.append_assoc] at later

/-- What holds of each label holds at each step. -/
theorem restrict {holds : Label → Prop} (execution : system.Executes before labels after)
    (each : ∀ label ∈ labels, holds label) :
    system.Execution (fun _ label _ => holds label) before labels after := by
  induction execution with
  | refl state => exact .refl state
  | step taken _ rest ih =>
      exact .step taken (each _ List.mem_cons_self)
        (ih fun label member => each label (List.mem_cons_of_mem _ member))

end Execution

/-- A list of labels that leads somewhere is an execution with any property that its steps
have. -/
theorem execution_of_execute {before after : State} {labels : List Label}
    (executed : system.execute before labels = some after)
    (each : ∀ {state label next}, label ∈ labels → system.step state label = some next →
      property state label next) :
    system.Execution property before labels after := by
  induction labels generalizing before with
  | nil =>
      cases executed
      exact .refl _
  | cons label labels ih =>
      rw [execute] at executed
      split at executed
      · cases executed
      · next next taken =>
          exact .step taken (each List.mem_cons_self taken)
            (ih executed fun member => each (List.mem_cons_of_mem _ member))

theorem executes_of_execute {before after : State} {labels : List Label}
    (executed : system.execute before labels = some after) :
    system.Executes before labels after :=
  execution_of_execute executed fun _ _ => trivial

/-! ## Refinement -/

section Refinement

variable {Abstract : Type u} {Move : Type v}

/-- Each step is, between related states, a step of the other system or none. -/
structure Refinement (system : System State Label) (abstract : System Abstract Move) where
  /-- The step of the other system that a step is. -/
  move : State → Label → Option Move
  Relates : State → Abstract → Prop
  related : ∀ {before after label state}, Relates before state →
    system.step before label = some after →
    ∃ next, (∀ step, move before label = some step → abstract.step state step = some next) ∧
      (move before label = none → next = state) ∧ Relates after next

variable {abstract : System Abstract Move} (refinement : Refinement system abstract)

/-- The steps of the other system along an execution. -/
def Refinement.moves : State → List Label → List Move
  | _, [] => []
  | state, label :: labels =>
      (refinement.move state label).toList ++
        ((system.step state label).map fun next => Refinement.moves next labels).getD []

/-- Along an execution the steps of the other system make an execution of it, which ends in a
state that is related to the one reached. -/
theorem Refinement.executes {before after : State} {labels : List Label} {state : Abstract}
    (execution : system.Executes before labels after) (relates : refinement.Relates before state) :
    ∃ final, abstract.Executes state (refinement.moves before labels) final ∧
      refinement.Relates after final := by
  induction execution generalizing state with
  | refl start => exact ⟨state, .refl state, relates⟩
  | @step before next after label labels taken _ rest ih =>
      rcases refinement.related relates taken with ⟨middle, moved, stayed, relates'⟩
      rcases ih relates' with ⟨final, later, relatesFinal⟩
      refine ⟨final, ?_, relatesFinal⟩
      rw [Refinement.moves, taken, Option.map_some, Option.getD_some]
      cases found : refinement.move before label with
      | none =>
          rw [stayed found] at later
          exact later
      | some move => exact .step (moved move found) trivial later

end Refinement

end System

end Library
