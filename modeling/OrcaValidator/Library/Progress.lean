import Mathlib.Data.Nat.Notation
import Mathlib.Tactic.ByContra
import OrcaValidator.Library.Transition

/-!
# Progress

Behaviours are the executions of a transition system that go on for ever.  Fairness says of
something that is possible from some time on that it is done some time later, and `LeadsTo`
says that one thing always comes after another.

What is possible until it is done is done by `leadsTo_of_fair`; a thing that needs several
such steps comes about because something decreases with each, by `leadsTo_of_rank`.
-/

namespace Library

namespace System

universe u v

variable {State : Type u} {Label : Type v}

/-- A state and the next label at every time. -/
structure Behaviour (system : System State Label) where
  state : ℕ → State
  label : ℕ → Label
  initial : system.initial (state 0)
  taken : ∀ time, system.step (state time) (label time) = some (state (time + 1))

namespace Behaviour

variable {system : System State Label} (behaviour : system.Behaviour)

/-- Whenever the first holds, the second holds then or later. -/
def LeadsTo (first second : State → Prop) : Prop :=
  ∀ time, first (behaviour.state time) →
    ∃ later, time ≤ later ∧ second (behaviour.state later)

/-- What is possible from some time on is done at some time after. -/
def Fair (possible : State → Prop) (done : Label → Prop) : Prop :=
  ∀ time, (∀ later, time ≤ later → possible (behaviour.state later)) →
    ∃ later, time ≤ later ∧ done (behaviour.label later)

variable {behaviour} {first second third fourth possible : State → Prop} {done : Label → Prop}

/-- What every step keeps holds from a time on. -/
theorem always_from (invariant : State → Prop) {time : ℕ}
    (step : ∀ {now}, time ≤ now → invariant (behaviour.state now) →
      invariant (behaviour.state (now + 1)))
    (start : invariant (behaviour.state time)) {later : ℕ} (after : time ≤ later) :
    invariant (behaviour.state later) := by
  induction after with
  | refl => exact start
  | step passed ih => exact step passed ih

theorem always (invariant : State → Prop)
    (step : ∀ {now}, invariant (behaviour.state now) → invariant (behaviour.state (now + 1)))
    (start : invariant (behaviour.state 0)) (time : ℕ) : invariant (behaviour.state time) :=
  always_from invariant (fun _ => step) start (Nat.zero_le time)

/-- Where the second has come about instead of the third, it leads there as well. -/
theorem LeadsTo.or_trans (leads : behaviour.LeadsTo first fun state => third state ∨ second state)
    (leads' : behaviour.LeadsTo second third) : behaviour.LeadsTo first third := by
  intro time holds
  rcases leads time holds with ⟨middle, after, reached | holds'⟩
  · exact ⟨middle, after, reached⟩
  · rcases leads' middle holds' with ⟨later, after', reached⟩
    exact ⟨later, Nat.le_trans after after', reached⟩

/-- Until the second comes about the first stays and makes something possible, which brings
the second about once it is done. -/
theorem leadsTo_of_fair (fair : behaviour.Fair possible done)
    (enables : ∀ {time}, first (behaviour.state time) → possible (behaviour.state time))
    (stays : ∀ {time}, first (behaviour.state time) →
      second (behaviour.state (time + 1)) ∨ first (behaviour.state (time + 1)))
    (helps : ∀ {time}, first (behaviour.state time) → done (behaviour.label time) →
      second (behaviour.state (time + 1))) :
    behaviour.LeadsTo first second := by
  intro time holds
  by_contra never
  have avoided : ∀ later, time ≤ later → ¬second (behaviour.state later) :=
    fun later after reached => never ⟨later, after, reached⟩
  have lasts : ∀ later, time ≤ later → first (behaviour.state later) := by
    intro later after
    refine always_from first ?_ holds after
    intro now passed still
    exact (stays still).resolve_left (avoided (now + 1) (Nat.le_succ_of_le passed))
  rcases fair time fun later after => enables (lasts later after) with ⟨later, after, isDone⟩
  exact avoided (later + 1) (Nat.le_succ_of_le after) (helps (lasts later after) isDone)

/-- What stays until something comes about is still there when something else has been led to,
unless the first has come about by then. -/
theorem LeadsTo.with_stable (leads : behaviour.LeadsTo first second)
    (stays : ∀ {time}, fourth (behaviour.state time) →
      third (behaviour.state (time + 1)) ∨ fourth (behaviour.state (time + 1))) :
    behaviour.LeadsTo (fun state => first state ∧ fourth state)
      fun state => third state ∨ (second state ∧ fourth state) := by
  rintro time ⟨holds, still⟩
  rcases leads time holds with ⟨later, after, reached⟩
  by_cases sooner : ∃ now, time ≤ now ∧ third (behaviour.state now)
  · rcases sooner with ⟨now, after', earlier⟩
    exact ⟨now, after', .inl earlier⟩
  · have lasts : fourth (behaviour.state later) := by
      refine always_from fourth ?_ still after
      intro now passed there
      exact (stays there).resolve_left fun earlier =>
        sooner ⟨now + 1, Nat.le_succ_of_le passed, earlier⟩
    exact ⟨later, after, .inr ⟨reached, lasts⟩⟩

/-- What leads to its goal or to something of lower rank leads to its goal. -/
theorem leadsTo_of_rank (stage : ℕ → State → Prop)
    (descends : ∀ rank, behaviour.LeadsTo (stage rank)
      fun state => second state ∨ ∃ lower, lower < rank ∧ stage lower state) (rank : ℕ) :
    behaviour.LeadsTo (stage rank) second := by
  induction rank using Nat.strongRecOn with
  | ind rank ih =>
      refine (descends rank).or_trans ?_
      rintro time ⟨lower, less, holds⟩
      exact ih lower less time holds

/-! ## A behaviour that comes to rest -/

/-- The labels one by one, and then a label that changes nothing for ever. -/
def resting {start final : State} (initial : system.initial start) (labels : List Label)
    (executed : system.execute start labels = some final) (idle : Label)
    (idles : system.step final idle = some final) : system.Behaviour where
  state time := (system.execute start (labels.take time)).getD start
  label time := labels.getD time idle
  initial := initial
  taken := by
    intro time
    have reaches : ∀ (labels : List Label) (start : State) (time : ℕ) (default : State),
        system.execute start labels = some final →
        system.step ((system.execute start (labels.take time)).getD default)
          (labels.getD time idle) =
            some ((system.execute start (labels.take (time + 1))).getD default) := by
      intro labels
      induction labels with
      | nil =>
          rintro start time default ⟨⟩
          simpa [execute] using idles
      | cons label labels ih =>
          intro start time default executed
          rw [execute] at executed
          split at executed
          · cases executed
          · next next taken =>
              cases time with
              | zero => simp [execute, taken]
              | succ time => simpa [execute, taken] using ih next time default executed
    exact reaches labels start time start executed

variable {start final : State} {initial : system.initial start} {labels : List Label}
  {executed : system.execute start labels = some final} {idle : Label}
  {idles : system.step final idle = some final}

theorem label_resting (time : ℕ) :
    (resting initial labels executed idle idles).label time ∈ idle :: labels := by
  change (labels[time]?).getD idle ∈ idle :: labels
  cases found : labels[time]? with
  | none => exact List.mem_cons_self
  | some label => exact List.mem_cons_of_mem _ (List.mem_of_getElem? found)

/-- What is not possible at rest is fair. -/
theorem fair_resting (impossible : ¬possible final) :
    (resting initial labels executed idle idles).Fair possible done := by
  intro time lasts
  have atRest := lasts (time + labels.length) (Nat.le_add_right _ _)
  rw [show (resting initial labels executed idle idles).state (time + labels.length) = final by
    change (system.execute start (labels.take (time + labels.length))).getD start = final
    rw [List.take_of_length_le (Nat.le_add_left _ _), executed, Option.getD_some]] at atRest
  exact absurd atRest impossible

end Behaviour

end System

end Library
