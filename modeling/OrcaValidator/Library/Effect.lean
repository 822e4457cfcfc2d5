import Mathlib.Init

/-!
# Stateful computations that may raise

An `Effect` reads and writes a state and either returns a value or raises an
exception.  Raising does not undo what was written before it, which is how an
exception behaves in an imperative language: whoever catches it sees the state as
it was left.

Two kinds of fact about an effect are supported.  `Ensures` is the weakest
precondition of a postcondition for each way of ending, `Preserves` says that an
invariant of the state survives both of them.
-/

namespace Library

universe u v w

/-- Two calls of which the second follows the first return only if both do. -/
theorem ok_of_bind {Error : Type v} {α : Type u} {β : Type u} {first : Except Error α}
    {next : α → Except Error β} {result : β} (ended : first >>= next = .ok result) :
    ∃ value, first = .ok value ∧ next value = .ok result := by
  cases first with
  | error error => cases ended
  | ok value => exact ⟨value, rfl, ended⟩

/-- A computation over `State` that returns an `α` or raises an `Error`. -/
def Effect (State : Type u) (Error : Type v) (α : Type w) : Type (max u v w) :=
  State → Except Error α × State

namespace Effect

variable {State : Type u} {Error : Type v} {α β : Type w}

/-- Return a value and leave the state alone. -/
protected def pure (value : α) : Effect State Error α := fun state => (.ok value, state)

/-- Run one effect and hand its value to the next; an exception ends both. -/
protected def bind (first : Effect State Error α) (next : α → Effect State Error β) :
    Effect State Error β := fun state =>
  match first state with
  | (.ok value, after) => next value after
  | (.error error, after) => (.error error, after)

instance : Monad (Effect State Error) where
  pure := Effect.pure
  bind := Effect.bind

/-- An effect that fails and changes nothing. -/
def raise (error : Error) : Effect State Error α := fun state => (.error error, state)

/-- `try: body except error: handler(error)`. -/
def catching (body : Effect State Error α) (handler : Error → Effect State Error α) :
    Effect State Error α := fun state =>
  match body state with
  | (.ok value, after) => (.ok value, after)
  | (.error error, after) => handler error after

/-- The state as it is. -/
def read : Effect State Error State := fun state => (.ok state, state)

/-- A change of the state. -/
def modify (change : State → State) : Effect State Error PUnit.{w + 1} :=
  fun state => (.ok ⟨⟩, change state)

/-- Continue with the outcome of a call that does not touch the state. -/
def lift (outcome : Except Error α) : Effect State Error α := fun state => (outcome, state)

@[simp]
theorem pure_apply (value : α) (state : State) :
    (pure value : Effect State Error α) state = (.ok value, state) := rfl

theorem bind_apply (first : Effect State Error α) (next : α → Effect State Error β)
    (state : State) :
    (first >>= next) state =
      match first state with
      | (.ok value, after) => next value after
      | (.error error, after) => (.error error, after) := rfl

@[simp]
theorem raise_apply (error : Error) (state : State) :
    (raise error : Effect State Error α) state = (.error error, state) := rfl

@[simp]
theorem read_apply (state : State) :
    (read : Effect State Error State) state = (.ok state, state) := rfl

@[simp]
theorem modify_apply (change : State → State) (state : State) :
    (modify change : Effect State Error PUnit.{w + 1}) state = (.ok ⟨⟩, change state) := rfl

@[simp]
theorem lift_apply (outcome : Except Error α) (state : State) :
    (lift outcome : Effect State Error α) state = (outcome, state) := rfl

theorem lift_ok_bind (value : α) (next : α → Effect State Error β) :
    (lift (.ok value) : Effect State Error α) >>= next = next value := rfl

theorem catching_apply (body : Effect State Error α) (handler : Error → Effect State Error α)
    (state : State) :
    catching body handler state =
      match body state with
      | (.ok value, after) => (.ok value, after)
      | (.error error, after) => handler error after := rfl

/-- From `state`, the effect ends by returning as `returned` says or by raising as
`raised` says. -/
def Ensures (action : Effect State Error α) (state : State) (returned : α → State → Prop)
    (raised : Error → State → Prop) : Prop :=
  match action state with
  | (.ok value, after) => returned value after
  | (.error error, after) => raised error after

namespace Ensures

variable {state : State} {returned : α → State → Prop} {raised : Error → State → Prop}

theorem pure {value : α} (holds : returned value state) :
    Ensures (pure value) state returned raised := holds

theorem raise {error : Error} (holds : raised error state) :
    Ensures (raise error) state returned raised := holds

theorem modify {change : State → State} {returned : PUnit.{w + 1} → State → Prop}
    (holds : returned ⟨⟩ (change state)) :
    Ensures (modify change) state returned raised := holds

theorem read {returned : State → State → Prop} (holds : returned state state) :
    Ensures read state returned raised := holds

theorem lift {outcome : Except Error α}
    (ok : ∀ value, outcome = .ok value → returned value state)
    (error : ∀ reason, outcome = .error reason → raised reason state) :
    Ensures (lift outcome) state returned raised := by
  cases outcome with
  | ok value => exact ok value rfl
  | error reason => exact error reason rfl

theorem bind {first : Effect State Error α} {next : α → Effect State Error β}
    {returned : β → State → Prop}
    (holds : Ensures first state
      (fun value after => Ensures (next value) after returned raised) raised) :
    Ensures (first >>= next) state returned raised := by
  unfold Ensures at holds ⊢
  rw [bind_apply]
  rcases ended : first state with ⟨value | value, after⟩ <;> rw [ended] at holds <;> exact holds

theorem catching {body : Effect State Error α} {handler : Error → Effect State Error α}
    (holds : Ensures body state returned
      (fun error after => Ensures (handler error) after returned raised)) :
    Ensures (catching body handler) state returned raised := by
  unfold Ensures at holds ⊢
  rw [catching_apply]
  rcases ended : body state with ⟨value | value, after⟩ <;> rw [ended] at holds <;> exact holds

theorem of_ok {action : Effect State Error α} {value : α} {after : State}
    (ran : action state = (.ok value, after)) (holds : returned value after) :
    Ensures action state returned raised := by
  unfold Ensures
  rw [ran]
  exact holds

theorem ok {action : Effect State Error α} {value : α}
    (ensured : Ensures action state returned raised) (ended : (action state).1 = .ok value) :
    returned value (action state).2 := by
  unfold Ensures at ensured
  rcases outcome : action state with ⟨value' | value', after⟩ <;> rw [outcome] at ensured ended
  · cases ended
  · obtain rfl : value' = value := Except.ok.inj ended
    exact ensured

theorem weaken {action : Effect State Error α} {returned' : α → State → Prop}
    {raised' : Error → State → Prop} (holds : Ensures action state returned raised)
    (ok : ∀ value after, returned value after → returned' value after)
    (error : ∀ reason after, raised reason after → raised' reason after) :
    Ensures action state returned' raised' := by
  unfold Ensures at holds ⊢
  rcases ended : action state with ⟨value | value, after⟩ <;> rw [ended] at holds
  · exact error _ _ holds
  · exact ok _ _ holds

/-- A postcondition of both ways of ending holds of the state that is left. -/
theorem after {action : Effect State Error α} {holds : State → Prop}
    (ensured : Ensures action state (fun _ after => holds after) fun _ after => holds after) :
    holds (action state).2 := by
  unfold Ensures at ensured
  rcases ended : action state with ⟨value | value, after⟩ <;> rw [ended] at ensured <;>
    exact ensured

/-- What does not depend on the effect holds after it. -/
theorem const {action : Effect State Error α} {fact : Prop} (holds : fact) :
    Ensures action state (fun _ _ => fact) fun _ _ => fact := by
  unfold Ensures
  split <;> exact holds

theorem and {action : Effect State Error α} {returned' : α → State → Prop}
    {raised' : Error → State → Prop} (left : Ensures action state returned raised)
    (right : Ensures action state returned' raised') :
    Ensures action state (fun value after => returned value after ∧ returned' value after)
      (fun error after => raised error after ∧ raised' error after) := by
  unfold Ensures at left right ⊢
  rcases ended : action state with ⟨value | value, after⟩ <;> rw [ended] at left right <;>
    exact ⟨left, right⟩

end Ensures

/-- However the effect ends, `invariant` holds of the state it leaves if it held of the
state it found. -/
def Preserves (invariant : State → Prop) (action : Effect State Error α) : Prop :=
  ∀ state, invariant state → invariant (action state).2

namespace Preserves

variable {invariant : State → Prop}

theorem pure (value : α) :
    Preserves invariant (pure value : Effect State Error α) := fun _ holds => holds

theorem raise (error : Error) :
    Preserves invariant (raise error : Effect State Error α) := fun _ holds => holds

theorem read : Preserves invariant (read : Effect State Error State) := fun _ holds => holds

theorem lift (outcome : Except Error α) :
    Preserves invariant (lift outcome : Effect State Error α) := fun _ holds => holds

theorem modify {change : State → State}
    (keeps : ∀ state, invariant state → invariant (change state)) :
    Preserves invariant (modify change : Effect State Error PUnit.{w + 1}) := keeps

theorem bind {first : Effect State Error α} {next : α → Effect State Error β}
    (keepsFirst : Preserves invariant first)
    (keepsNext : ∀ value, Preserves invariant (next value)) :
    Preserves invariant (first >>= next) := by
  intro state holds
  have middle := keepsFirst state holds
  rw [bind_apply]
  rcases ended : first state with ⟨value | value, after⟩ <;> rw [ended] at middle
  · exact middle
  · exact keepsNext value after middle

theorem catching {body : Effect State Error α} {handler : Error → Effect State Error α}
    (keepsBody : Preserves invariant body)
    (keepsHandler : ∀ error, Preserves invariant (handler error)) :
    Preserves invariant (catching body handler) := by
  intro state holds
  have middle := keepsBody state holds
  rw [catching_apply]
  rcases ended : body state with ⟨value | value, after⟩ <;> rw [ended] at middle
  · exact keepsHandler value after middle
  · exact middle

theorem ite {condition : Prop} [Decidable condition] {yes no : Effect State Error α}
    (keepsYes : condition → Preserves invariant yes)
    (keepsNo : ¬condition → Preserves invariant no) :
    Preserves invariant (if condition then yes else no) := by
  by_cases holds : condition
  · simpa [holds] using keepsYes holds
  · simpa [holds] using keepsNo holds

end Preserves

theorem Ensures.ofPreserves {invariant : State → Prop} {action : Effect State Error α}
    {state : State} (keeps : Preserves invariant action) (holds : invariant state) :
    Ensures action state (fun _ after => invariant after) (fun _ after => invariant after) := by
  have kept := keeps state holds
  unfold Ensures
  rcases ended : action state with ⟨value | value, after⟩ <;> rw [ended] at kept <;> exact kept

/-- From one state, two effects end in the same way, in related states. -/
def Coupled (related : State → State → Prop) (left right : Effect State Error α)
    (state : State) : Prop :=
  (left state).1 = (right state).1 ∧ related (left state).2 (right state).2

namespace Coupled

variable {related : State → State → Prop} {state : State}

theorem refl (reflexive : ∀ state, related state state) (action : Effect State Error α) :
    Coupled related action action state := ⟨rfl, reflexive _⟩

theorem read {γ : Type u} {left right : State → Effect State Error γ}
    (next : Coupled related (left state) (right state) state) :
    Coupled related (Effect.read >>= left) (Effect.read >>= right) state := next

theorem modify {left right : State → State} (next : related (left state) (right state)) :
    Coupled related (Effect.modify left : Effect State Error PUnit.{w + 1})
      (Effect.modify right) state := ⟨rfl, next⟩

/-- Two effects that begin alike are coupled if what follows is. -/
theorem bind (reflexive : ∀ state, related state state) {first : Effect State Error α}
    {left right : α → Effect State Error β}
    (next : ∀ value after, first state = (.ok value, after) →
      Coupled related (left value) (right value) after) :
    Coupled related (first >>= left) (first >>= right) state := by
  unfold Coupled
  rw [bind_apply, bind_apply]
  rcases ended : first state with ⟨value | value, after⟩
  · exact ⟨rfl, reflexive after⟩
  · exact next value after ended

end Coupled

/-- From one state, an effect ends as another one does from what `view` shows of the state,
and shows the same afterwards. -/
def Refines {View : Type u} (view : State → View) (action : Effect State Error α)
    (abstract : Effect View Error α) (state : State) : Prop :=
  (action state).1 = (abstract (view state)).1 ∧
    view (action state).2 = (abstract (view state)).2

namespace Refines

variable {View : Type u} {view : State → View} {state : State}

theorem pure (value : α) :
    Refines view (Pure.pure value) (Pure.pure value : Effect View Error α) state := ⟨rfl, rfl⟩

theorem raise (error : Error) :
    Refines view (Effect.raise error) (Effect.raise error : Effect View Error α) state :=
  ⟨rfl, rfl⟩

/-- A call that does not touch the state. -/
theorem lift {outcome : Except Error α} {next : α → Effect State Error β}
    {next' : α → Effect View Error β}
    (continues : ∀ value, outcome = .ok value → Refines view (next value) (next' value) state) :
    Refines view (Effect.lift outcome >>= next) (Effect.lift outcome >>= next') state := by
  cases outcome with
  | ok value => exact continues value rfl
  | error error => exact ⟨rfl, rfl⟩

theorem modify {change : State → State} {change' : View → View}
    (next : view (change state) = change' (view state)) :
    Refines view (Effect.modify change : Effect State Error PUnit.{w + 1})
      (Effect.modify change') state := ⟨rfl, next⟩

theorem read {γ : Type u} {left : State → Effect State Error γ}
    {right : View → Effect View Error γ}
    (next : Refines view (left state) (right (view state)) state) :
    Refines view (Effect.read >>= left) (Effect.read >>= right) state := next

theorem bind {first : Effect State Error α} {first' : Effect View Error α}
    {next : α → Effect State Error β} {next' : α → Effect View Error β}
    (begins : Refines view first first' state)
    (continues : ∀ value after, first state = (.ok value, after) →
      Refines view (next value) (next' value) after) :
    Refines view (first >>= next) (first' >>= next') state := by
  rcases begins with ⟨same, shows⟩
  unfold Refines
  rw [bind_apply, bind_apply]
  rcases ended : first state with ⟨value | value, after⟩
  · rcases ended' : first' (view state) with ⟨value' | value', after'⟩
    · simp only [ended, ended'] at same shows
      exact ⟨by rw [same], shows⟩
    · simp only [ended, ended'] at same
      cases same
  · rcases ended' : first' (view state) with ⟨value' | value', after'⟩
    · simp only [ended, ended'] at same
      cases same
    · simp only [ended, ended', Except.ok.injEq] at same shows
      subst same shows
      exact continues value after ended

/-- An effect that shows nothing goes unnoticed. -/
theorem skip {first : Effect State Error α} {next : α → Effect State Error β}
    {abstract : Effect View Error β} {value : α} {after : State}
    (ran : first state = (.ok value, after)) (hidden : view after = view state)
    (continues : Refines view (next value) abstract after) :
    Refines view (first >>= next) abstract state := by
  unfold Refines at continues ⊢
  rw [hidden] at continues
  rw [bind_apply, ran]
  exact continues

theorem catching {body : Effect State Error α} {body' : Effect View Error α}
    {handler : Error → Effect State Error α} {handler' : Error → Effect View Error α}
    (tries : Refines view body body' state)
    (handles : ∀ error after, body state = (.error error, after) →
      Refines view (handler error) (handler' error) after) :
    Refines view (Effect.catching body handler) (Effect.catching body' handler') state := by
  rcases tries with ⟨same, shows⟩
  unfold Refines
  rw [catching_apply, catching_apply]
  rcases ended : body state with ⟨value | value, after⟩
  · rcases ended' : body' (view state) with ⟨value' | value', after'⟩
    · simp only [ended, ended', Except.error.injEq] at same shows
      subst same shows
      exact handles value after ended
    · simp only [ended, ended'] at same
      cases same
  · rcases ended' : body' (view state) with ⟨value' | value', after'⟩
    · simp only [ended, ended'] at same
      cases same
    · simp only [ended, ended'] at same shows
      exact ⟨by rw [same], shows⟩

end Refines

/-- The effect on the first of two states. -/
def onFirst {Other : Type u} (action : Effect State Error α) :
    Effect (State × Other) Error α :=
  fun states => ((action states.1).1, (action states.1).2, states.2)

/-- The effect on the second of two states. -/
def onSecond {Other : Type u} (action : Effect State Error α) :
    Effect (Other × State) Error α :=
  fun states => ((action states.2).1, states.1, (action states.2).2)

section Beside

variable {Other : Type u}

theorem Ensures.onFirst {action : Effect State Error α} {states : State × Other}
    {returned : α → State × Other → Prop} {raised : Error → State × Other → Prop}
    (holds : Ensures action states.1 (fun value after => returned value (after, states.2))
      fun error after => raised error (after, states.2)) :
    Ensures (onFirst action) states returned raised := by
  unfold Ensures Effect.onFirst at *
  rcases ended : action states.1 with ⟨value | value, after⟩ <;> rw [ended] at holds <;>
    exact holds

theorem Ensures.onSecond {action : Effect State Error α} {states : Other × State}
    {returned : α → Other × State → Prop} {raised : Error → Other × State → Prop}
    (holds : Ensures action states.2 (fun value after => returned value (states.1, after))
      fun error after => raised error (states.1, after)) :
    Ensures (onSecond action) states returned raised := by
  unfold Ensures Effect.onSecond at *
  rcases ended : action states.2 with ⟨value | value, after⟩ <;> rw [ended] at holds <;>
    exact holds

theorem onFirst_snd {action : Effect State Error α} {states after : State × Other}
    {outcome : Except Error α} (ran : onFirst action states = (outcome, after)) :
    after.2 = states.2 := (congrArg (fun ran => ran.2.2) ran).symm

theorem Refines.onFirst (action : Effect State Error α) (states : State × Other) :
    Refines (Prod.fst : State × Other → State) (Effect.onFirst action) action states := ⟨rfl, rfl⟩

/-- What happens on the second state is only a call, for the first one. -/
theorem Refines.onSecond {action : Effect State Error α} {outcome : Except Error α}
    {states : Other × State} (answers : (action states.2).1 = outcome) :
    Refines (Prod.fst : Other × State → Other) (Effect.onSecond action) (Effect.lift outcome)
      states := ⟨answers, rfl⟩

end Beside

/-- The effects one after the other, whether or not the ones before raised: how each of them
ends, and the state that is left. -/
def trace : List (Effect State Error α) → State → List (Except Error α) × State
  | [], state => ([], state)
  | action :: actions, state =>
      let rest := trace actions (action state).2
      ((action state).1 :: rest.1, rest.2)

theorem trace_refines {ι : Type w} {View : Type u} {view : State → View}
    {action : ι → Effect State Error α} {abstract : ι → Effect View Error α}
    (each : ∀ call state, Refines view (action call) (abstract call) state) (calls : List ι)
    (state : State) :
    (trace (calls.map action) state).1 = (trace (calls.map abstract) (view state)).1 ∧
      view (trace (calls.map action) state).2 =
        (trace (calls.map abstract) (view state)).2 := by
  induction calls generalizing state with
  | nil => exact ⟨rfl, rfl⟩
  | cons call calls ih =>
      have first := each call state
      have rest := ih (action call state).2
      simp only [List.map_cons, trace]
      rw [rest.1, rest.2, first.1, first.2]
      exact ⟨rfl, rfl⟩

end Effect

end Library
