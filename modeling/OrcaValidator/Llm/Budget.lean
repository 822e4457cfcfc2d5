import Mathlib.Data.Fintype.Card
import Mathlib.Data.Int.Order.Basic
import Mathlib.Logic.Function.Basic
import Mathlib.Tactic.Linarith
import OrcaValidator.Library.Transition

/-!
# The daily token budget

The steps of any number of `_chat` calls around the counters that the Redis server keeps
for each UTC day: `check_budget` computes the key of the day and reads its counter, the
completion uses tokens, and `record_usage` computes the key anew, adds them and lets the
key expire.  The clock passes midnight between any two steps.

A call that has been admitted may still add its tokens to the day on which it was checked
or to any later one.  What is recorded for a day, together with what the calls in flight
may still add to it, stays below the budget and the tokens of the calls in flight.
-/

namespace OrcaValidator

open Library System

/-- Where a call of `_chat` is. -/
inductive ChatPhase where
  | waiting
  /-- It has computed the key of a day and reads the counter. -/
  | checking (day : ℕ)
  | admitted
  | answered (tokens : ℤ)
  /-- It has computed the key of a day and adds its tokens. -/
  | recording (day : ℕ) (tokens : ℤ)
  | recorded
  | ended

namespace ChatPhase

/-- The call is between its `check_budget` and the end of its `record_usage`. -/
def InFlight : ChatPhase → Prop
  | .waiting | .ended => False
  | _ => True

instance : DecidablePred InFlight := fun phase => by
  cases phase <;> unfold InFlight <;> infer_instance

/-- Tokens of the call may still be added to the counter of the day, however the counter
stands when the call reads it. -/
def MayAdd (today day : ℕ) : ChatPhase → Prop
  | .checking checked => today ≤ day ∧ checked ≠ day
  | .admitted | .answered _ => today ≤ day
  | .recording key _ => key = day
  | _ => False

theorem MayAdd.inFlight {today day : ℕ} {phase : ChatPhase} (may : phase.MayAdd today day) :
    phase.InFlight := by
  cases phase <;> first | exact may.elim | trivial

end ChatPhase

/-- The clock, the server's keys and the calls. -/
structure Spending (Call : Type) where
  today : ℕ
  counters : ℕ → Option ℤ
  /-- The day on which a key may have expired. -/
  expiry : ℕ → Option ℕ
  phase : Call → ChatPhase

/-- The clock, and the statements of a call that concern the counter of the day. -/
inductive SpendingStep (Call : Type) where
  | midnight
  | check (call : Call)
  | get (call : Call)
  | answer (call : Call) (tokens : ℤ)
  | record (call : Call)
  | incrby (call : Call)
  | expire (call : Call)
  /-- The call raises, or its process stops. -/
  | fail (call : Call)
  /-- The server drops a key that has expired. -/
  | drop (day : ℕ)

namespace Spending

variable {Call : Type} [DecidableEq Call]

/-- How far the call is now. -/
def setPhase (state : Spending Call) (call : Call) (phase : ChatPhase) : Spending Call :=
  { state with phase := Function.update state.phase call phase }

/-- `int(get(key) or 0)`. -/
def used (state : Spending Call) (day : ℕ) : ℤ := (state.counters day).getD 0

/-- `INCRBY`. -/
def add (state : Spending Call) (day : ℕ) (tokens : ℤ) : Spending Call :=
  { state with
    counters := Function.update state.counters day (some (state.used day + tokens)) }

/-- `EXPIRE` of a key that is there, after 172800 seconds. -/
def keep (state : Spending Call) (day : ℕ) : Spending Call :=
  { state with expiry := Function.update state.expiry day (some (state.today + 2)) }

/-- The counter of the day expires. -/
def forget (state : Spending Call) (day : ℕ) : Spending Call :=
  { state with
    counters := Function.update state.counters day none
    expiry := Function.update state.expiry day none }

/-- One step.  The check and the count are statements of their own, and others come between. -/
def step (budget : ℤ) (state : Spending Call) : SpendingStep Call → Option (Spending Call)
  | .midnight => some { state with today := state.today + 1 }
  | .check call =>
      match state.phase call with
      | .waiting =>
          if budget ≤ 0 then some (state.setPhase call .admitted)
          else some (state.setPhase call (.checking state.today))
      | _ => none
  | .get call =>
      match state.phase call with
      | .checking day =>
          if budget ≤ state.used day then some (state.setPhase call .ended)
          else some (state.setPhase call .admitted)
      | _ => none
  | .answer call tokens =>
      match state.phase call with
      | .admitted => some (state.setPhase call (.answered tokens))
      | _ => none
  | .record call =>
      match state.phase call with
      | .answered tokens =>
          if tokens ≤ 0 then some (state.setPhase call .ended)
          else some (state.setPhase call (.recording state.today tokens))
      | _ => none
  | .incrby call =>
      match state.phase call with
      | .recording day tokens =>
          some ((state.add day tokens).setPhase call .recorded)
      | _ => none
  | .expire call =>
      match state.phase call with
      | .recorded =>
          if (state.counters state.today).isSome then
            some ((state.keep state.today).setPhase call .ended)
          else some (state.setPhase call .ended)
      | _ => none
  | .fail call =>
      if (state.phase call).InFlight then some (state.setPhase call .ended) else none
  | .drop day =>
      match state.expiry day with
      | some due =>
          if due ≤ state.today then
            some (state.forget day)
          else none
      | none => none

/-- No call has been made yet and nothing is recorded. -/
def Fresh (state : Spending Call) : Prop :=
  (∀ day, state.counters day = none) ∧ ∀ call, state.phase call = .waiting

/-- The calls and the server under a budget. -/
def system (budget : ℤ) : System (Spending Call) (SpendingStep Call) where
  initial := Fresh
  step := step budget

omit [DecidableEq Call] in
/-- At most so many calls are in flight. -/
def AtMost (limit : ℕ) (state : Spending Call) : Prop :=
  ∀ calls : Finset Call, (∀ call ∈ calls, (state.phase call).InFlight) → calls.card ≤ limit

/-- A step after which at most `limit` calls are in flight, and in which no answer uses more
than `most` tokens. -/
def Limited (limit most : ℕ) (_before : Spending Call) (label : SpendingStep Call)
    (after : Spending Call) : Prop :=
  after.AtMost limit ∧ ∀ call tokens, label = .answer call tokens → tokens ≤ most

/-- What every execution keeps: no day is used in advance, and the calls that may still add to a
day leave room for what they can add. -/
structure Invariant (budget : ℤ) (limit most : ℕ) (state : Spending Call) : Prop where
  future : ∀ day, state.today < day → state.used day = 0
  nonneg : ∀ day, 0 ≤ state.used day
  answered : ∀ call tokens, state.phase call = .answered tokens → tokens ≤ most
  recording : ∀ call day tokens, state.phase call = .recording day tokens →
    day ≤ state.today ∧ 0 ≤ tokens ∧ tokens ≤ most
  room : ∀ day (calls : Finset Call),
    (∀ call ∈ calls, (state.phase call).MayAdd state.today day) →
      state.used day + calls.card * most ≤ budget - 1 + limit * most

variable {budget : ℤ} {limit most : ℕ} {before after : Spending Call}

omit [DecidableEq Call] in
theorem used_forget_le (state : Spending Call) (nonneg : ∀ day, 0 ≤ state.used day)
    (key day : ℕ) : 0 ≤ (state.forget key).used day ∧
      (state.forget key).used day ≤ state.used day := by
  by_cases same : day = key
  · subst same
    have dropped : (state.forget day).used day = 0 := by simp [used, forget]
    have old := nonneg day
    omega
  · have kept : (state.forget key).used day = state.used day := by simp [used, forget, same]
    have old := nonneg day
    omega

omit [DecidableEq Call] in
theorem used_add (state : Spending Call) (key day : ℕ) (tokens : ℤ) :
    (state.add key tokens).used day =
      if day = key then state.used key + tokens else state.used day := by
  by_cases same : day = key
  · subst same
    simp [used, add]
  · simp [used, add, same]

omit [DecidableEq Call] in
/-- There is room where the counter is below the budget, and where no call may add to it
that could not before. -/
theorem room_of (room : ∀ day (calls : Finset Call),
      (∀ call ∈ calls, (before.phase call).MayAdd before.today day) →
        before.used day + calls.card * most ≤ budget - 1 + limit * most)
    (atMost : after.AtMost limit) (less : ∀ day, after.used day ≤ before.used day)
    (each : ∀ day, after.used day ≤ budget - 1 ∨
      ∀ call, (after.phase call).MayAdd after.today day →
        (before.phase call).MayAdd before.today day) (day : ℕ) (calls : Finset Call)
    (may : ∀ call ∈ calls, (after.phase call).MayAdd after.today day) :
    after.used day + calls.card * most ≤ budget - 1 + limit * most := by
  rcases each day with below | fewer
  · have count := atMost calls fun call member => (may call member).inFlight
    have tokens : calls.card * most ≤ limit * most := Nat.mul_le_mul_right most count
    have tokens' : (calls.card : ℤ) * most ≤ limit * most := by exact_mod_cast tokens
    omega
  · have old := room day calls fun call member => fewer call (may call member)
    have recorded := less day
    omega

namespace Invariant

theorem setPhase {call : Call} {phase : ChatPhase} (invariant : Invariant budget limit most before)
    (atMost : (before.setPhase call phase).AtMost limit)
    (answered : ∀ tokens, phase = .answered tokens → tokens ≤ most)
    (recording : ∀ day tokens, phase = .recording day tokens →
      day ≤ before.today ∧ 0 ≤ tokens ∧ tokens ≤ most)
    (each : ∀ day, before.used day ≤ budget - 1 ∨
      (phase.MayAdd before.today day → (before.phase call).MayAdd before.today day)) :
    Invariant budget limit most (before.setPhase call phase) where
  future := invariant.future
  nonneg := invariant.nonneg
  answered := by
    intro other tokens found
    by_cases same : other = call
    · subst same
      exact answered tokens (by simpa [Spending.setPhase] using found)
    · exact invariant.answered other tokens (by simpa [Spending.setPhase, same] using found)
  recording := by
    intro other day tokens found
    by_cases same : other = call
    · subst same
      exact recording day tokens (by simpa [Spending.setPhase] using found)
    · exact invariant.recording other day tokens
        (by simpa [Spending.setPhase, same] using found)
  room := by
    refine room_of invariant.room atMost (fun _ => le_rfl) fun day => ?_
    rcases each day with below | fewer
    · exact .inl below
    · right
      intro other may
      by_cases same : other = call
      · subst same
        exact fewer (by simpa [Spending.setPhase] using may)
      · simpa [Spending.setPhase, same] using may

/-- A call that ends, or goes on without a key, needs no more room than before. -/
theorem setPhase_of_imp {call : Call} {phase : ChatPhase}
    (invariant : Invariant budget limit most before)
    (atMost : (before.setPhase call phase).AtMost limit)
    (answered : ∀ tokens, phase = .answered tokens → tokens ≤ most)
    (recording : ∀ day tokens, phase ≠ .recording day tokens)
    (fewer : ∀ day, phase.MayAdd before.today day →
      (before.phase call).MayAdd before.today day) :
    Invariant budget limit most (before.setPhase call phase) :=
  invariant.setPhase atMost answered (fun day tokens same => absurd same (recording day tokens))
    fun day => .inr (fewer day)

theorem ends {call : Call} (invariant : Invariant budget limit most before)
    (atMost : (before.setPhase call .ended).AtMost limit) :
    Invariant budget limit most (before.setPhase call .ended) :=
  invariant.setPhase_of_imp atMost (by simp) (by simp) fun _ may => may.elim

/-- Tokens that are added take the room of the call that adds them. -/
theorem add {call : Call} {key : ℕ} {tokens : ℤ} (invariant : Invariant budget limit most before)
    (recording : before.phase call = .recording key tokens) :
    Invariant budget limit most ((before.add key tokens).setPhase call .recorded) where
  future := by
    intro day later
    have bounds := invariant.recording call key tokens recording
    have differ : day ≠ key := by
      rintro rfl
      exact absurd later (by simpa [Spending.add, Spending.setPhase] using bounds.1)
    have recorded : (before.add key tokens).used day = 0 := by
      rw [used_add, if_neg differ]
      exact invariant.future day later
    exact recorded
  nonneg := by
    intro day
    have bounds := invariant.recording call key tokens recording
    have recorded := used_add before key day tokens
    have old := invariant.nonneg day
    have oldKey := invariant.nonneg key
    change 0 ≤ (before.add key tokens).used day
    rw [recorded]
    split <;> omega
  answered := by
    intro other tokens found
    by_cases same : other = call
    · simp [Spending.setPhase, same] at found
    · exact invariant.answered other tokens
        (by simpa [Spending.setPhase, Spending.add, same] using found)
  recording := by
    intro other day tokens found
    by_cases same : other = call
    · simp [Spending.setPhase, same] at found
    · exact invariant.recording other day tokens
        (by simpa [Spending.setPhase, Spending.add, same] using found)
  room := by
    intro day calls may
    have bounds := invariant.recording call key tokens recording
    have absent : call ∉ calls := by
      intro member
      have impossible := may call member
      simp [Spending.setPhase, ChatPhase.MayAdd] at impossible
    have others : ∀ other ∈ calls, (before.phase other).MayAdd before.today day := by
      intro other member
      have differ : other ≠ call := by
        rintro rfl
        exact absent member
      simpa [Spending.setPhase, Spending.add, differ] using may other member
    change (before.add key tokens).used day + calls.card * most ≤ budget - 1 + limit * most
    rw [used_add]
    by_cases same : day = key
    · subst same
      have wider : ∀ other ∈ insert call calls,
          (before.phase other).MayAdd before.today day := by
        intro other member
        rcases Finset.mem_insert.mp member with rfl | later
        · rw [recording]
          rfl
        · exact others other later
      have room := invariant.room day (insert call calls) wider
      rw [Finset.card_insert_of_notMem absent] at room
      push_cast at room
      rw [if_pos rfl]
      linarith [bounds.2.2]
    · rw [if_neg same]
      exact invariant.room day calls others

omit [DecidableEq Call] in
theorem midnight (invariant : Invariant budget limit most before)
    (atMost : { before with today := before.today + 1 }.AtMost limit) :
    Invariant budget limit most { before with today := before.today + 1 } where
  future := fun day later => invariant.future day (Nat.lt_of_succ_lt later)
  nonneg := invariant.nonneg
  answered := invariant.answered
  recording := by
    intro call day tokens found
    have bounds := invariant.recording call day tokens found
    exact ⟨Nat.le_succ_of_le bounds.1, bounds.2⟩
  room := by
    refine room_of invariant.room atMost (fun _ => le_rfl) fun day => .inr ?_
    intro call may
    cases phase : before.phase call <;> simp only [phase, ChatPhase.MayAdd] at may ⊢ <;>
      omega

/-- A call that begins its check may add to later days only, which have nothing recorded. -/
theorem checks {call : Call} (positive : 0 < budget)
    (invariant : Invariant budget limit most before)
    (atMost : (before.setPhase call (.checking before.today)).AtMost limit) :
    Invariant budget limit most (before.setPhase call (.checking before.today)) := by
  refine invariant.setPhase atMost (by simp) (by simp) fun day => ?_
  by_cases later : before.today < day
  · left
    rw [invariant.future day later]
    omega
  · right
    rintro ⟨ahead, differ⟩
    omega

/-- A call is admitted when the counter it read is below the budget. -/
theorem admits {call : Call} {day : ℕ} (invariant : Invariant budget limit most before)
    (atMost : (before.setPhase call .admitted).AtMost limit)
    (checking : before.phase call = .checking day) (below : before.used day < budget) :
    Invariant budget limit most (before.setPhase call .admitted) := by
  refine invariant.setPhase atMost (by simp) (by simp) fun other => ?_
  by_cases same : day = other
  · left
    subst same
    omega
  · right
    intro ahead
    rw [checking]
    exact ⟨ahead, same⟩

theorem answers {call : Call} {tokens : ℤ} (invariant : Invariant budget limit most before)
    (atMost : (before.setPhase call (.answered tokens)).AtMost limit)
    (admitted : before.phase call = .admitted) (few : tokens ≤ most) :
    Invariant budget limit most (before.setPhase call (.answered tokens)) := by
  refine invariant.setPhase_of_imp atMost ?_ (by simp) ?_
  · rintro _ ⟨⟩
    exact few
  · intro day may
    rw [admitted]
    exact may

theorem records {call : Call} {tokens : ℤ} (invariant : Invariant budget limit most before)
    (atMost : (before.setPhase call (.recording before.today tokens)).AtMost limit)
    (answered : before.phase call = .answered tokens) (some' : 0 ≤ tokens) :
    Invariant budget limit most (before.setPhase call (.recording before.today tokens)) := by
  refine invariant.setPhase atMost (by simp) ?_ fun day => .inr ?_
  · rintro _ _ ⟨⟩
    exact ⟨le_rfl, some', invariant.answered call tokens answered⟩
  · rintro rfl
    rw [answered]
    exact Nat.le_refl _

omit [DecidableEq Call] in
theorem drops {day : ℕ} (invariant : Invariant budget limit most before)
    (atMost : (before.forget day).AtMost limit) :
    Invariant budget limit most (before.forget day) where
  future := by
    intro other later
    have old := invariant.future other later
    have new := used_forget_le before invariant.nonneg day other
    omega
  nonneg := fun other => (used_forget_le before invariant.nonneg day other).1
  answered := invariant.answered
  recording := invariant.recording
  room := room_of invariant.room atMost
    (fun other => (used_forget_le before invariant.nonneg day other).2)
    fun _ => .inr fun _ may => may

/-- Every step keeps the invariant. -/
theorem step {label : SpendingStep Call} (positive : 0 < budget)
    (invariant : Invariant budget limit most before)
    (taken : Spending.step budget before label = some after)
    (limited : Limited limit most before label after) : Invariant budget limit most after := by
  rcases limited with ⟨atMost, tokensAtMost⟩
  cases label with
  | midnight =>
      cases taken
      exact invariant.midnight atMost
  | check call =>
      rw [Spending.step] at taken
      split at taken
      · split at taken
        · omega
        · cases taken
          exact invariant.checks positive atMost
      · cases taken
  | get call =>
      rw [Spending.step] at taken
      split at taken
      · next day checking =>
          split at taken
          · cases taken
            exact invariant.ends atMost
          · next below =>
              cases taken
              exact invariant.admits atMost checking (not_le.mp below)
      · cases taken
  | answer call tokens =>
      rw [Spending.step] at taken
      split at taken
      · next admitted =>
          cases taken
          exact invariant.answers atMost admitted (tokensAtMost call tokens rfl)
      · cases taken
  | record call =>
      rw [Spending.step] at taken
      split at taken
      · next tokens answered =>
          split at taken
          · cases taken
            exact invariant.ends atMost
          · next some' =>
              cases taken
              exact invariant.records atMost answered (by omega)
      · cases taken
  | incrby call =>
      rw [Spending.step] at taken
      split at taken
      · next day tokens recording =>
          cases taken
          exact invariant.add recording
      · cases taken
  | expire call =>
      rw [Spending.step] at taken
      split at taken
      · split at taken
        · cases taken
          exact { invariant.ends atMost with }
        · cases taken
          exact invariant.ends atMost
      · cases taken
  | fail call =>
      rw [Spending.step] at taken
      split at taken
      · cases taken
        exact invariant.ends atMost
      · cases taken
  | drop day =>
      rw [Spending.step] at taken
      split at taken
      · split at taken
        · cases taken
          exact invariant.drops atMost
        · cases taken
      · cases taken

end Invariant

omit [DecidableEq Call] in
theorem Fresh.invariant {state : Spending Call} (fresh : state.Fresh) (positive : 0 < budget) :
    Invariant budget limit most state where
  future := fun day _ => by simp [used, fresh.1 day]
  nonneg := fun day => by simp [used, fresh.1 day]
  answered := fun call tokens found => by simp [fresh.2 call] at found
  recording := fun call day tokens found => by simp [fresh.2 call] at found
  room := by
    intro day calls may
    have none : calls = ∅ := by
      apply Finset.eq_empty_of_forall_notMem
      intro call member
      have impossible := may call member
      simp [fresh.2 call, ChatPhase.MayAdd] at impossible
    have room : (0 : ℤ) ≤ limit * most := by positivity
    simp only [none, Finset.card_empty, used, fresh.1 day, Option.getD_none]
    omega

/-- In every execution in which at most `limit` calls are in flight and none uses more than
`most` tokens, the counter of no day exceeds the budget by the tokens of the calls in
flight. -/
theorem used_le {start reached : Spending Call} {labels : List (SpendingStep Call)}
    (positive : 0 < budget) (fresh : (system budget).initial start)
    (execution : (system budget).Execution (Limited limit most) start labels reached)
    (day : ℕ) : reached.used day ≤ budget - 1 + limit * most := by
  have kept := execution.transfer (Invariant budget limit most)
    (fun invariant taken limited => ⟨invariant.step positive taken limited, limited⟩)
    (Fresh.invariant fresh positive)
  have room := kept.1.room day ∅ (by simp)
  simpa using room

section Sample

/-- No counter, and two calls that wait. -/
def idle : Spending Bool := ⟨0, fun _ => none, fun _ => none, fun _ => .waiting⟩

/-- Two calls that are both checked before either is recorded. -/
def rush : List (SpendingStep Bool) :=
  [.check true, .get true, .check false, .answer true 5, .get false, .record true, .incrby true,
    .answer false 5, .record false, .midnight, .incrby false, .expire true, .expire false]

/-- The bound is attained. -/
theorem used_le_rush : ∃ reached, (system 1).execute idle rush = some reached ∧
    reached.used 0 = 10 ∧ reached.used 0 ≤ 1 - 1 + (2 : ℕ) * (5 : ℕ) := by
  have executed : ∃ reached, (system 1).execute idle rush = some reached ∧
      reached.used 0 = 10 := ⟨_, rfl, rfl⟩
  rcases executed with ⟨reached, executed, recorded⟩
  refine ⟨reached, executed, recorded, ?_⟩
  refine used_le (by decide) ⟨fun _ => rfl, fun _ => rfl⟩
    (execution_of_execute executed fun member _ => ⟨fun calls _ => ?_, ?_⟩) 0
  · exact Finset.card_le_univ calls
  · rintro call tokens rfl
    simp only [rush, List.mem_cons, SpendingStep.answer.injEq, reduceCtorEq, List.not_mem_nil,
      or_false, false_or] at member
    omega

end Sample

end Spending

end OrcaValidator
