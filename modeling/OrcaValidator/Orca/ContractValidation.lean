import OrcaValidator.Orca.ContractActions

/-!
# The ContractValidation machine

The states, events, guards and transition table of
`machines/contract_validation.orca.md`, and what the runtime does with an event: it
takes the first row whose source is the current state, whose event is the one sent and
whose guard holds on the context, runs the row's action on the context and the payload
and moves to the row's target.  An event that no row takes changes nothing.
-/

namespace OrcaValidator

open Library

/-- The states of `contract_validation.orca.md`. -/
inductive ContractState where
  | received
  | validating
  | valid
  | invalid
  | error
  deriving DecidableEq

/-- Its events. -/
inductive ContractEvent where
  | extracted
  | evaluate
  | extractionFailed
  | timeout
  deriving DecidableEq

/-- Its guards. -/
inductive ContractGuard where
  | allRequiredPresent
  | missingRequired
  deriving DecidableEq

/-- Its actions. -/
inductive ContractAction where
  | recordExtracted
  | recordValid
  | recordInvalid
  | recordError
  deriving DecidableEq

namespace ContractState

/-- `str(machine.state)`. -/
def name : ContractState → Text
  | .received => "received".toList
  | .validating => "validating".toList
  | .valid => "valid".toList
  | .invalid => "invalid".toList
  | .error => "error".toList

end ContractState

/-- A row of its table of transitions. -/
structure ContractRow where
  source : ContractState
  event : ContractEvent
  guard : Option ContractGuard := none
  target : ContractState
  action : Option ContractAction := none

/-- The transition table, in the order of the file. -/
def contractRows : List ContractRow := [
  { source := .received, event := .extracted, target := .validating,
    action := some .recordExtracted },
  { source := .received, event := .evaluate, target := .received },
  { source := .received, event := .extractionFailed, target := .error,
    action := some .recordError },
  { source := .received, event := .timeout, target := .error, action := some .recordError },
  { source := .validating, event := .extracted, target := .validating },
  { source := .validating, event := .evaluate, guard := some .allRequiredPresent,
    target := .valid, action := some .recordValid },
  { source := .validating, event := .evaluate, guard := some .missingRequired,
    target := .invalid, action := some .recordInvalid },
  { source := .validating, event := .extractionFailed, target := .error,
    action := some .recordError },
  { source := .validating, event := .timeout, target := .error, action := some .recordError }]

namespace ContractGuard

/-- The guard expressions: `ctx.missing_count == 0` and `ctx.missing_count > 0`. -/
def holds (guard : ContractGuard) (context : Context) : Bool :=
  match context.get? "missing_count".toList with
  | some (.int count) =>
      match guard with
      | .allRequiredPresent => count == 0
      | .missingRequired => 0 < count
  | _ => false

theorem holds_of_missingCount {context : Context} {count : ℕ} (guard : ContractGuard)
    (counted : context.get? "missing_count".toList = some (.int count)) :
    guard.holds context = match guard with
      | .allRequiredPresent => decide (count = 0)
      | .missingRequired => decide (0 < count) := by
  unfold holds
  rw [counted]
  cases guard <;> simp [beq_eq_decide]

end ContractGuard

/-- A running machine: where it is, and its context. -/
structure Machine where
  state : ContractState
  context : Context

namespace Machine

/-- The first row that leaves the state on the event and whose guard holds. -/
def row? (machine : Machine) (event : ContractEvent) : Option ContractRow :=
  contractRows.find? fun row =>
    row.source = machine.state ∧ row.event = event ∧
      row.guard.all (fun guard => guard.holds machine.context)

variable [Interpreter]

/-- The context after an action. -/
def runAction (action : Option ContractAction) (context payload : Context) :
    Except PyException Context :=
  match action with
  | some .recordExtracted => OrcaValidator.recordExtracted context payload
  | some .recordValid => OrcaValidator.recordValid context payload
  | some .recordInvalid => OrcaValidator.recordInvalid context payload
  | some .recordError => OrcaValidator.recordError context payload
  | none => .ok context

/-- `machine.send(event, payload)`: whether a row was taken, and the machine after it. -/
def send (machine : Machine) (event : ContractEvent) (payload : Context) :
    Except PyException (Bool × Machine) :=
  match machine.row? event with
  | some row => do
      let context ← runAction row.action machine.context payload
      return (true, { state := row.target, context := context })
  | none => return (false, machine)

/-! ## What each event does -/

omit [Interpreter] in
theorem row?_extracted (context : Context) :
    (⟨.received, context⟩ : Machine).row? .extracted =
      some { source := .received, event := .extracted, target := .validating,
             action := some .recordExtracted } := by
  simp [row?, contractRows]

omit [Interpreter] in
theorem row?_extractionFailed (context : Context) :
    (⟨.received, context⟩ : Machine).row? .extractionFailed =
      some { source := .received, event := .extractionFailed, target := .error,
             action := some .recordError } := by
  simp [row?, contractRows]

omit [Interpreter] in
theorem row?_evaluate {context : Context} {count : ℕ}
    (counted : context.get? "missing_count".toList = some (.int count)) :
    (⟨.validating, context⟩ : Machine).row? .evaluate =
      some (if count = 0 then
          { source := .validating, event := .evaluate, guard := some .allRequiredPresent,
            target := .valid, action := some .recordValid }
        else
          { source := .validating, event := .evaluate, guard := some .missingRequired,
            target := .invalid, action := some .recordInvalid }) := by
  by_cases zero : count = 0
  · simp [row?, contractRows, ContractGuard.holds_of_missingCount _ counted, zero]
  · simp [row?, contractRows, ContractGuard.holds_of_missingCount _ counted, zero,
      Nat.pos_of_ne_zero zero]

theorem send_of_row {machine : Machine} {event : ContractEvent} {payload after : Context}
    {row : ContractRow} (taken : machine.row? event = some row)
    (ran : runAction row.action machine.context payload = .ok after) :
    machine.send event payload = .ok (true, ⟨row.target, after⟩) := by
  simp only [send, taken, ran]
  rfl

/-- EXTRACTED takes a received machine to `validating` and stores the missing fields and
their number. -/
theorem send_extracted (context : Context) {payload : Context} {count : ℕ} {missing : List Json}
    (counted : payload.get? "missing_count".toList = some (.int count))
    (listed : payload.get? "missing_fields".toList = some (.arr missing)) :
    ∃ after, (⟨.received, context⟩ : Machine).send .extracted payload =
        .ok (true, ⟨.validating, after⟩) ∧
      after.get? "missing_count".toList = some (.int count) ∧
      after.get? "missing_fields".toList = some (.arr missing) := by
  refine ⟨_, send_of_row (row?_extracted context) rfl, ?_, ?_⟩
  · rw [Dict.get?_set_of_ne _ (by decide), get?_foldl_copyKey, if_pos (by decide), counted]
    rfl
  · rw [Dict.get?_set_self, listed]
    rfl

/-- EVALUATE on a field set with nothing missing ends in `valid`. -/
theorem send_evaluate_valid {context : Context} (payload : Context)
    (counted : context.get? "missing_count".toList = some (.int 0)) :
    ∃ after, (⟨.validating, context⟩ : Machine).send .evaluate payload =
        .ok (true, ⟨.valid, after⟩) ∧
      after.get? "verdict".toList = some verdictPass ∧
      after.get? "reasons".toList = some (.arr []) := by
  have none : context.get? "missing_count".toList = some (.int (0 : ℕ)) := counted
  refine ⟨_, send_of_row (row?_evaluate none) rfl, ?_, ?_⟩
  · rw [Dict.get?_set_of_ne _ (by decide), Dict.get?_set_self]
  · rw [Dict.get?_set_self]

theorem recordInvalid_eq {context : Context} (payload : Context) {missing : List Json}
    (nonempty : missing ≠ [])
    (listed : context.get? "missing_fields".toList = some (.arr missing)) :
    recordInvalid context payload =
      .ok ((context.set "verdict".toList verdictFail).set "reasons".toList
        (.arr (missing.map missingReason))) := by
  have fields : (context.set "verdict".toList verdictFail).get? "missing_fields".toList =
      some (.arr missing) := by
    rw [Dict.get?_set_of_ne _ (by decide), listed]
  cases missing with
  | nil => exact absurd rfl nonempty
  | cons first rest =>
      unfold recordInvalid
      simp only [fields, Json.orElse, Json.truthy, List.isEmpty_cons, Bool.not_false, if_true,
        Json.iter, List.map_cons]
      rfl

/-- EVALUATE on a field set with something missing ends in `invalid`, with one reason for
each missing field. -/
theorem send_evaluate_invalid {context : Context} (payload : Context) {count : ℕ}
    {missing : List Json} (positive : count ≠ 0) (nonempty : missing ≠ [])
    (counted : context.get? "missing_count".toList = some (.int count))
    (listed : context.get? "missing_fields".toList = some (.arr missing)) :
    ∃ after, (⟨.validating, context⟩ : Machine).send .evaluate payload =
        .ok (true, ⟨.invalid, after⟩) ∧
      after.get? "verdict".toList = some verdictFail ∧
      after.get? "reasons".toList = some (.arr (missing.map missingReason)) := by
  have taken := row?_evaluate counted
  rw [if_neg positive] at taken
  refine ⟨_, send_of_row taken (recordInvalid_eq payload nonempty listed), ?_, ?_⟩
  · rw [Dict.get?_set_of_ne _ (by decide), Dict.get?_set_self]
  · rw [Dict.get?_set_self]

/-- EXTRACTION_FAILED takes a received machine to `error`, with one reason. -/
theorem send_extractionFailed (context payload : Context) :
    ∃ after, (⟨.received, context⟩ : Machine).send .extractionFailed payload =
        .ok (true, ⟨.error, after⟩) ∧
      after.get? "verdict".toList = some verdictError ∧
      after.get? "reasons".toList = some (.arr [(payload.get? "error".toList).getD
        (.str "extraction or processing failed".toList)]) := by
  refine ⟨_, send_of_row (row?_extractionFailed context) rfl, ?_, ?_⟩
  · rw [Dict.get?_set_of_ne _ (by decide), Dict.get?_set_self]
  · rw [Dict.get?_set_self]

end Machine

end OrcaValidator
