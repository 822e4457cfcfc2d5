import OrcaValidator.Orca.ContractValidation

/-!
# Runs of the ContractValidation machine

A machine takes any number of events in any order.  Its context then says about the
verdict what its state says: the facts of the extraction are recorded once, on the way to
`validating`, and neither a second extraction nor an evaluation that comes too early
touches them, so that the guards of EVALUATE and the reasons it records speak about the
same list of fields.
-/

namespace OrcaValidator

open Library

/-- The missing fields and their number, as every extractor sends them. -/
def Counted (payload : Context) : Prop :=
  ∃ missing : List Json, payload.get? "missing_fields".toList = some (.arr missing) ∧
    payload.get? "missing_count".toList = some (.int missing.length)

namespace ContractState

/-- The states marked `[final]`. -/
def Final (state : ContractState) : Prop :=
  state = .valid ∨ state = .invalid ∨ state = .error

end ContractState

namespace Machine

section Runs

variable [Interpreter]

/-- The machine after a sequence of events, each with its payload. -/
def run (machine : Machine) : List (ContractEvent × Context) → Except PyException Machine
  | [] => .ok machine
  | (event, payload) :: later => do
      let (_, next) ← machine.send event payload
      next.run later

/-- What the context of a machine holds in each state. -/
def Sound (machine : Machine) : Prop :=
  match machine.state with
  | .received => machine.context.get? "verdict".toList = none
  | .validating => machine.context.get? "verdict".toList = none
  | .valid =>
      machine.context.get? "verdict".toList = some verdictPass ∧
        machine.context.get? "reasons".toList = some (.arr []) ∧
        machine.context.get? "missing_fields".toList = some (.arr [])
  | .invalid =>
      ∃ missing, missing ≠ [] ∧
        machine.context.get? "verdict".toList = some verdictFail ∧
        machine.context.get? "missing_fields".toList = some (.arr missing) ∧
        machine.context.get? "reasons".toList = some (.arr (missing.map missingReason))
  | .error =>
      ∃ reason, machine.context.get? "verdict".toList = some verdictError ∧
        machine.context.get? "reasons".toList = some (.arr [reason])

/-- The inductive invariant: while the machine is validating, its context also holds what
was extracted. -/
structure Recorded (machine : Machine) : Prop where
  sound : machine.Sound
  counted : machine.state = .validating → Counted machine.context

/-! ## One event -/

omit [Interpreter] in
theorem row?_eq_none_of_final {machine : Machine} (final : machine.state.Final)
    (event : ContractEvent) : machine.row? event = none := by
  rcases machine with ⟨state, context⟩
  rcases final with rfl | rfl | rfl <;> simp [row?, contractRows]

theorem send_of_final {machine : Machine} (final : machine.state.Final) (event : ContractEvent)
    (payload : Context) : machine.send event payload = .ok (false, machine) := by
  simp only [send, row?_eq_none_of_final final]
  rfl

/-- The flags that EXTRACTED copies are not the verdict. -/
theorem send_extracted_recorded {context payload : Context}
    (fresh : context.get? "verdict".toList = none) (counted : Counted payload) :
    ∃ after, (⟨.received, context⟩ : Machine).send .extracted payload =
        .ok (true, ⟨.validating, after⟩) ∧
      after.get? "verdict".toList = none ∧ Counted after := by
  rcases counted with ⟨missing, listed, counted⟩
  refine ⟨_, send_of_row (row?_extracted context) rfl, ?_, missing, ?_, ?_⟩
  · rw [Dict.get?_set_of_ne _ (by decide), get?_foldl_copyKey, if_neg (by decide), fresh]
  · rw [Dict.get?_set_self, listed]
    rfl
  · rw [Dict.get?_set_of_ne _ (by decide), get?_foldl_copyKey, if_pos (by decide), counted]
    rfl

/-- EVALUATE decides by the number that was recorded, and so by the list. -/
theorem send_evaluate_recorded {context : Context} (payload : Context)
    (counted : Counted context) :
    ∃ after : Machine, (⟨.validating, context⟩ : Machine).send .evaluate payload =
        .ok (true, after) ∧ after.Recorded := by
  rcases counted with ⟨missing, listed, counted⟩
  cases missing with
  | nil =>
      have taken := row?_evaluate counted
      rw [if_pos List.length_nil] at taken
      refine ⟨_, send_of_row taken rfl, ⟨?_, ?_, ?_⟩, by simp⟩
      · rw [Dict.get?_set_of_ne _ (by decide), Dict.get?_set_self]
      · rw [Dict.get?_set_self]
      · rw [Dict.get?_set_of_ne _ (by decide), Dict.get?_set_of_ne _ (by decide)]
        exact listed
  | cons first rest =>
      have taken := row?_evaluate counted
      rw [if_neg (by simp)] at taken
      refine ⟨_, send_of_row taken (recordInvalid_eq payload (by simp) listed),
        ⟨first :: rest, by simp, ?_, ?_, ?_⟩, by simp⟩
      · rw [Dict.get?_set_of_ne _ (by decide), Dict.get?_set_self]
      · rw [Dict.get?_set_of_ne _ (by decide), Dict.get?_set_of_ne _ (by decide)]
        exact listed
      · rw [Dict.get?_set_self]

/-- A failure or a timeout ends in `error` with one reason. -/
theorem send_failed_recorded {machine : Machine} {event : ContractEvent} (payload : Context)
    (live : ¬machine.state.Final) (failed : event = .extractionFailed ∨ event = .timeout) :
    ∃ after : Machine, machine.send event payload = .ok (true, after) ∧ after.Recorded := by
  have row : ∃ row, machine.row? event = some row ∧ row.target = .error ∧
      row.action = some .recordError := by
    rcases machine with ⟨state, context⟩
    rcases failed with rfl | rfl <;>
      cases state <;> simp [row?, contractRows, ContractState.Final] at live ⊢
  rcases row with ⟨row, taken, target, action⟩
  have ran : runAction row.action machine.context payload =
      recordError machine.context payload := by
    rw [action]
    rfl
  refine ⟨_, send_of_row taken (ran.trans rfl), ?_, by simp [target]⟩
  simp only [Sound, target]
  refine ⟨(payload.get? "error".toList).getD
    (.str "extraction or processing failed".toList), ?_, ?_⟩
  · rw [Dict.get?_set_of_ne _ (by decide), Dict.get?_set_self]
  · rw [Dict.get?_set_self]

/-- EVALUATE before any extraction and EXTRACTED after the first are rows without an
action that stay where they are. -/
theorem send_early (context payload : Context) :
    (⟨.received, context⟩ : Machine).send .evaluate payload =
      .ok (true, ⟨.received, context⟩) := by
  have taken : (⟨.received, context⟩ : Machine).row? .evaluate =
      some { source := .received, event := .evaluate, target := .received } := by
    simp [row?, contractRows]
  exact send_of_row taken rfl

theorem send_again (context payload : Context) :
    (⟨.validating, context⟩ : Machine).send .extracted payload =
      .ok (true, ⟨.validating, context⟩) := by
  have taken : (⟨.validating, context⟩ : Machine).row? .extracted =
      some { source := .validating, event := .extracted, target := .validating } := by
    simp [row?, contractRows]
  exact send_of_row taken rfl

/-- An event never raises, keeps the invariant and leaves a final machine alone. -/
theorem send_recorded {machine : Machine} {event : ContractEvent} {payload : Context}
    (recorded : machine.Recorded) (counted : event = .extracted → Counted payload) :
    ∃ taken after, machine.send event payload = .ok (taken, after) ∧ after.Recorded ∧
      (machine.state.Final → after = machine) := by
  by_cases final : machine.state.Final
  · exact ⟨false, machine, send_of_final final event payload, recorded, fun _ => rfl⟩
  · have moves : (∃ after, machine.send event payload = .ok (true, after) ∧ after.Recorded) →
        ∃ taken after, machine.send event payload = .ok (taken, after) ∧ after.Recorded ∧
          (machine.state.Final → after = machine) := by
      rintro ⟨after, sent, holds⟩
      exact ⟨true, after, sent, holds, fun last => absurd last final⟩
    apply moves
    by_cases failed : event = .extractionFailed ∨ event = .timeout
    · exact send_failed_recorded payload final failed
    · rcases machine with ⟨state, context⟩
      cases state with
      | received =>
          cases event with
          | extracted =>
              rcases send_extracted_recorded recorded.sound (counted rfl) with
                ⟨after, sent, fresh, extracted⟩
              exact ⟨_, sent, fresh, fun _ => extracted⟩
          | evaluate => exact ⟨_, send_early context payload, recorded⟩
          | extractionFailed => exact absurd (.inl rfl) failed
          | timeout => exact absurd (.inr rfl) failed
      | validating =>
          cases event with
          | extracted => exact ⟨_, send_again context payload, recorded⟩
          | evaluate => exact send_evaluate_recorded payload (recorded.counted rfl)
          | extractionFailed => exact absurd (.inl rfl) failed
          | timeout => exact absurd (.inr rfl) failed
      | valid => exact absurd (.inl rfl) final
      | invalid => exact absurd (.inr (.inl rfl)) final
      | error => exact absurd (.inr (.inr rfl)) final

/-! ## Sequences of events -/

theorem run_append (machine : Machine) (earlier later : List (ContractEvent × Context)) :
    machine.run (earlier ++ later) =
      (machine.run earlier).bind fun middle => middle.run later := by
  induction earlier generalizing machine with
  | nil => rfl
  | cons first rest ih =>
      rcases first with ⟨event, payload⟩
      simp only [List.cons_append, run]
      cases machine.send event payload with
      | error reason => rfl
      | ok sent => exact ih sent.2

theorem run_recorded {machine : Machine} {events : List (ContractEvent × Context)}
    (recorded : machine.Recorded)
    (counted : ∀ payload, (ContractEvent.extracted, payload) ∈ events → Counted payload) :
    ∃ reached, machine.run events = .ok reached ∧ reached.Recorded ∧
      (machine.state.Final → reached = machine) := by
  induction events generalizing machine with
  | nil => exact ⟨machine, rfl, recorded, fun _ => rfl⟩
  | cons first rest ih =>
      rcases first with ⟨event, payload⟩
      have now : event = .extracted → Counted payload := by
        rintro rfl
        exact counted payload List.mem_cons_self
      rcases send_recorded recorded now with ⟨taken, next, sent, nextRecorded, kept⟩
      rcases ih nextRecorded fun payload later =>
        counted payload (List.mem_cons_of_mem _ later) with ⟨reached, ran, holds, last⟩
      refine ⟨reached, ?_, holds, ?_⟩
      · simp only [run, sent]
        exact ran
      · intro final
        obtain rfl := kept final
        exact last final

/-- Whatever events a machine that starts in `received` takes, in every state it reaches
its context holds what the state says, and once it is in a final state it stays there with
its verdict. -/
theorem run_sound {context : Context} {earlier later : List (ContractEvent × Context)}
    (fresh : context.get? "verdict".toList = none)
    (counted : ∀ payload, (ContractEvent.extracted, payload) ∈ earlier ++ later →
      Counted payload) :
    ∃ middle reached, (⟨.received, context⟩ : Machine).run earlier = .ok middle ∧
      (⟨.received, context⟩ : Machine).run (earlier ++ later) = .ok reached ∧
      middle.Sound ∧ reached.Sound ∧
      (middle.state.Final → reached.state = middle.state ∧
        reached.context.get? "verdict".toList = middle.context.get? "verdict".toList) := by
  have start : (⟨.received, context⟩ : Machine).Recorded := ⟨fresh, by simp⟩
  rcases run_recorded start fun payload sent =>
    counted payload (List.mem_append_left _ sent) with ⟨middle, ran, recorded, _⟩
  rcases run_recorded recorded fun payload sent =>
    counted payload (List.mem_append_right _ sent) with ⟨reached, continued, holds, kept⟩
  refine ⟨middle, reached, ran, ?_, recorded.sound, holds.sound, ?_⟩
  · rw [run_append, ran]
    exact continued
  · intro final
    rw [kept final]
    exact ⟨rfl, rfl⟩

end Runs

section Sample

attribute [local instance] Interpreter.ascii

/-- The extraction of a contract that nobody signed. -/
def unsignedPayload : Context :=
  Dict.ofList [("missing_count".toList, .int 1),
    ("missing_fields".toList, .arr [.str "signatures".toList])]

/-- An evaluation that comes too early decides nothing, and a timeout after the verdict does
not change it. -/
theorem run_sound_unsigned :
    ∃ middle reached, (⟨.received, ∅⟩ : Machine).run
        [(.evaluate, ∅), (.extracted, unsignedPayload), (.evaluate, ∅)] = .ok middle ∧
      (⟨.received, ∅⟩ : Machine).run
        ([(.evaluate, ∅), (.extracted, unsignedPayload), (.evaluate, ∅)] ++
          [(.timeout, ∅)]) = .ok reached ∧
      middle.Sound ∧ reached.Sound ∧
      (middle.state.Final → reached.state = middle.state ∧
        reached.context.get? "verdict".toList = middle.context.get? "verdict".toList) := by
  refine run_sound rfl ?_
  intro payload sent
  obtain rfl : payload = unsignedPayload := by simpa using sent
  exact ⟨[.str "signatures".toList], rfl, rfl⟩

end Sample

end Machine

end OrcaValidator
