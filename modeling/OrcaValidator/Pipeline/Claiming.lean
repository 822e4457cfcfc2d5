import OrcaValidator.Library.Transition
import OrcaValidator.Pipeline.Call
import OrcaValidator.Pipeline.Verdict

/-!
# Claiming a run

Any number of calls of `run_validation` on one run, interleaved statement by statement.
The claim reads the status of the run and writes it in a later statement, without a
lock: two calls may both read a run that they may claim.  The executions in which the
run is claimed once are exactly those in which every claim is committed while the run
may still be claimed; along them a terminal status is never left.
-/

namespace OrcaValidator

open Library System

/-- Any number of calls for the same run, on one database. -/
structure Concurrent (Caller : Type) where
  db : Database ContractState
  calls : Caller → Call

section Claiming

variable [Interpreter] {Caller : Type} [DecidableEq Caller]

/-- The calls of `run_validation(run_id)`, one step of one call at a time. -/
def claiming (runId : UUID) : System (Concurrent Caller) (Caller × CallStep) where
  initial := fun state => ∀ caller, state.calls caller = .started
  step := fun state move =>
    (Call.step runId state.db (state.calls move.1) move.2).map fun taken =>
      ⟨taken.1, Function.update state.calls move.1 taken.2⟩

/-- At most one call got past the claim. -/
def ClaimedOnce (state : Concurrent Caller) : Prop :=
  ∀ first second, (state.calls first).HasClaimed → (state.calls second).HasClaimed →
    first = second

/-- A terminal status of the run is the status it has after the step. -/
def TerminalKept (runId : UUID) (before after : Concurrent Caller) : Prop :=
  ∀ run, before.db.runs runId = some run → run.status.Terminal →
    ∃ next, after.db.runs runId = some next ∧ next.status = run.status

/-- The run is claimed at most once, and a terminal status is not left. -/
def ClaimSafe (runId : UUID) (before : Concurrent Caller) (_ : Caller × CallStep)
    (after : Concurrent Caller) : Prop :=
  ClaimedOnce after ∧ TerminalKept runId before after

/-- If the step commits a claim, the run may still be claimed. -/
def ClaimsClaimable (runId : UUID) (before : Concurrent Caller) (move : Caller × CallStep)
    (_ : Concurrent Caller) : Prop :=
  move.2 = .commitClaim → ∃ run, before.db.runs runId = some run ∧ run.status.Claimable

variable {runId : UUID} {before after : Concurrent Caller} {caller : Caller}
  {label : CallStep}

/-! ## What a step does -/

theorem moves_of_claiming (taken : (claiming runId).step before (caller, label) = some after) :
    ∃ call, Call.Moves runId before.db (before.calls caller) label after.db call ∧
      after.calls = Function.update before.calls caller call := by
  rcases Option.map_eq_some_iff.mp taken with ⟨⟨db, call⟩, stepped, rfl⟩
  exact ⟨call, Call.moves_of_step stepped, rfl⟩

omit [Interpreter] in
/-- What holds of the updated call, and held of every call that is as before, holds of
every call. -/
theorem forall_calls_update {property : Call → Prop} (property' : Call → Prop) {call : Call}
    (updated : after.calls = Function.update before.calls caller call)
    (here : property call → property' (before.calls caller))
    (there : ∀ other, other ≠ caller → property (before.calls other) →
      property' (before.calls other))
    {other : Caller} (holds : property (after.calls other)) : property' (before.calls other) := by
  rw [updated] at holds
  by_cases same : other = caller
  · subst other
    exact here (by simpa using holds)
  · exact there other same (by simpa [same] using holds)

/-! ## The executions that claim a claimable run -/

/-- At most one call got past the claim, from then on the run may not be claimed, and it is
not terminal while that call is active. -/
structure ClaimHeld (runId : UUID) (state : Concurrent Caller) : Prop where
  once : ClaimedOnce state
  unclaimable : ∀ caller, (state.calls caller).HasClaimed →
    ∃ run, state.db.runs runId = some run ∧ ¬run.status.Claimable
  unfinished : ∀ caller run, (state.calls caller).Active → state.db.runs runId = some run →
    ¬run.status.Terminal

omit [Interpreter] [DecidableEq Caller] in
theorem claimHeld_of_started (started : ∀ caller, before.calls caller = .started) :
    ClaimHeld runId before where
  once := fun first _ claimed => by simp [started, Call.HasClaimed] at claimed
  unclaimable := fun caller claimed => by simp [started, Call.HasClaimed] at claimed
  unfinished := fun caller _ active => by simp [started, Call.Active] at active

omit [Interpreter] [DecidableEq Caller] in
theorem ClaimedOnce.mono (once : ClaimedOnce before)
    (kept : ∀ other, (after.calls other).HasClaimed → (before.calls other).HasClaimed) :
    ClaimedOnce after := fun first second firstClaimed secondClaimed =>
  once first second (kept first firstClaimed) (kept second secondClaimed)

omit [Interpreter] [DecidableEq Caller] in
theorem terminalKept_of_not_terminal {run : ValidationRun}
    (present : before.db.runs runId = some run) (unfinished : ¬run.status.Terminal) :
    TerminalKept runId before after := by
  intro other found terminal
  rw [present] at found
  cases found
  exact absurd terminal unfinished

omit [Interpreter] in
/-- A claim of a claimable run: no call got past the claim before. -/
theorem ClaimHeld.claims (held : ClaimHeld runId before) {run row : ValidationRun}
    {document : Document} (claimable : run.status.Claimable)
    (present : before.db.runs runId = some row) (may : row.status.Claimable)
    (stored : after.db = commitClaim runId run document before.db)
    (updated : after.calls = Function.update before.calls caller .driving) :
    ClaimHeld runId after ∧ ClaimSafe runId before (caller, label) after := by
  have unclaimed : ∀ other, ¬(before.calls other).HasClaimed := by
    intro other claimed
    rcases held.unclaimable other claimed with ⟨found, present', unclaimable⟩
    rw [present] at present'
    cases present'
    exact unclaimable may
  have only : ∀ other, (after.calls other).HasClaimed → other = caller := by
    intro other claimed
    by_contra differ
    rw [updated, Function.update_of_ne differ] at claimed
    exact unclaimed other claimed
  have once : ClaimedOnce after := fun first second firstClaimed secondClaimed =>
    (only first firstClaimed).trans (only second secondClaimed).symm
  rcases runs_commitClaim document claimable present with ⟨next, found, running⟩
  rw [← stored] at found
  refine ⟨⟨once, fun _ _ => ⟨next, found, by simp [running, Status.Claimable]⟩, ?_⟩, once, ?_⟩
  · intro other final _ present'
    rw [found] at present'
    cases present'
    simp [running, Status.Terminal]
  · exact terminalKept_of_not_terminal present fun terminal => terminal.not_claimable may

/-- The result of the call that holds the claim: no other call can finish the run. -/
theorem ClaimHeld.finishes (held : ClaimHeld runId before) {run : ValidationRun}
    {document : Document} {result : ValidationResult}
    (active : (before.calls caller).Active)
    (stored : commitResult runId run document result before.db = .ok after.db)
    (updated : after.calls = Function.update before.calls caller .finished) :
    ClaimHeld runId after ∧ ClaimSafe runId before (caller, label) after := by
  have once : ClaimedOnce after := held.once.mono fun other =>
    forall_calls_update _ updated (fun _ => active.hasClaimed) fun _ _ claimed => claimed
  rcases held.unclaimable caller active.hasClaimed with ⟨row, present, unclaimable⟩
  rcases runs_commitResult stored present with ⟨next, found, status⟩
  refine ⟨⟨once, fun _ _ => ⟨next, found, ?_⟩, ?_⟩, once, ?_⟩
  · rcases status with status | terminal
    · rwa [status]
    · exact terminal.not_claimable
  · intro other _ active' _
    have differ : other ≠ caller := by
      rintro rfl
      simp [updated, Call.Active] at active'
    rw [updated, Function.update_of_ne differ] at active'
    exact absurd (held.once other caller active'.hasClaimed active.hasClaimed) differ
  · exact terminalKept_of_not_terminal present (held.unfinished caller row active present)

omit [Interpreter] in
theorem ClaimHeld.keeps (held : ClaimHeld runId before) {call : Call}
    (same : before.db.SameRows after.db)
    (claimed : call.HasClaimed → (before.calls caller).HasClaimed)
    (active : call.Active → (before.calls caller).Active)
    (updated : after.calls = Function.update before.calls caller call) :
    ClaimHeld runId after ∧ ClaimSafe runId before (caller, label) after := by
  have claimed' : ∀ other, (after.calls other).HasClaimed → (before.calls other).HasClaimed :=
    fun _ => forall_calls_update _ updated claimed fun _ _ claimed => claimed
  have active' : ∀ other, (after.calls other).Active → (before.calls other).Active :=
    fun _ => forall_calls_update _ updated active fun _ _ active => active
  refine ⟨⟨held.once.mono claimed', ?_, ?_⟩, held.once.mono claimed', ?_⟩
  · intro other claimed
    rw [← same.runs]
    exact held.unclaimable other (claimed' other claimed)
  · intro other run active present
    rw [← same.runs] at present
    exact held.unfinished other run (active' other active) present
  · intro run present _
    exact ⟨run, by rw [← same.runs, present], rfl⟩

/-- A step that claims, if at all, a claimable run keeps the claim held and is safe. -/
theorem ClaimHeld.step (held : ClaimHeld runId before)
    (taken : (claiming runId).step before (caller, label) = some after)
    (claims : ClaimsClaimable runId before (caller, label) after) :
    ClaimHeld runId after ∧ ClaimSafe runId before (caller, label) after := by
  rcases moves_of_claiming taken with ⟨call, moves, updated⟩
  generalize at_caller : before.calls caller = here at moves
  generalize stored : after.db = db at moves
  cases moves with
  | claims claimable =>
      rcases claims rfl with ⟨row, present, may⟩
      exact held.claims claimable present may stored updated
  | finishes done =>
      exact held.finishes (by rw [at_caller]; trivial) (stored ▸ done) updated
  | keeps same noClaim claimed active waiting =>
      rw [← at_caller] at claimed active
      exact held.keeps (stored ▸ same) claimed.mp active updated

/-! ## The executions that claim the run once -/

/-- A call that has seen a run it may claim: the run is there, and if it may no longer be
claimed, a call has claimed it. -/
def WaitsForClaim (runId : UUID) (state : Concurrent Caller) : Prop :=
  ∀ caller, (state.calls caller).Waiting → ∃ run, state.db.runs runId = some run ∧
    (run.status.Claimable ∨ ∃ other, (state.calls other).HasClaimed)

omit [Interpreter] in
theorem hasClaimed_update {call : Call} {other : Caller}
    (updated : after.calls = Function.update before.calls caller call)
    (kept : (before.calls caller).HasClaimed → call.HasClaimed)
    (claimed : (before.calls other).HasClaimed) : (after.calls other).HasClaimed := by
  rw [updated]
  by_cases same : other = caller
  · subst other
    simpa using kept claimed
  · simpa [same] using claimed

/-- Every step keeps it, and a step that leaves the run claimed once claims, if at all, a
claimable run. -/
theorem WaitsForClaim.step (waits : WaitsForClaim runId before)
    (taken : (claiming runId).step before (caller, label) = some after)
    (once : ClaimedOnce after) :
    WaitsForClaim runId after ∧ ClaimsClaimable runId before (caller, label) after := by
  rcases moves_of_claiming taken with ⟨call, moves, updated⟩
  generalize at_caller : before.calls caller = here at moves
  generalize stored : after.db = db at moves
  cases moves with
  | @claims run document claimable =>
      have here : (after.calls caller).HasClaimed := by simp [updated, Call.HasClaimed]
      rcases waits caller (by rw [at_caller]; trivial) with ⟨row, present, status⟩
      rcases runs_commitClaim document claimable present with ⟨next, found, _⟩
      refine ⟨fun _ _ => ⟨next, stored ▸ found, .inr ⟨caller, here⟩⟩,
        fun _ => ⟨row, present, status.resolve_right ?_⟩⟩
      rintro ⟨other, claimed⟩
      have differ : other ≠ caller := by
        rintro rfl
        rw [at_caller] at claimed
        exact claimed
      refine differ (once other caller ?_ here)
      rwa [updated, Function.update_of_ne differ]
  | finishes done =>
      have here : (after.calls caller).HasClaimed := by simp [updated, Call.HasClaimed]
      refine ⟨fun other waiting => ?_, fun claim => by cases claim⟩
      have waited : (before.calls other).Waiting :=
        forall_calls_update _ updated False.elim (fun _ _ waiting => waiting) waiting
      rcases waits other waited with ⟨row, present, _⟩
      rcases runs_commitResult done present with ⟨next, found, _⟩
      exact ⟨next, stored ▸ found, .inr ⟨caller, here⟩⟩
  | keeps same noClaim claimed active waiting =>
      refine ⟨fun other waits' => ?_, fun claim => absurd claim noClaim⟩
      rw [← at_caller] at claimed waiting
      rw [stored, ← same.runs]
      have waited : (before.calls other).Waiting ∨
          ∃ run, before.db.runs runId = some run ∧ run.status.Claimable :=
        forall_calls_update (fun call => call.Waiting ∨ _) updated waiting
          (fun _ _ waiting => .inl waiting) waits'
      rcases waited with waited | ⟨run, present, may⟩
      · rcases waits other waited with ⟨row, present, status⟩
        refine ⟨row, present, status.imp_right ?_⟩
        rintro ⟨holder, has⟩
        exact ⟨holder, hasClaimed_update updated claimed.mpr has⟩
      · exact ⟨run, present, .inl may⟩

/-- The executions in which the run is claimed at most once and its terminal status is never
left are those that claim it while it may be claimed. -/
theorem claimSafe_iff {start final : Concurrent Caller} {moves : List (Caller × CallStep)}
    (started : (claiming runId).initial start) :
    (claiming runId).Execution (ClaimSafe runId) start moves final ↔
      (claiming runId).Execution (ClaimsClaimable runId) start moves final := by
  constructor
  · intro safe
    refine (safe.transfer (WaitsForClaim runId) ?_ ?_).2
    · rintro before ⟨caller, label⟩ after waits taken ⟨once, _⟩
      exact waits.step taken once
    · intro caller waiting
      rw [started caller] at waiting
      exact waiting.elim
  · intro claims
    refine (claims.transfer (ClaimHeld runId) ?_ ?_).2
    · rintro before ⟨caller, label⟩ after held taken claims
      exact held.step taken claims
    · exact claimHeld_of_started started

/-! ## A call on its own -/

/-- The database and this call are where its steps alone lead from `start`. -/
def Alone (runId : UUID) (start : Concurrent Caller) (caller : Caller)
    (db : Database ContractState) (call : Call) : Prop :=
  ∃ steps : List CallStep, (claiming runId).Executes start (steps.map (Prod.mk caller))
    ⟨db, Function.update start.calls caller call⟩

variable {start : Concurrent Caller} {db db' : Database ContractState} {call call' : Call}

theorem Alone.step (alone : Alone runId start caller db call) (label : CallStep)
    (taken : Call.step runId db call label = some (db', call')) :
    Alone runId start caller db' call' := by
  rcases alone with ⟨steps, execution⟩
  refine ⟨steps ++ [label], ?_⟩
  rw [List.map_append]
  refine execution.append (.single ?_ trivial)
  simp [claiming, taken]

theorem alone_of_started (started : start.calls caller = .started) :
    Alone runId start caller start.db .started := by
  refine ⟨[], ?_⟩
  rw [← started, Function.update_eq_self]
  exact .refl start

theorem keptByDrive_alone :
    KeptByDrive fun world => Alone runId start caller world.db .driving where
  machines := fun _ _ alone => alone
  persistenceCalls := fun _ _ alone => alone
  snapshot := fun _ _ _ alone => alone.step (.saveSnapshot _ _) rfl
  locals := fun _ _ alone => alone

theorem ensures_claim_alone (storage : Storage) {world : World}
    (alone : Alone runId start caller world.db .started) :
    Effect.Ensures (claim storage runId) world
      (fun claimed after => Alone runId start caller after.db
        (if claimed.isSome then .driving else .returned))
      (fun _ after => Alone runId start caller after.db .returned) := by
  refine Effect.Ensures.bind (Effect.Ensures.read ?_)
  have first := alone.step .readRun rfl
  rcases present : world.db.runs runId with _ | run
  · rw [present] at first
    exact Effect.Ensures.pure first
  · rw [present] at first
    by_cases claimable : run.status.Claimable
    · simp only [claimable, if_true]
      simp only [Call.afterRun, claimable, dif_pos] at first
      have second := first.step .readDocument rfl
      rcases found : world.db.documents run.documentId with _ | document
      · rw [found] at second
        exact Effect.Ensures.raise second
      · rw [found] at second
        refine Effect.Ensures.bind (ensures_commit (fun _ => ?_) fun _ _ =>
          second.step .fail rfl)
        have third := second.step .commitClaim rfl
        rw [commitClaim_eq_claimRows present found] at third
        exact Effect.Ensures.pure third
    · simp only [claimable, if_false]
      simp only [Call.afterRun, claimable, dif_neg, not_false_eq_true] at first
      exact Effect.Ensures.pure first

theorem ensures_store_alone (env : Environment) (storage : Storage) (claimed : Claimed)
    {world : World} (alone : Alone runId start caller world.db .driving) :
    Effect.Ensures (store env storage runId claimed) world
      (fun _ after => Alone runId start caller after.db .finished)
      (fun _ after => Alone runId start caller after.db .finished) := by
  have raised : Alone runId start caller world.db .finished := alone.step .fail rfl
  refine Effect.Ensures.bind (Effect.Ensures.read ?_)
  rcases present : world.db.runs runId with _ | run
  · exact Effect.Ensures.raise raised
  · refine Effect.Ensures.bind (Effect.Ensures.lift (fun reasons _ => ?_) fun _ _ => raised)
    rcases found : world.db.documents run.documentId with _ | document
    · exact Effect.Ensures.raise raised
    · have decided := alone.step (.decide (resultRow world.locals reasons
        (assist env claimed.temperature world.locals))) rfl
      have first := decided.step .reloadRun rfl
      rw [present] at first
      have second := first.step .reloadDocument rfl
      rw [found] at second
      refine Effect.Ensures.bind (Effect.Ensures.lift (fun after done => ?_) fun _ _ => raised)
      refine ensures_commit (fun _ => second.step .commitResult ?_) fun _ _ => raised
      rw [← commitResult_eq_finishRows present found] at done
      simp [Call.step, done, World.committed]

/-- A call of `run_validation` that nothing interleaves with is an execution. -/
theorem alone_runValidation (env : Environment) (storage : Storage) {world : World}
    (started : start.calls caller = .started) (same : world.db = start.db) :
    ∃ call, (call = .returned ∨ call = .finished) ∧
      Alone runId start caller (runValidation env storage runId world).2.db call := by
  have alone : Alone runId start caller world.db .started := same ▸ alone_of_started started
  have ensured : Effect.Ensures (runValidation env storage runId) world
      (fun _ after => ∃ call, (call = .returned ∨ call = .finished) ∧
        Alone runId start caller after.db call)
      (fun _ after => ∃ call, (call = .returned ∨ call = .finished) ∧
        Alone runId start caller after.db call) := by
    refine Effect.Ensures.bind ((ensures_claim_alone storage alone).weaken ?_ ?_)
    · rintro (_ | claimed) after alone
      · exact Effect.Ensures.pure ⟨.returned, .inl rfl, alone⟩
      · refine Effect.Ensures.bind ((Effect.Ensures.ofPreserves
          (preserves_decideOutcome keptByDrive_alone env storage runId claimed) alone).weaken
            (fun _ _ alone => ?_) fun _ _ alone => ?_)
        · refine (ensures_store_alone env storage claimed alone).weaken ?_ ?_ <;>
            exact fun _ _ alone => ⟨.finished, .inr rfl, alone⟩
        · exact ⟨.finished, .inr rfl, alone.step .fail rfl⟩
    · exact fun _ _ alone => ⟨.returned, .inl rfl, alone⟩
  exact ensured.after

end Claiming

/-! ## A claim that comes too late -/

section Closed

attribute [local instance] Interpreter.ascii

/-- Two calls for a queued run. -/
def sampleCalls : Concurrent Bool := ⟨sampleWorld.db, fun _ => .started⟩

/-- The result of a contract that passes. -/
def sampleResult : ValidationResult where
  verdict := verdictPass
  finalState := "valid".toList
  reasons := []
  extractedFields := ∅
  machineContext := ∅
  analysis := .obj []
  revisedMarkdown := none
  analysisStatus := "skipped".toList
  documentFsm := .obj []

/-- The steps of a call that nothing goes wrong with. -/
def sampleSteps : List CallStep :=
  [.readRun, .readDocument, .commitClaim, .decide sampleResult, .reloadRun, .reloadDocument,
    .commitResult]

/-- The first call runs to its end after the second has read the rows. -/
def overtakingMoves : List (Bool × CallStep) :=
  [(true, .readRun), (true, .readDocument)] ++ sampleSteps.map (Prod.mk false)

theorem claimSafe_sampleSteps : ∃ final,
    (claiming sampleRunId).Executes sampleCalls (sampleSteps.map (Prod.mk false)) final ∧
      ((claiming sampleRunId).Execution (ClaimSafe sampleRunId) sampleCalls
          (sampleSteps.map (Prod.mk false)) final ↔
        (claiming sampleRunId).Execution (ClaimsClaimable sampleRunId) sampleCalls
          (sampleSteps.map (Prod.mk false)) final) :=
  ⟨_, executes_of_execute rfl, claimSafe_iff fun _ => rfl⟩

/-- The second call claims the run after the first has finished it: both have claimed it, and
it is `running` again. -/
theorem claimed_twice_overtaken : ∃ before after,
    (claiming sampleRunId).Executes sampleCalls overtakingMoves before ∧
      (claiming sampleRunId).step before (true, .commitClaim) = some after ∧
      ¬ClaimedOnce after ∧ ¬TerminalKept sampleRunId before after := by
  refine ⟨_, _, executes_of_execute rfl, rfl, ?_, ?_⟩
  · intro once
    exact absurd (once false true trivial trivial) (by decide)
  · intro kept
    rcases kept _ rfl (.inl rfl) with ⟨next, found, status⟩
    cases found
    cases status

end Closed

end OrcaValidator
