import OrcaValidator.Pipeline.Claiming

/-!
# Polling a result

`get_result` reads the latest run of a document and then the result of that run, while the
call of `run_validation` on the run goes on.  Each statement sees what is committed at its
moment.  The status comes from the first statement and the result from the second, so a
response is coherent exactly if the result is not committed between the two.
-/

namespace OrcaValidator

open Library System

/-! ## The response -/

/-- `ResultResponse` with its defaults: all but the first three fields are of a finished run. -/
structure ResultResponse where
  runId : UUID
  status : Status
  ready : Bool
  verdict : Option Json := none
  finalState : Option Text := none
  reasons : List Json := []
  extractedFields : Dict Text Bool := ∅
  documentType : Option Json := none
  machineId : Option Text := none
  machineHash : Option Text := none
  temperature : Option ℚ := none
  analysis : Json := .obj []
  analysisStatus : Text := "skipped".toList
  revisedAvailable : Bool := false
  revisedRedline : Option Text := none
  documentFsm : Json := .obj []

/-- `bool(res.revised_markdown)`. -/
def ValidationResult.revisedAvailable (result : ValidationResult) : Bool :=
  result.revisedMarkdown.any fun text => text ≠ []

/-- What `get_result` answers, from the two rows that it read. -/
def resultResponse (runId : UUID) (run : ValidationRun) : Option ValidationResult → ResultResponse
  | none => { runId := runId, status := run.status, ready := false }
  | some result =>
      { runId := runId
        status := run.status
        ready := true
        verdict := some result.verdict
        finalState := some result.finalState
        reasons := result.reasons
        extractedFields := result.extractedFields
        documentType := result.machineContext.get? "document_type".toList
        machineId := some run.machineId
        machineHash := some run.machineHash
        temperature := some run.temperature
        analysis := Json.orElse (some result.analysis) (.obj [])
        analysisStatus := result.analysisStatus
        revisedAvailable := result.revisedAvailable
        revisedRedline := if result.revisedAvailable then result.revisedMarkdown else none
        documentFsm := Json.orElse (some result.documentFsm) (.obj []) }

/-- The status tells whether there is a verdict, and which. -/
structure Coherent (response : ResultResponse) : Prop where
  ready_iff : response.ready = true ↔ response.status.Terminal
  done : response.status = .done →
    response.verdict = some verdictPass ∨ response.verdict = some verdictFail
  failed : response.status = .failed → response.verdict = some verdictError

/-! ## The poll and the call -/

/-- Where a request for the result is, with what it has read. -/
inductive Poll where
  | asked
  | readRun (run : ValidationRun)
  | answered (response : ResultResponse)
  /-- `HTTPException(404, "no validation run for document")`. -/
  | noRun

/-- A step of the call, or a statement of the poll. -/
inductive PollStep where
  | call (label : CallStep)
  | readRun
  | readResult

/-- A call and one poll, on one database. -/
structure Polled where
  db : Database ContractState
  call : Call
  poll : Poll

/-- A row that a call of `run_validation` can decide on. -/
def RunDecides [Interpreter] (result : ValidationResult) : Prop :=
  ∃ env storage claimed locals reasons, Decided env storage claimed locals ∧
    locals.reasons = .arr reasons ∧
    result = resultRow locals reasons (assist env claimed.temperature locals)

section Polling

variable [Interpreter]

/-- The only run of a document, with the call on it and a request for its result. -/
def polling (runId : UUID) : System Polled PollStep where
  initial := fun state => state.call = .started ∧ state.poll = .asked
  step := fun state move =>
    match move, state.poll with
    | .call label, _ => (Call.step runId state.db state.call label).map fun taken =>
        { state with db := taken.1, call := taken.2 }
    | .readRun, .asked =>
        some { state with poll := ((state.db.runs runId).map .readRun).getD .noRun }
    | .readResult, .readRun run =>
        some { state with poll := .answered (resultResponse runId run (state.db.results runId)) }
    | _, _ => none

/-- The call only decides on what the pipeline can decide on. -/
def DecidesSoundly (move : PollStep) : Prop :=
  ∀ result, move = .call (.decide result) → RunDecides result

/-- The result is not committed between the two statements. -/
def StoresApart (before : Polled) (move : PollStep) (_ : Polled) : Prop :=
  move = .call .commitResult → ∀ run, before.poll ≠ .readRun run

/-! ## What the pipeline decides -/

/-- The verdict is one of the three that a run can come to. -/
def Answerable (result : ValidationResult) : Prop :=
  result.verdict = verdictPass ∨ result.verdict = verdictFail ∨ result.verdict = verdictError

theorem RunDecides.answerable {result : ValidationResult} (decides : RunDecides result) :
    Answerable result := by
  rcases decides with ⟨env, storage, claimed, locals, reasons, decided, listed, rfl⟩
  rcases decided.shape listed sampleRun (assist env claimed.temperature locals) with
    passed | failed | undecided
  · exact Or.inl passed.verdict
  · exact Or.inr (Or.inl failed.verdict)
  · exact Or.inr (Or.inr undecided.verdict)

omit [Interpreter] in
/-- The rows of one moment make a coherent response. -/
theorem Answerable.coherent {result : ValidationResult} (answerable : Answerable result)
    {runId : UUID} {run : ValidationRun} (status : run.status = finalStatus result.verdict) :
    Coherent (resultResponse runId run (some result)) := by
  have terminal : run.status.Terminal := by
    rw [status]
    exact terminal_finalStatus _
  refine ⟨iff_of_true rfl terminal, ?_, ?_⟩
  · intro done
    have outcome := status.symm.trans done
    unfold finalStatus at outcome
    split at outcome
    · next decided => exact decided.imp (congrArg some) (congrArg some)
    · cases outcome
  · intro failed
    have outcome := status.symm.trans failed
    unfold finalStatus at outcome
    split at outcome
    · cases outcome
    · next undecided =>
        rcases answerable with passed | failing | undecidable
        · exact absurd (Or.inl passed) undecided
        · exact absurd (Or.inr failing) undecided
        · exact congrArg some undecidable

omit [Interpreter] in
theorem coherent_pending {runId : UUID} {run : ValidationRun} (pending : ¬run.status.Terminal) :
    Coherent (resultResponse runId run none) := by
  refine ⟨iff_of_false (by simp [resultResponse]) pending, ?_, ?_⟩
  · exact fun done => absurd (Or.inl done) pending
  · exact fun failed => absurd (Or.inr failed) pending

/-! ## The stages of the run -/

omit [Interpreter]

/-- What the call carries is decided, and was read while the run was pending. -/
def Call.Sound : Call → Prop
  | .decided result => Answerable result
  | .reloadedRun result run | .reloadedDocument result run _ =>
      Answerable result ∧ ¬run.status.Terminal
  | _ => True

/-- The run has no result and is pending, or it has one and the call has ended. -/
inductive Stage (runId : UUID) (db : Database ContractState) (call : Call) : Prop
  | pending (run : ValidationRun) (runRow : db.runs runId = some run)
      (noResult : db.results runId = none) (open_ : ¬run.status.Terminal) (sound : call.Sound)
  | stored (run : ValidationRun) (result : ValidationResult) (runRow : db.runs runId = some run)
      (resultRow : db.results runId = some result) (answerable : Answerable result)
      (status : run.status = finalStatus result.verdict) (ended : call = .finished)

variable {runId : UUID} {before after : Database ContractState} {call next : Call}
  {label : CallStep}

theorem Call.Sound.step [Interpreter] {run : ValidationRun} (sound : call.Sound)
    (runRow : before.runs runId = some run) (pending : ¬run.status.Terminal)
    (decides : ∀ result, label = .decide result → Answerable result)
    (taken : Call.step runId before call label = some (after, next)) : next.Sound := by
  cases call with
  | started =>
      cases label with
      | readRun =>
          cases taken
          rw [runRow]
          by_cases claimable : run.status.Claimable <;>
            simp [Call.afterRun, claimable, Call.Sound]
      | fail =>
          cases taken
          trivial
      | _ => cases taken
  | readRun run claimable =>
      cases label with
      | readDocument =>
          cases taken
          cases before.documents run.documentId <;> trivial
      | fail =>
          cases taken
          trivial
      | _ => cases taken
  | readDocument run claimable document =>
      cases label with
      | commitClaim =>
          cases taken
          trivial
      | fail =>
          cases taken
          trivial
      | _ => cases taken
  | driving =>
      cases label with
      | saveSnapshot key row =>
          cases taken
          trivial
      | decide result =>
          cases taken
          exact decides result rfl
      | fail =>
          cases taken
          trivial
      | _ => cases taken
  | decided result =>
      cases label with
      | reloadRun =>
          cases taken
          rw [runRow]
          exact ⟨sound, pending⟩
      | fail =>
          cases taken
          trivial
      | _ => cases taken
  | reloadedRun result run =>
      cases label with
      | reloadDocument =>
          cases taken
          cases before.documents run.documentId with
          | none => trivial
          | some document => exact sound
      | fail =>
          cases taken
          trivial
      | _ => cases taken
  | reloadedDocument result run document =>
      cases label with
      | commitResult =>
          rw [Call.step] at taken
          split at taken <;>
          · cases taken
            trivial
      | fail =>
          cases taken
          trivial
      | _ => cases taken
  | returned => cases taken
  | finished => cases taken

/-- The result of a pending run is committed with the status that belongs to it. -/
theorem stage_of_commitResult [Interpreter] {result : ValidationResult} {run row : ValidationRun}
    {document : Document} (answerable : Answerable result) (pending : ¬run.status.Terminal)
    (runRow : before.runs runId = some row)
    (stored : commitResult runId run document result before = .ok after) :
    Stage runId after .finished ∧ after.results runId = some result := by
  have changed : finalStatus result.verdict ≠ run.status := fun same =>
    pending (same ▸ terminal_finalStatus _)
  unfold commitResult at stored
  split at stored
  · cases stored
  · cases stored
    refine ⟨.stored (run.flush (finishRun result run) row) result ?_ ?_ answerable
      (flushed_of_ne _ changed) rfl, ?_⟩
    · simp [runRow]
    · simp
    · simp

/-- Without a result so far, the last commit goes through. -/
theorem stored_of_commitResult [Interpreter] (noResult : before.results runId = none)
    (taken : Call.step runId before call .commitResult = some (after, next)) :
    ∃ result run document, call = .reloadedDocument result run document ∧ next = .finished ∧
      commitResult runId run document result before = .ok after := by
  cases call with
  | reloadedDocument result run document =>
      rw [Call.step] at taken
      split at taken
      · next stored =>
          cases taken
          exact ⟨result, run, document, rfl, rfl, stored⟩
      · next refused =>
          unfold commitResult at refused
          rw [noResult] at refused
          cases refused
  | _ => cases taken

/-- A step keeps a pending run without a result, unless it commits the result. -/
theorem Stage.step [Interpreter] (stage : Stage runId before call)
    (decides : ∀ result, label = .decide result → Answerable result)
    (taken : Call.step runId before call label = some (after, next)) :
    Stage runId after next ∧ before.results runId = none ∧
      (label ≠ .commitResult → after.results runId = none) ∧
      (label = .commitResult → next = .finished ∧ ∃ result, after.results runId = some result) := by
  cases stage with
  | stored run result runRow resultRow answerable status ended =>
      rw [ended] at taken
      cases taken
  | pending run runRow noResult isPending sound =>
      by_cases commits : label = .commitResult
      · subst commits
        rcases stored_of_commitResult noResult taken with
          ⟨result, read, document, rfl, rfl, stored⟩
        rcases stage_of_commitResult sound.1 sound.2 runRow stored with ⟨closed, resultRow⟩
        exact ⟨closed, noResult, fun other => absurd rfl other, fun _ => ⟨rfl, _, resultRow⟩⟩
      · have frame {row : ValidationRun} (present : after.runs runId = some row)
            (unchanged : after.results runId = none) (unfinished : ¬row.status.Terminal) :
            Stage runId after next :=
          .pending row present unchanged unfinished (sound.step runRow isPending decides taken)
        cases Call.moves_of_step taken with
        | @claims read document claimable =>
            rcases runs_commitClaim document claimable runRow with ⟨row, claimed, running⟩
            have unfinished : ¬row.status.Terminal := by
              rw [running]
              decide
            exact ⟨frame claimed noResult unfinished, noResult, fun _ => noResult,
              fun same => absurd same commits⟩
        | finishes stored => exact absurd rfl commits
        | keeps same noClaim claimed active waiting =>
            have unchanged : after.results runId = none := same.results ▸ noResult
            exact ⟨frame (same.runs ▸ runRow) unchanged isPending, noResult, fun _ => unchanged,
              fun same => absurd same commits⟩

/-! ## The poll -/

/-- What the poll has read fits the rows. -/
def Poll.Sound (runId : UUID) (db : Database ContractState) : Poll → Prop
  | .readRun run => Coherent (resultResponse runId run (db.results runId))
  | .answered response => Coherent response
  | _ => True

/-- The two statements are on both sides of the commit. -/
def Poll.Straddles (runId : UUID) (db : Database ContractState) : Poll → Prop
  | .readRun run => ¬run.status.Terminal ∧ ∃ result, db.results runId = some result
  | .answered response => ¬Coherent response
  | _ => False

variable {state later : Polled} {move : PollStep}

theorem Stage.coherent (stage : Stage runId state.db state.call) {run : ValidationRun}
    (runRow : state.db.runs runId = some run) :
    Coherent (resultResponse runId run (state.db.results runId)) := by
  cases stage with
  | pending row present noResult isPending sound =>
      rw [runRow, Option.some.injEq] at present
      rw [noResult, present]
      exact coherent_pending isPending
  | stored row result present resultRow answerable status ended =>
      rw [runRow, Option.some.injEq] at present
      rw [resultRow, present]
      exact answerable.coherent status

/-- The call and the poll are where the rows say. -/
structure Sound (runId : UUID) (state : Polled) : Prop where
  stage : Stage runId state.db state.call
  poll : state.poll.Sound runId state.db

/-- The call has ended, and the poll has seen the run without its result. -/
structure Straddled (runId : UUID) (state : Polled) : Prop where
  ended : state.call = .finished
  poll : state.poll.Straddles runId state.db

theorem Sound.step [Interpreter] (sound : Sound runId state) (decides : DecidesSoundly move)
    (taken : (polling runId).step state move = some later) :
    (StoresApart state move later ∧ Sound runId later) ∨
      (¬StoresApart state move later ∧ Straddled runId later) := by
  rcases state with ⟨db, call, poll⟩
  cases move with
  | call label =>
      rcases Option.map_eq_some_iff.mp taken with ⟨⟨after, next⟩, stepped, rfl⟩
      rcases sound.stage.step (fun result same => (decides result (congrArg _ same)).answerable)
        stepped with ⟨stage, noResult, keeps, commits⟩
      by_cases last : label = .commitResult
      · rcases commits last with ⟨ended, result, resultRow⟩
        cases poll with
        | readRun run =>
            have coherent : Coherent (resultResponse runId run (db.results runId)) := sound.poll
            rw [noResult] at coherent
            have pending : ¬run.status.Terminal := fun terminal =>
              absurd (coherent.ready_iff.mpr terminal) (by simp [resultResponse])
            exact Or.inr ⟨fun apart => apart (congrArg _ last) run rfl, ended, pending, result,
              resultRow⟩
        | asked => exact Or.inl ⟨(fun _ run same => by cases same), stage, trivial⟩
        | answered response =>
            exact Or.inl ⟨(fun _ run same => by cases same), stage, sound.poll⟩
        | noRun => exact Or.inl ⟨(fun _ run same => by cases same), stage, trivial⟩
      · refine Or.inl ⟨fun same => absurd (PollStep.call.inj same) last, stage, ?_⟩
        cases poll with
        | readRun run =>
            have coherent : Coherent (resultResponse runId run (db.results runId)) := sound.poll
            rwa [noResult, ← keeps last] at coherent
        | asked => trivial
        | answered response => exact sound.poll
        | noRun => trivial
  | readRun =>
      cases poll with
      | asked =>
          cases taken
          refine Or.inl ⟨(fun other => by cases other), sound.stage, ?_⟩
          cases present : db.runs runId with
          | none => trivial
          | some run => exact sound.stage.coherent present
      | _ => cases taken
  | readResult =>
      cases poll with
      | readRun run =>
          cases taken
          exact Or.inl ⟨(fun other => by cases other), sound.stage, sound.poll⟩
      | _ => cases taken

theorem Straddled.step [Interpreter] (straddled : Straddled runId state)
    (taken : (polling runId).step state move = some later) : Straddled runId later := by
  rcases state with ⟨db, call, poll⟩
  rcases straddled with ⟨ended, straddles⟩
  cases move with
  | call label =>
      rcases Option.map_eq_some_iff.mp taken with ⟨_, stepped, _⟩
      rw [ended] at stepped
      cases stepped
  | readRun =>
      cases poll with
      | asked => exact straddles.elim
      | _ => cases taken
  | readResult =>
      cases poll with
      | readRun run =>
          cases taken
          rcases straddles with ⟨pending, result, resultRow⟩
          refine ⟨ended, fun coherent => pending ?_⟩
          rw [resultRow] at coherent
          exact coherent.ready_iff.mp rfl
      | _ => cases taken

theorem Straddled.run [Interpreter] {moves : List PollStep}
    (execution : (polling runId).Executes state moves later)
    (straddled : Straddled runId state) : Straddled runId later := by
  induction execution with
  | refl state => exact straddled
  | step taken _ rest ih => exact ih (straddled.step taken)

/-- An execution keeps the poll sound, unless the result is committed between its two
statements. -/
theorem sound_or_straddled [Interpreter] {moves : List PollStep}
    (execution : (polling runId).Executes state moves later)
    (decides : ∀ move ∈ moves, DecidesSoundly move) (sound : Sound runId state) :
    ((polling runId).Execution StoresApart state moves later ∧ Sound runId later) ∨
      Straddled runId later := by
  induction execution with
  | refl state => exact Or.inl ⟨.refl state, sound⟩
  | step taken _ rest ih =>
      rw [List.forall_mem_cons] at decides
      rcases sound.step decides.1 taken with ⟨apart, next⟩ | ⟨_, straddled⟩
      · rcases ih decides.2 next with ⟨others, final⟩ | straddled
        · exact Or.inl ⟨.step taken apart others, final⟩
        · exact Or.inr straddled
      · exact Or.inr (straddled.run rest)

/-- Along an execution that stores the result apart from the statements, nothing straddles. -/
theorem sound_of_storesApart [Interpreter] {moves : List PollStep}
    (execution : (polling runId).Execution StoresApart state moves later)
    (decides : ∀ move ∈ moves, DecidesSoundly move) (sound : Sound runId state) :
    Sound runId later := by
  induction execution with
  | refl state => exact sound
  | step taken apart rest ih =>
      rw [List.forall_mem_cons] at decides
      rcases sound.step decides.1 taken with ⟨_, next⟩ | ⟨straddles, _⟩
      · exact ih decides.2 next
      · exact absurd apart straddles

theorem sound_of_started {run : ValidationRun} (runRow : state.db.runs runId = some run)
    (claimable : run.status.Claimable) (noResult : state.db.results runId = none)
    (initial : state.call = .started ∧ state.poll = .asked) : Sound runId state := by
  constructor
  · refine .pending run runRow noResult (fun terminal => terminal.not_claimable claimable) ?_
    rw [initial.1]
    trivial
  · rw [initial.2]
    trivial

/-- A response is coherent exactly if the result was not committed between the two statements
that it was made from. -/
theorem coherent_iff_storesApart [Interpreter] {moves : List PollStep} {run : ValidationRun}
    {response : ResultResponse} (initial : (polling runId).initial state)
    (runRow : state.db.runs runId = some run) (claimable : run.status.Claimable)
    (noResult : state.db.results runId = none)
    (execution : (polling runId).Executes state moves later)
    (decides : ∀ move ∈ moves, DecidesSoundly move)
    (answered : later.poll = .answered response) :
    Coherent response ↔ (polling runId).Execution StoresApart state moves later := by
  have sound := sound_of_started runRow claimable noResult initial
  constructor
  · intro coherent
    rcases sound_or_straddled execution decides sound with ⟨apart, _⟩ | straddled
    · exact apart
    · have incoherent := straddled.poll
      rw [answered] at incoherent
      exact absurd coherent incoherent
  · intro apart
    have final := (sound_of_storesApart apart decides sound).poll
    rwa [answered] at final

end Polling

section Closed

attribute [local instance] Interpreter.ascii

/-- What the parser raises when the document's file is gone. -/
def lostBlob : PyException := ⟨"FileNotFoundError".toList, "No such file".toList⟩

/-- What the blob store answers when the volume is gone. -/
def lostBlobEnvironment : Environment :=
  { replyEnvironment [] [] with parseDocument := fun _ => .error lostBlob }

/-- The locals of a call that has caught the exception. -/
def lostBlobLocals : Locals :=
  failOutcome lostBlob (initialLocals (claimedOf sampleRun sampleDocument))

/-- The row that this call stores. -/
def lostBlobResult : ValidationResult :=
  resultRow lostBlobLocals [.str lostBlob.message]
    (assist lostBlobEnvironment sampleRun.temperature lostBlobLocals)

theorem runDecides_lostBlob : RunDecides lostBlobResult :=
  ⟨lostBlobEnvironment, Storage.reliable, claimedOf sampleRun sampleDocument, lostBlobLocals, _,
    .raised (.parse lostBlob rfl) _ rfl, rfl, rfl⟩

/-- A queued run, nothing of the call done and nothing polled yet. -/
def samplePoll : Polled := ⟨sampleWorld.db, .started, .asked⟩

/-- The call up to its last commit. -/
def callMoves : List PollStep :=
  [.readRun, .readDocument, .commitClaim, .decide lostBlobResult, .reloadRun,
    .reloadDocument].map .call

theorem decidesSoundly_callMoves {moves : List PollStep}
    (others : ∀ move ∈ moves, ∀ result, move ≠ .call (.decide result)) :
    ∀ move ∈ callMoves ++ moves, DecidesSoundly move := by
  rintro move member result rfl
  rcases List.mem_append.mp member with within | other
  · simp only [callMoves, List.map_cons, List.map_nil, List.mem_cons, PollStep.call.injEq,
      reduceCtorEq, CallStep.decide.injEq, List.not_mem_nil, or_false, false_or] at within
    rw [within]
    exact runDecides_lostBlob
  · exact absurd rfl (others _ other result)

theorem coherent_iff_storesApart_lostBlob : ∃ later response,
    later.poll = .answered response ∧
      (Coherent response ↔ (polling sampleRunId).Execution StoresApart samplePoll
        (callMoves ++ [.call .commitResult, .readRun, .readResult]) later) :=
  ⟨_, _, rfl, coherent_iff_storesApart ⟨rfl, rfl⟩ rfl (by decide) rfl
    (executes_of_execute rfl) (decidesSoundly_callMoves (by simp)) rfl⟩

/-- With the last commit between its two statements, the poll reports a result of a run that
is still `running`. -/
theorem poll_straddles :
    ¬∀ (runId : UUID) (run : ValidationRun) (start final : Polled) (moves : List PollStep)
      (response : ResultResponse), (polling runId).initial start →
      start.db.runs runId = some run → run.status = .queued →
      start.db.results runId = none → (polling runId).Executes start moves final →
      (∀ move ∈ moves, DecidesSoundly move) → final.poll = .answered response →
      Coherent response := by
  intro coherent
  have response := coherent sampleRunId sampleRun samplePoll _
    (callMoves ++ [.readRun, .call .commitResult, .readResult]) _ ⟨rfl, rfl⟩ rfl rfl rfl
    (executes_of_execute rfl) (decidesSoundly_callMoves (by simp)) rfl
  exact absurd (response.ready_iff.mp rfl) (by decide)

end Closed

end OrcaValidator
