import OrcaValidator.Pipeline.Storable

/-!
# When the model fails

The verdict is the machine's, and the language model only adds an analysis, a redline and
the document's own machine to it.  Their failures are recorded and change no verdict.  The
classification is made in the driving section, though, and under its handler: what the call
or the reading of its reply raises there becomes the verdict `error`.
-/

namespace OrcaValidator

open Library Effect OrcaBridge

section ModelFailure

variable [Interpreter]

/-- The run is done, with a verdict that its machine reached on the fields of the result. -/
structure DecidedByMachine (claimed : Claimed) (runId : UUID) (db : Database ContractState) :
    Prop where
  done : ∃ run, db.runs runId = some run ∧ run.status = .done
  decided : ∃ result, db.results runId = some result ∧
    (result.verdict = verdictPass ∨ result.verdict = verdictFail) ∧
    ∃ extraction final, Machine.Evaluates (startContext claimed) extraction final ∧
      extraction.fields = result.extractedFields ∧
      (machineVerdict final, final.state.name, machineReasons final) =
        (result.verdict, result.finalState, Json.arr result.reasons)

/-- Nothing raises between the text of a document and its fields: the classification is
answered with a reply that can be read, or, without a language model, the extractor that is
set exists. -/
def FieldsRead (env : Environment) (text : Text) (temperature : ℚ) : Prop :=
  if env.llmEnabled then
    ∃ content, env.classifyReply text temperature = .ok content ∧ ReadableReply content
  else env.extractor = "deterministic".toList

theorem extractFields_ok_iff {env : Environment} {claimed : Claimed} {parsed : OCRResult}
    (supported : claimed.docType ∈ machineDefs) :
    (∃ extracted, extractFields env claimed parsed = .ok extracted) ↔
      FieldsRead env parsed.rawText claimed.temperature := by
  unfold FieldsRead
  by_cases llm : env.llmEnabled = true
  · rw [if_pos llm]
    cases replied : env.classifyReply parsed.rawText claimed.temperature with
    | error error =>
        have raised : extractFields env claimed parsed = .error error := by
          simp only [extractFields, llm, if_true, replied]
          rfl
        simp [raised]
    | ok content =>
        rw [extractFields_reply claimed llm replied]
        simp only [Except.ok.injEq, exists_eq_left', ← classify_ok_iff]
        cases classifyAndCheckFields content with
        | error error => exact iff_of_false (by rintro ⟨_, ⟨⟩⟩) (by rintro ⟨_, ⟨⟩⟩)
        | ok extraction => exact iff_of_true ⟨_, rfl⟩ ⟨_, rfl⟩
  · have contract : claimed.docType = "contract".toList := by simpa [machineDefs] using supported
    simp only [extractFields, llm, if_false, getExtractor, contract, ne_eq, not_true_eq_false]
    by_cases registered : env.extractor = "deterministic".toList
    · simp only [registered, not_true_eq_false, if_false]
      exact iff_of_true ⟨_, rfl⟩ trivial
    · simp only [registered, not_false_eq_true, if_true]
      exact iff_of_false (by rintro ⟨_, ⟨⟩⟩) id

section Outcomes

variable {env : Environment} {claimed : Claimed} {locals : Locals} {reasons : List Json}
  {runId : UUID} {run : ValidationRun} {document : Document} {db : Database ContractState}

theorem not_decidedByMachine_of_error {reason : Json} {assistance : Assistance}
    (outcome : locals.outcome = errorOutcome reason)
    (finished : Finished runId run document (resultRow locals reasons assistance) db) :
    ¬DecidedByMachine claimed runId db := by
  rintro ⟨_, result, stored, verdict, _⟩
  obtain rfl := Option.some.inj (finished.resultRow.symm.trans stored)
  have failed : locals.verdict = verdictError := (reasons_of_outcome outcome).1
  have differ : ¬(verdictError = verdictPass ∨ verdictError = verdictFail) := by decide
  rw [← failed] at differ
  exact differ verdict

/-- What a field set decides is what the machine of the run reaches on it. -/
theorem decidedByMachine_of_outcome {extraction : Extraction} {assistance : Assistance}
    (fields : locals.fields = extraction.fields)
    (outcome : locals.outcome = fieldsOutcome extraction.fields)
    (listed : locals.reasons = .arr reasons)
    (finished : Finished runId run document (resultRow locals reasons assistance) db) :
    DecidedByMachine claimed runId db := by
  have verdict : locals.verdict = verdictPass ∨ locals.verdict = verdictFail := by
    unfold fieldsOutcome at outcome
    split at outcome
    · exact .inl (reasons_of_outcome outcome).1
    · exact .inr (reasons_of_outcome outcome).1
  rcases Machine.exists_evaluates (startContext claimed) extraction with
    ⟨final, evaluates, reached⟩
  refine ⟨⟨_, finished.runRow, if_pos verdict⟩, _, finished.resultRow, verdict, ?_⟩
  refine ⟨extraction, final, evaluates, fields.symm, ?_⟩
  rw [reached, ← outcome, Locals.outcome, listed]
  rfl

/-- Of a readable document whose answers are stored, the machine has decided exactly when
its fields could be read. -/
theorem Ends.decided_iff_fieldsRead {parsed : OCRResult} {assistance : Assistance}
    (ends : Ends env claimed locals) (listed : locals.reasons = .arr reasons)
    (finished : Finished runId run document (resultRow locals reasons assistance) db)
    (answers : StorableAnswers env claimed) (supported : claimed.docType ∈ machineDefs)
    (parse : env.parseDocument claimed.blobRef = .ok parsed) (ok : parsed.ok = true) :
    DecidedByMachine claimed runId db ↔ FieldsRead env parsed.rawText claimed.temperature := by
  rw [← extractFields_ok_iff supported]
  cases ends with
  | raised error fails outcome fields kind =>
      refine iff_of_false (not_decidedByMachine_of_error outcome finished) ?_
      rintro ⟨extracted, extracts⟩
      cases (fails.not_parsed parse).2.symm.trans extracts
  | unreadable other parsed' unreadable reason plain outcome fields kind =>
      obtain rfl := Except.ok.inj (parse.symm.trans parsed')
      simp [ok] at unreadable
  | extracted other documentType extraction extracts docText fields kind outcome =>
      obtain rfl := Except.ok.inj (parse.symm.trans extracts.parsed)
      refine iff_of_true ?_ ⟨_, extracts.extracted⟩
      rcases answers.of_extracts extracts with ⟨kindStorable, names, _⟩
      have storable := storable_of_extractFields extracts.extracted kindStorable names
      have decided := outcome.resolve_right fun refused => refused.1 storable
      exact decidedByMachine_of_outcome fields decided listed finished

end Outcomes

section Runs

variable {env : Environment} {storage : Storage} {world : World} {runId : UUID}
  {run : ValidationRun} {document : Document} {parsed : OCRResult}

theorem ensures_decidedByMachine (postgres : storage.Postgres)
    (queued : Queued world runId run document) (supported : document.docType ∈ machineDefs)
    (stored : world.db.Storable) (parse : env.parseDocument document.blobRef = .ok parsed)
    (ok : parsed.ok = true) :
    Ensures (runValidation env storage runId) world
      (fun _ after => (DecidedByMachine (claimedOf run document) runId after.db ↔
          FieldsRead env parsed.rawText run.temperature) ∧
        StorableAnswers env (claimedOf run document))
      (fun _ after => ¬DecidedByMachine (claimedOf run document) runId after.db ∧
        ¬StorableAnswers env (claimedOf run document)) := by
  refine (ensures_runValidation_postgres env postgres queued supported stored).weaken ?_ ?_
  · rintro _ after ⟨locals, reasons, listed, ends, finished, answers⟩
    exact ⟨ends.decided_iff_fieldsRead listed finished answers supported parse ok, answers⟩
  · rintro error after ⟨noResult, refused⟩
    refine ⟨?_, refused⟩
    rintro ⟨_, result, present, _⟩
    cases noResult.symm.trans present

/-- A classification that raises costs the document its verdict. -/
theorem not_decidedByMachine_of_unread (postgres : storage.Postgres)
    (queued : Queued world runId run document) (supported : document.docType ∈ machineDefs)
    (stored : world.db.Storable) (parse : env.parseDocument document.blobRef = .ok parsed)
    (ok : parsed.ok = true) (unread : ¬FieldsRead env parsed.rawText run.temperature) :
    ¬DecidedByMachine (claimedOf run document) runId
      (runValidation env storage runId world).2.db := by
  have ends := ensures_decidedByMachine postgres queued supported stored parse ok
  have undecided : Ensures (runValidation env storage runId) world
      (fun _ after => ¬DecidedByMachine (claimedOf run document) runId after.db)
      (fun _ after => ¬DecidedByMachine (claimedOf run document) runId after.db) := by
    refine ends.weaken ?_ fun _ _ both => both.1
    rintro _ after ⟨decided, _⟩ reached
    exact unread (decided.mp reached)
  exact undecided.after

/-- The machine decides on a readable document if and only if the classification of it
succeeds and what the services answer can be stored. -/
theorem decidedByMachine_iff (env : Environment) (postgres : storage.Postgres)
    (queued : Queued world runId run document) (supported : document.docType ∈ machineDefs)
    (stored : world.db.Storable) (parse : env.parseDocument document.blobRef = .ok parsed)
    (ok : parsed.ok = true) :
    DecidedByMachine (claimedOf run document) runId
        (runValidation env storage runId world).2.db ↔
      FieldsRead env parsed.rawText run.temperature ∧
        StorableAnswers env (claimedOf run document) := by
  have ends := ensures_decidedByMachine postgres queued supported stored parse ok
  have settled : Ensures (runValidation env storage runId) world
      (fun _ after => DecidedByMachine (claimedOf run document) runId after.db ↔
        FieldsRead env parsed.rawText run.temperature ∧
          StorableAnswers env (claimedOf run document))
      (fun _ after => DecidedByMachine (claimedOf run document) runId after.db ↔
        FieldsRead env parsed.rawText run.temperature ∧
          StorableAnswers env (claimedOf run document)) := by
    refine ends.weaken ?_ ?_
    · rintro _ after ⟨decided, answers⟩
      exact decided.trans (and_iff_left answers).symm
    · rintro error after ⟨undecided, refused⟩
      exact iff_of_false undecided fun both => refused both.2
  exact settled.after

end Runs

end ModelFailure

section Sample

attribute [local instance] Interpreter.ascii

/-- The token budget of the day is used up. -/
def budgetEnvironment : Environment :=
  let exceeded : PyException :=
    ⟨"BudgetExceeded".toList, "daily LLM token budget reached (500000/500000)".toList⟩
  { replyEnvironment "A lease.".toList [] with
    classifyReply := fun _ _ => .error exceeded
    analyzeContract := fun _ _ => .error exceeded
    reviseContract := fun _ _ _ => .error exceeded
    extractStateMachine := fun _ _ => .error exceeded }

/-- Where the day's tokens are used up, the classification raises and the machine does not decide
on a document that was read. -/
theorem not_decidedByMachine_budget : ¬DecidedByMachine (claimedOf sampleRun sampleDocument)
    sampleRunId (runValidation budgetEnvironment Storage.strict sampleRunId sampleWorld).2.db := by
  have readable : OCRResult.ok ⟨"A lease.".toList, none⟩ = true := by decide
  refine not_decidedByMachine_of_unread Storage.postgres_strict queued_sampleWorld (by decide)
    storable_sampleWorld rfl readable ?_
  rintro ⟨content, ⟨⟩, _⟩

theorem decidedByMachine_plain : DecidedByMachine (claimedOf sampleRun sampleDocument)
    sampleRunId (runValidation (analyzedEnvironment "no analysis".toList) Storage.strict
      sampleRunId sampleWorld).2.db := by
  have readable : OCRResult.ok ⟨"A lease.".toList, none⟩ = true := by decide
  have notJson : Json.loads "no answer".toList = none := by decide +kernel
  refine (decidedByMachine_iff _ Storage.postgres_strict queued_sampleWorld (by decide)
    storable_sampleWorld rfl readable).mpr ⟨?_, storableAnswers_plain⟩
  exact ⟨"no answer".toList, rfl, .inl notJson⟩

end Sample

end OrcaValidator
