import OrcaValidator.Pipeline.Verdict

/-!
# The assisted layer does not reach the verdict

Two executions of `run_validation` over the same rows and the same storage, in which the
parser and the classifier answer alike, drive the machine alike.  Whatever the analysis,
the revision, the extraction of a document's machine and its verifier return or raise,
they end in the same way and leave the same rows but for the four columns of the
assisted layer.
-/

namespace OrcaValidator

open Library Effect

section Runs

variable [Interpreter]

/-- The columns of a result that the verified part of the product fills. -/
def ValidationResult.verified (result : ValidationResult) :
    Json × Text × List Json × Dict Text Bool × Dict Text Json :=
  (result.verdict, result.finalState, result.reasons, result.extractedFields,
    result.machineContext)

/-- The databases differ at most in the assisted columns of their results. -/
structure SameVerdicts {State : Type} (left right : Database State) : Prop where
  documents : left.documents = right.documents
  runs : left.runs = right.runs
  results : ∀ id, (left.results id).map ValidationResult.verified =
    (right.results id).map ValidationResult.verified
  snapshots : left.snapshots = right.snapshots

omit [Interpreter] in
theorem SameVerdicts.refl {State : Type} (db : Database State) : SameVerdicts db db :=
  ⟨rfl, rfl, fun _ => rfl, rfl⟩

/-- The environments answer alike what the verified part of a run asks. -/
structure SameAnswers (left right : Environment) (claimed : Claimed) : Prop where
  llmEnabled : left.llmEnabled = right.llmEnabled
  extractor : left.extractor = right.extractor
  parse : left.parseDocument claimed.blobRef = right.parseDocument claimed.blobRef
  classify : ∀ result, right.parseDocument claimed.blobRef = .ok result →
    left.classifyReply result.rawText claimed.temperature =
      right.classifyReply result.rawText claimed.temperature

section Coupled

variable {left right : Environment} {claimed : Claimed}

theorem extractFields_eq (same : SameAnswers left right claimed) {result : OCRResult}
    (parsed : right.parseDocument claimed.blobRef = .ok result) :
    extractFields left claimed result = extractFields right claimed result := by
  unfold extractFields
  rw [same.llmEnabled, same.extractor, same.classify result parsed]

theorem drive_eq (same : SameAnswers left right claimed) (storage : Storage) (runId : UUID) :
    drive left storage runId claimed = drive right storage runId claimed := by
  unfold drive driveBy
  rw [same.parse]
  cases parsed : right.parseDocument claimed.blobRef with
  | error reason => rfl
  | ok result =>
      simp only [lift_ok_bind, extractFields_eq same parsed]

theorem decideOutcome_eq (same : SameAnswers left right claimed) (storage : Storage)
    (runId : UUID) :
    decideOutcome left storage runId claimed = decideOutcome right storage runId claimed := by
  unfold decideOutcome
  rw [drive_eq same]

theorem sameVerdicts_finishRows {State : Type} {db one other : Database State}
    {runId documentId : UUID} {locals : Locals} {reasons : List Json}
    {assistance assistance' : Assistance}
    (finished : finishRows runId documentId (resultRow locals reasons assistance) db = .ok one)
    (finished' : finishRows runId documentId (resultRow locals reasons assistance') db =
      .ok other) : SameVerdicts one other := by
  unfold finishRows at finished finished'
  cases noResult : db.results runId with
  | some present => simp [noResult] at finished
  | none =>
      simp only [noResult, Except.ok.injEq] at finished finished'
      subst finished finished'
      refine ⟨rfl, rfl, ?_, rfl⟩
      intro id
      by_cases same : id = runId
      · simp [same, resultRow, ValidationResult.verified]
      · simp [same]

theorem coupled_store (left right : Environment) {storage : Storage}
    (commits : storage.Commits) (runId : UUID) (world : World) :
    Coupled (fun one other => SameVerdicts one.db other.db)
      (store left storage runId claimed) (store right storage runId claimed) world := by
  have reflexive : ∀ world : World, SameVerdicts world.db world.db := fun _ => .refl _
  refine Coupled.read ?_
  cases world.db.runs runId with
  | none => exact Coupled.refl reflexive _
  | some run =>
      refine Coupled.bind reflexive ?_
      intro reasons after listed
      obtain rfl : world = after := congrArg Prod.snd listed
      cases world.db.documents run.documentId with
      | none => exact Coupled.refl reflexive _
      | some document =>
          dsimp only
          cases noResult : world.db.results runId with
          | some present =>
              simp only [finishRows, noResult]
              exact Coupled.refl reflexive _
          | none =>
              have finishes : ∀ result, ∃ db,
                  finishRows runId run.documentId result world.db = .ok db := by
                simp [finishRows, noResult]
              rcases finishes (resultRow world.locals reasons
                (assist left claimed.temperature world.locals)) with ⟨one, finished⟩
              rcases finishes (resultRow world.locals reasons
                (assist right claimed.temperature world.locals)) with ⟨other, finished'⟩
              rw [finished, finished']
              simp only [lift_ok_bind, commits _]
              exact Coupled.modify (sameVerdicts_finishRows finished finished')

end Coupled

/-- Whatever the assisted layer does, a call for a queued run ends in the same way and
leaves the same rows, but for the assisted columns of the result. -/
theorem runValidation_noninterference {left right : Environment} {storage : Storage}
    {world : World} {runId : UUID} {run : ValidationRun} {document : Document}
    (queued : Queued world runId run document) (commits : storage.Commits)
    (same : SameAnswers left right (claimedOf run document)) :
    ∃ leftAfter rightAfter leftResult rightResult,
      runValidation left storage runId world = (.ok ⟨⟩, leftAfter) ∧
      runValidation right storage runId world = (.ok ⟨⟩, rightAfter) ∧
      leftAfter.db.results runId = some leftResult ∧
      rightAfter.db.results runId = some rightResult ∧
      leftResult.verified = rightResult.verified ∧
      leftAfter.db.runs = rightAfter.db.runs ∧
      leftAfter.db.documents = rightAfter.db.documents := by
  have reflexive : ∀ world : World, SameVerdicts world.db world.db := fun _ => .refl _
  have coupled : Coupled (fun one other => SameVerdicts one.db other.db)
      (runValidation left storage runId) (runValidation right storage runId) world := by
    refine Coupled.bind reflexive ?_
    intro value after claims
    have claimed : value = some (claimedOf run document) := by
      have found := @ensures_claim storage _ _ _ _ queued
      unfold Ensures at found
      rw [claims] at found
      exact found.1
    subst claimed
    dsimp only
    rw [decideOutcome_eq same]
    exact Coupled.bind reflexive fun _ after _ => coupled_store left right commits runId after
  rcases returns_of_commits left queued commits with ⟨leftAfter, _, _, ended, _, _, rows⟩
  rcases returns_of_commits right queued commits with ⟨rightAfter, _, _, ended', _, _, rows'⟩
  have kept := coupled.2
  rw [ended, ended'] at kept
  refine ⟨leftAfter, rightAfter, _, _, ended, ended', rows.resultRow, rows'.resultRow, ?_,
    kept.runs, kept.documents⟩
  have results := kept.results runId
  rw [rows.resultRow, rows'.resultRow] at results
  exact Option.some.inj results

end Runs

section Sample

attribute [local instance] Interpreter.ascii

/-- The assisted layer answers, with the analysis and the redline the model might give. -/
def assistedEnvironment (text reply : Text) : Environment :=
  { replyEnvironment text reply with
    analyzeContract := fun _ _ => .ok (.obj [])
    reviseContract := fun _ _ _ => .ok "\x7b--ten--\x7d\x7b++twelve++\x7d".toList
    extractStateMachine := fun _ _ => .ok "# machine Lease".toList
    verifyAndCompile := fun _ => .ok (.obj []) }

/-- With the assisted layer unavailable, and with its answers. -/
theorem runValidation_noninterference_sampleRun :
    ∃ leftAfter rightAfter leftResult rightResult,
      runValidation (replyEnvironment "A lease.".toList "no answer".toList) Storage.reliable
        sampleRunId sampleWorld = (.ok ⟨⟩, leftAfter) ∧
      runValidation (assistedEnvironment "A lease.".toList "no answer".toList)
        Storage.reliable sampleRunId sampleWorld = (.ok ⟨⟩, rightAfter) ∧
      leftAfter.db.results sampleRunId = some leftResult ∧
      rightAfter.db.results sampleRunId = some rightResult ∧
      leftResult.verified = rightResult.verified ∧
      leftAfter.db.runs = rightAfter.db.runs ∧
      leftAfter.db.documents = rightAfter.db.documents :=
  runValidation_noninterference queued_sampleWorld Storage.commits_reliable
    ⟨rfl, rfl, rfl, fun _ _ => rfl⟩

end Sample

end OrcaValidator
