import OrcaValidator.Llm.Classify
import OrcaValidator.Orca.Bridge

/-!
# Validation

`run_validation`: claim the run, parse the document, extract its fields, drive the
machine with them, and store what the machine decided.  The claim and the final write
are each one transaction; everything between them happens outside any transaction,
under an exception handler that turns a failure into the verdict `error`.

The settings, the parser and the language model are an `Environment`: a call either
returns what the environment answers or raises what it raises.
-/

namespace OrcaValidator

open Library

variable [Interpreter]

/-- The settings, and the answers of the services that a run consults. -/
structure Environment where
  llmEnabled : Bool
  /-- The `EXTRACTOR` setting. -/
  extractor : Text
  /-- `parse_document`, by the reference of the blob. -/
  parseDocument : Text → Except PyException OCRResult
  /-- The content of the reply that `classify_and_check_fields` gets from `_chat`. -/
  classifyReply : Text → ℚ → Except PyException Text
  analyzeContract : Text → ℚ → Except PyException Json
  reviseContract : Text → Json → ℚ → Except PyException Text
  extractStateMachine : Text → ℚ → Except PyException Text
  verifyAndCompile : Text → Except PyException Json

/-- What a call remembers of the two rows it claimed. -/
structure Claimed where
  docType : Text
  blobRef : Text
  owner : Text
  documentId : UUID
  temperature : ℚ

/-- What an attribute of `None` raises. -/
def noAttribute (name : Text) : PyException :=
  ⟨"AttributeError".toList, "'NoneType' object has no attribute '".toList ++ name ++ "'".toList⟩

/-- The second result of one run: the column `run_id` is unique. -/
def duplicateResult : PyException :=
  ⟨"IntegrityError".toList,
    "duplicate key value violates unique constraint on validation_results.run_id".toList⟩

/-! ## The transactions -/

/-- A run that `run_validation` does not return from at once. -/
def Status.Claimable (status : Status) : Prop :=
  status ≠ .done ∧ status ≠ .failed ∧ status ≠ .running

instance (status : Status) : Decidable status.Claimable :=
  inferInstanceAs (Decidable (_ ∧ _ ∧ _))

omit [Interpreter] in
theorem Status.Terminal.not_claimable {status : Status} (terminal : status.Terminal) :
    ¬status.Claimable := fun claimable => terminal.elim claimable.1 claimable.2.1

/-- The rows after the claim. -/
def claimRows {State : Type} (runId documentId : UUID) (db : Database State) :
    Database State :=
  (db.updateRun runId fun run => { run with status := .running }).updateDocument documentId
    fun document => { document with status := .running }

/-- `"done" if verdict in ("pass", "fail") else "failed"`. -/
def finalStatus (verdict : Json) : Status :=
  if verdict = verdictPass ∨ verdict = verdictFail then .done else .failed

omit [Interpreter] in
theorem terminal_finalStatus (verdict : Json) : (finalStatus verdict).Terminal := by
  unfold finalStatus
  split
  · exact .inl rfl
  · exact .inr rfl

/-- `"; ".join(map(str, reasons))[:1000]`. -/
def errorText (reasons : List Json) : Text :=
  (List.intercalate "; ".toList (reasons.map Interpreter.str)).take 1000

/-- The row of the run after the final commit. -/
def finishRun (result : ValidationResult) (run : ValidationRun) : ValidationRun :=
  { run with
    status := finalStatus result.verdict
    error := if result.verdict = verdictError then some (errorText result.reasons)
      else run.error }

/-- The final write: the result, and the status of both rows. -/
def finishRows {State : Type} (runId documentId : UUID) (result : ValidationResult)
    (db : Database State) : Except PyException (Database State) :=
  match db.results runId with
  | some _ => .error duplicateResult
  | none => .ok (((db.setResult runId result).updateRun runId (finishRun result)).updateDocument
      documentId fun document => { document with status := finalStatus result.verdict })

/-! ## The driving section -/

/-- The verdict the machine reached: `ctx.get("verdict") or …`. -/
def machineVerdict (machine : Machine) : Json :=
  Json.orElse (machine.context.get? "verdict".toList)
    (if machine.state.name = "error".toList then verdictError else verdictFail)

/-- `ctx.get("reasons", [])`. -/
def machineReasons (machine : Machine) : Json :=
  (machine.context.get? "reasons".toList).getD (.arr [])

/-- The payload of `EXTRACTION_FAILED`. -/
def failurePayload (result : OCRResult) : Context :=
  Dict.ofList [("error".toList, (result.error.map Json.str).getD .null)]

/-- The context that the machine of a run starts with. -/
def startContext (claimed : Claimed) : Context :=
  Dict.ofList [("document_id".toList, .str claimed.documentId),
    ("owner".toList, .str claimed.owner), ("tenant_id".toList, .str claimed.owner)]

/-- Hold a document of a contract-like type to the core contract fields as well. -/
def holdToCore (documentType : Text) (extraction : Extraction) (result : OCRResult) :
    Extraction :=
  if isContractLike documentType then
    .ofFields extraction.documentType (mergeCoreContractFields extraction.fields result)
      extraction.flags
  else extraction

/-- What is extracted from a parsed document: by classification when there is a language
model, else by the registered extractor. -/
def extractFields (env : Environment) (claimed : Claimed) (result : OCRResult) :
    Except PyException (Text × Extraction) :=
  if env.llmEnabled then do
    let content ← env.classifyReply result.rawText claimed.temperature
    let extraction ← classifyAndCheckFields content
    let documentType := extraction.documentType.getD claimed.docType
    return (documentType, holdToCore documentType extraction result)
  else do
    let extract ← getExtractor claimed.docType env.extractor
    return (claimed.docType, extract result)

/-- An assignment to local variables. -/
def assign (change : Locals → Locals) : Process PUnit :=
  Effect.modify fun world => { world with locals := change world.locals }

/-- The body of the `try` statement, up to the machine's last event.  `plain` carries out what
has nothing to do with the language model, and `extract` extracts from a parsed document. -/
def driveBy {State : Type} (plain : {α : Type} → Process α → Effect State PyException α)
    (extract : OCRResult → Effect State PyException (Text × Extraction)) (env : Environment)
    (storage : Storage) (runId : UUID) (claimed : Claimed) : Effect State PyException Machine := do
  let _ ← plain (OrcaBridge.getOrCreate storage claimed.docType runId (startContext claimed))
  let result ← Effect.lift (env.parseDocument claimed.blobRef)
  if result.ok then
    plain (assign fun locals => { locals with docText := result.rawText })
    let (documentType, extraction) ← extract result
    plain (assign fun locals =>
      { locals with documentType := documentType, fields := extraction.fields })
    let _ ← plain (OrcaBridge.send storage claimed.docType runId .extracted extraction.payload)
    plain (OrcaBridge.send storage claimed.docType runId .evaluate ∅)
  else
    plain (OrcaBridge.send storage claimed.docType runId .extractionFailed
      (failurePayload result))

/-- The body of the `try` statement, for a model that answers by an environment. -/
def drive (env : Environment) (storage : Storage) (runId : UUID) (claimed : Claimed) :
    Process Machine :=
  driveBy (fun action => action) (fun result => Effect.lift (extractFields env claimed result))
    env storage runId claimed

/-- The outcome of a machine, read from its state and its context. -/
def readOutcome (machine : Machine) (locals : Locals) : Locals :=
  { locals with
    finalState := machine.state.name
    verdict := machineVerdict machine
    reasons := machineReasons machine }

/-- The outcome of a driving section that raised. -/
def failOutcome (error : PyException) (locals : Locals) : Locals :=
  { locals with
    verdict := verdictError
    finalState := "error".toList
    reasons := .arr [.str error.message] }

/-- The local variables before the machine is driven. -/
def initialLocals (claimed : Claimed) : Locals where
  verdict := verdictError
  finalState := "error".toList
  reasons := .arr [.str "unknown".toList]
  fields := ∅
  docText := []
  documentType := claimed.docType

/-- A driving section with its handler: whatever it raises becomes the outcome. -/
def decideBy {State : Type} (plain : {α : Type} → Process α → Effect State PyException α)
    (body : Effect State PyException Machine) (claimed : Claimed) :
    Effect State PyException PUnit := do
  plain (assign fun _ => initialLocals claimed)
  Effect.catching
    (do
      let machine ← body
      plain (assign (readOutcome machine)))
    (fun error => plain (assign (failOutcome error)))

/-- The `try` statement that decides the outcome. -/
def decideOutcome (env : Environment) (storage : Storage) (runId : UUID) (claimed : Claimed) :
    Process PUnit :=
  decideBy (fun action => action) (drive env storage runId claimed) claimed

/-! ## The assisted layer -/

/-- What the language model adds to a verdict. -/
structure Assistance where
  analysis : Json
  revisedMarkdown : Option Text
  analysisStatus : Text
  documentFsm : Json

/-- `isinstance(error, BudgetExceeded)`. -/
def isBudgetExceeded (error : PyException) : Bool := error.className = "BudgetExceeded".toList

/-- The record of a failed analysis. -/
def failedAnalysis (error : PyException) (analysis : Json) : Assistance :=
  if isBudgetExceeded error then
    { analysis := analysis, revisedMarkdown := none,
      analysisStatus := "budget_exceeded".toList, documentFsm := .obj [] }
  else
    { analysis := .obj [("error".toList, .str (error.message.take 500))],
      revisedMarkdown := none, analysisStatus := "error".toList, documentFsm := .obj [] }

/-- A document machine that could not be extracted. -/
def failedFsm (report : Text) : Json :=
  .obj [("verified".toList, .bool false), ("mermaid".toList, .null),
    ("report".toList, .str report)]

/-- The machine that the document itself expresses, verified. -/
def extractFsm (env : Environment) (docText : Text) (temperature : ℚ) : Json :=
  match env.extractStateMachine docText temperature >>= env.verifyAndCompile with
  | .ok fsm => fsm
  | .error error =>
      if isBudgetExceeded error then failedFsm "skipped (LLM budget reached)".toList
      else failedFsm ("extraction failed: ".toList ++ error.message)

/-- The analysis, the redline and the document's machine, as far as the calls go. -/
def assist (env : Environment) (temperature : ℚ) (locals : Locals) : Assistance :=
  if locals.docText ≠ [] ∧ locals.verdict ≠ verdictError ∧ env.llmEnabled then
    match env.analyzeContract locals.docText temperature with
    | .error error => failedAnalysis error (.obj [])
    | .ok analysis =>
        match env.reviseContract locals.docText analysis temperature with
        | .error error => failedAnalysis error analysis
        | .ok revised =>
            { analysis := analysis, revisedMarkdown := some revised,
              analysisStatus := "done".toList,
              documentFsm := extractFsm env locals.docText temperature }
  else
    { analysis := .obj [], revisedMarkdown := none,
      analysisStatus := "skipped".toList, documentFsm := .obj [] }

/-! ## The whole run -/

/-- The row of `validation_results` that a run stores. -/
def resultRow (locals : Locals) (reasons : List Json) (assistance : Assistance) :
    ValidationResult where
  verdict := locals.verdict
  finalState := locals.finalState
  reasons := reasons
  extractedFields := locals.fields
  machineContext := Dict.ofList [("document_type".toList, .str locals.documentType)]
  analysis := assistance.analysis
  revisedMarkdown := assistance.revisedMarkdown
  analysisStatus := assistance.analysisStatus
  documentFsm := assistance.documentFsm

/-- The first transaction: read the run and its document and claim them. -/
def claim (storage : Storage) (runId : UUID) : Process (Option Claimed) := do
  let world ← Effect.read
  match world.db.runs runId with
  | none => return none
  | some run =>
      if run.status.Claimable then
        match world.db.documents run.documentId with
        | none => Effect.raise (noAttribute "status".toList)
        | some document =>
            let after := claimRows runId run.documentId world.db
            Process.commit (storage.commitFault after) after
            return some {
              docType := document.docType
              blobRef := document.blobRef
              owner := document.owner
              documentId := run.documentId
              temperature := run.temperature }
      else return none

/-- The last transaction: read both rows again, add the result and finish them. -/
def storeResult (storage : Storage) (runId : UUID) (assistance : Locals → Assistance) :
    Process PUnit := do
  let world ← Effect.read
  match world.db.runs runId with
  | none => Effect.raise (noAttribute "document_id".toList)
  | some run =>
      let reasons ← Effect.lift world.locals.reasons.iter
      match world.db.documents run.documentId with
      | none => Effect.raise (noAttribute "status".toList)
      | some _ =>
          let after ← Effect.lift (finishRows runId run.documentId
            (resultRow world.locals reasons (assistance world.locals)) world.db)
          Process.commit (storage.commitFault after) after

/-- The assisted layer, and the last transaction. -/
def store (env : Environment) (storage : Storage) (runId : UUID) (claimed : Claimed) :
    Process PUnit := storeResult storage runId (assist env claimed.temperature)

/-- `run_validation(run_id)`. -/
def runValidation (env : Environment) (storage : Storage) (runId : UUID) : Process PUnit := do
  match ← claim storage runId with
  | none => return ⟨⟩
  | some claimed =>
      decideOutcome env storage runId claimed
      store env storage runId claimed

end OrcaValidator
