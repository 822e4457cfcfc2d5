import OrcaValidator.Pipeline.Outcome

/-!
# What a stored verdict means

The rows that a finished call leaves are coherent whatever raised on the way.  A pass
says nothing, though, when no field was required, and a field that the classifier
reported absent can be hidden by a later entry of the same name: both are settled
here, with the exact replies for which the verdict can be trusted.
-/

namespace OrcaValidator

open Library Effect OrcaBridge

/-! ## A submitted contract -/

/-- An uploaded contract. -/
def sampleDocument : Document where
  owner := "subject".toList
  docType := "contract".toList
  blobRef := "upload.txt".toList
  status := .queued

/-- Its run, before it is claimed. -/
def sampleRun : ValidationRun where
  documentId := "document".toList
  machineId := "contract_validation".toList
  machineHash := "unknown".toList
  temperature := 3 / 100
  status := .queued
  error := none

/-- The id of this run. -/
def sampleRunId : UUID := "run".toList

/-- A fresh process over a database with one submitted contract. -/
def sampleWorld : World where
  db := {
    documents := fun id => if id = sampleRun.documentId then some sampleDocument else none
    runs := fun id => if id = sampleRunId then some sampleRun else none
    results := fun _ => none
    snapshots := fun _ => none }
  machines := fun _ => none
  locals := ⟨.null, [], .null, ∅, [], []⟩
  persistenceCalls := 0
  history := []

theorem queued_sampleWorld : Queued sampleWorld sampleRunId sampleRun sampleDocument :=
  ⟨rfl, rfl, rfl, rfl, rfl, rfl⟩

/-- An environment in which every document has this text and every classification gets
this reply; the assisted layer is unavailable. -/
def replyEnvironment (text reply : Text) : Environment where
  llmEnabled := true
  extractor := "deterministic".toList
  parseDocument := fun _ => .ok ⟨text, none⟩
  classifyReply := fun _ _ => .ok reply
  analyzeContract := fun _ _ => .error ⟨"HTTPStatusError".toList, "503".toList⟩
  reviseContract := fun _ _ _ => .error ⟨"HTTPStatusError".toList, "503".toList⟩
  extractStateMachine := fun _ _ => .error ⟨"HTTPStatusError".toList, "503".toList⟩
  verifyAndCompile := fun _ => .error ⟨"HTTPStatusError".toList, "503".toList⟩

/-! ## The three shapes of a finished run -/

section Shapes

variable [Interpreter]

/-- One of the three holds, and neither of the others. -/
def ExactlyOne (first second third : Prop) : Prop :=
  (first ∧ ¬second ∧ ¬third) ∨ (¬first ∧ second ∧ ¬third) ∨ (¬first ∧ ¬second ∧ third)

/-- The rows of a run that has passed. -/
structure PassShape (run : ValidationRun) (result : ValidationResult) : Prop where
  status : run.status = .done
  verdict : result.verdict = verdictPass
  finalState : result.finalState = "valid".toList
  reasons : result.reasons = []
  fields : ∀ item ∈ result.extractedFields.entries, item.2 = true

/-- A run that failed: there is one reason for each false field. -/
structure FailShape (run : ValidationRun) (result : ValidationResult) : Prop where
  status : run.status = .done
  verdict : result.verdict = verdictFail
  finalState : result.finalState = "invalid".toList
  someFalse : ∃ field, result.extractedFields.get? field = some false
  reasons : result.reasons = result.extractedFields.falseKeys.map fun field =>
    .str ("missing required field: ".toList ++ field)

/-- A run that could not be decided. -/
structure ErrorShape (run : ValidationRun) (result : ValidationResult) : Prop where
  status : run.status = .failed
  verdict : result.verdict = verdictError
  finalState : result.finalState = "error".toList
  reasons : result.reasons ≠ []
  error : run.error = some (errorText result.reasons)

theorem exactlyOne_shape {run : ValidationRun} {result : ValidationResult}
    (shape : PassShape run result ∨ FailShape run result ∨ ErrorShape run result) :
    ExactlyOne (PassShape run result) (FailShape run result) (ErrorShape run result) := by
  have differ : verdictPass ≠ verdictFail ∧ verdictPass ≠ verdictError ∧
      verdictFail ≠ verdictError := by decide
  rcases shape with passed | failed | undecided
  · refine .inl ⟨passed, fun other => ?_, fun other => ?_⟩
    · exact differ.1 (passed.verdict.symm.trans other.verdict)
    · exact differ.2.1 (passed.verdict.symm.trans other.verdict)
  · refine .inr (.inl ⟨fun other => ?_, failed, fun other => ?_⟩)
    · exact differ.1 (other.verdict.symm.trans failed.verdict)
    · exact differ.2.2 (failed.verdict.symm.trans other.verdict)
  · refine .inr (.inr ⟨fun other => ?_, fun other => ?_, undecided⟩)
    · exact differ.2.1 (other.verdict.symm.trans undecided.verdict)
    · exact differ.2.2 (other.verdict.symm.trans undecided.verdict)

theorem errorShape_of_outcome {run : ValidationRun} {locals : Locals} {reasons : List Json}
    {reason : Json} (assistance : Assistance) (outcome : locals.outcome = errorOutcome reason)
    (listed : locals.reasons = .arr reasons) :
    ErrorShape (finishRun (resultRow locals reasons assistance) run)
      (resultRow locals reasons assistance) := by
  rcases reasons_of_outcome outcome with ⟨verdict, finalState, only⟩
  obtain rfl : reasons = [reason] := by simpa [listed] using only
  constructor
  · simp only [finishRun, resultRow, verdict]
    decide
  · exact verdict
  · exact finalState
  · simp [resultRow]
  · simp [finishRun, resultRow, verdict]

theorem Decided.shape {env : Environment} {storage : Storage} {claimed : Claimed}
    {locals : Locals} {reasons : List Json} (decided : Decided env storage claimed locals)
    (listed : locals.reasons = .arr reasons) (run : ValidationRun) (assistance : Assistance) :
    let result := resultRow locals reasons assistance
    PassShape (finishRun result run) result ∨ FailShape (finishRun result run) result ∨
      ErrorShape (finishRun result run) result := by
  cases decided with
  | raised cause reason outcome =>
      exact .inr (.inr (errorShape_of_outcome assistance outcome listed))
  | unreadable result parsed unreadable reason outcome =>
      exact .inr (.inr (errorShape_of_outcome assistance outcome listed))
  | extracted result documentType extraction extracts docText kind fields outcome =>
      unfold fieldsOutcome at outcome
      by_cases nothing : extraction.fields.falseKeys = []
      · rw [if_pos nothing] at outcome
        rcases reasons_of_outcome outcome with ⟨verdict, finalState, none⟩
        obtain rfl : reasons = [] := by simpa [listed] using none
        refine .inl ⟨?_, verdict, finalState, rfl, ?_⟩
        · simp only [finishRun, resultRow, verdict]
          decide
        · simpa [resultRow, fields] using Dict.falseKeys_eq_nil_iff.mp nothing
      · rw [if_neg nothing] at outcome
        rcases reasons_of_outcome outcome with ⟨verdict, finalState, each⟩
        obtain rfl : reasons = _ := Json.arr.inj (listed.symm.trans each)
        refine .inr (.inl ⟨?_, verdict, finalState, ?_, ?_⟩)
        · simp only [finishRun, resultRow, verdict]
          decide
        · rcases List.exists_mem_of_ne_nil _ nothing with ⟨field, missing⟩
          exact ⟨field, by simpa [resultRow, fields] using Dict.mem_falseKeys.mp missing⟩
        · simp [resultRow, fields, missingReason, Interpreter.str]

/-- A call for a queued run whose commits succeed leaves the run in exactly one of the
three shapes, with its document in the same status. -/
theorem coherent_of_runValidation {env : Environment} {storage : Storage} {world : World}
    {runId : UUID} {run : ValidationRun} {document : Document}
    (queued : Queued world runId run document) (commits : storage.Commits) :
    ∃ after finished closed result,
      runValidation env storage runId world = (.ok ⟨⟩, after) ∧
      after.db.runs runId = some finished ∧
      after.db.documents run.documentId = some closed ∧
      after.db.results runId = some result ∧
      ExactlyOne (PassShape finished result) (FailShape finished result)
        (ErrorShape finished result) ∧
      closed.status = finished.status := by
  rcases returns_of_commits env queued commits with
    ⟨after, locals, reasons, ended, listed, decided, rows⟩
  exact ⟨after, _, _, _, ended, rows.runRow, rows.documentRow, rows.resultRow,
    exactlyOne_shape (decided.shape listed _ _), rfl⟩

end Shapes

section

attribute [local instance] Interpreter.ascii

theorem coherent_sampleRun :
    ∃ after finished closed result,
      runValidation (replyEnvironment "A lease.".toList "no answer".toList) Storage.reliable
        sampleRunId sampleWorld = (.ok ⟨⟩, after) ∧
      after.db.runs sampleRunId = some finished ∧
      after.db.documents sampleRun.documentId = some closed ∧
      after.db.results sampleRunId = some result ∧
      ExactlyOne (PassShape finished result) (FailShape finished result)
        (ErrorShape finished result) ∧
      closed.status = finished.status :=
  coherent_of_runValidation queued_sampleWorld Storage.commits_reliable

end

/-! ## Passes on an empty field set -/

section Passes

variable [Interpreter]

theorem decided_of_result {env : Environment} {storage : Storage} {world : World}
    {runId : UUID} {run : ValidationRun} {document : Document} {result : ValidationResult}
    (queued : Queued world runId run document)
    (stored : (runValidation env storage runId world).2.db.results runId = some result) :
    ∃ locals reasons, locals.reasons = .arr reasons ∧
      Decided env storage (claimedOf run document) locals ∧
      result = resultRow locals reasons (assist env run.temperature locals) := by
  have ends := ensures_runValidation env storage queued
  unfold Ensures at ends
  rcases ended : runValidation env storage runId world with ⟨value | value, after⟩ <;>
    rw [ended] at ends stored
  · exact absurd stored (by simp [ends.2])
  · rcases ends with ⟨locals, reasons, listed, decided, rows⟩
    exact ⟨locals, reasons, listed, decided, Option.some.inj (stored.symm.trans rows.resultRow)⟩

/-- When nothing it needs raises, a call for a queued run stores what the machine decides
on the extracted fields. -/
theorem result_of_extracts {env : Environment} {storage : Storage} {world : World}
    {runId : UUID} {run : ValidationRun} {document : Document} {parsed : OCRResult}
    {documentType : Text} {extraction : Extraction}
    (queued : Queued world runId run document) (commits : storage.Commits)
    (quiet : ¬storage.Faulty) (supported : document.docType ∈ machineDefs)
    (extracts : Extracts env (claimedOf run document) parsed documentType extraction) :
    ∃ result, (runValidation env storage runId world).2.db.results runId = some result ∧
      (result.verdict, result.finalState, Json.arr result.reasons) =
        fieldsOutcome extraction.fields ∧
      result.extractedFields = extraction.fields := by
  rcases returns_of_commits env queued commits with
    ⟨after, locals, reasons, ended, listed, decided, rows⟩
  refine ⟨_, by rw [ended]; exact rows.resultRow, ?_⟩
  have parse := extracts.parsed
  cases decided with
  | raised cause reason outcome =>
      cases cause with
      | storage fails => exact absurd fails (Storage.not_fails commits quiet)
      | unsupported docType => exact absurd supported docType
      | parse error raised => simp [parse] at raised
      | extract other error parsed' ok raised =>
          obtain rfl := Except.ok.inj (parse.symm.trans parsed')
          simp [extracts.extracted] at raised
  | unreadable other parsed' unreadable reason outcome =>
      obtain rfl := Except.ok.inj (parse.symm.trans parsed')
      simp [extracts.ok] at unreadable
  | extracted other documentType' extraction' extracts' docText kind fields outcome =>
      obtain rfl := Except.ok.inj (parse.symm.trans extracts'.parsed)
      obtain ⟨rfl, rfl⟩ : documentType = documentType' ∧ extraction = extraction' := by
        simpa using extracts.extracted.symm.trans extracts'.extracted
      refine ⟨?_, fields⟩
      rw [← outcome]
      simp [Locals.outcome, resultRow, listed]

/-- A pass is earned when some field was checked and every one was found. -/
def PassEarned (result : ValidationResult) : Prop :=
  result.verdict = verdictPass → result.extractedFields.entries ≠ [] ∧
    ∀ item ∈ result.extractedFields.entries, item.2 = true

/-- Every pass that a call for the run stores is earned, whatever fails on the way. -/
def PassesAreEarned (env : Environment) (world : World) (runId : UUID) : Prop :=
  ∀ storage result,
    (runValidation env storage runId world).2.db.results runId = some result →
      PassEarned result

theorem isContractLike_document : isContractLike "document".toList = false := by
  have lowered : Interpreter.lower "document".toList = "document".toList := by
    rw [Interpreter.lower_ascii _ (Text.forall_of_all (by decide))]
    decide
  unfold isContractLike
  rw [lowered]
  decide

theorem holdToCore_empty {kind : Text} {extraction : Extraction} {result : OCRResult} :
    (holdToCore kind extraction result).fields.entries = [] ↔
      extraction.fields.entries = [] ∧ isContractLike kind = false := by
  unfold holdToCore
  cases isContractLike kind with
  | false => simp
  | true =>
      simp only [if_true, Extraction.ofFields, Bool.true_eq_false, and_false, iff_false]
      intro empty
      have required : "parties".toList ∈ contractRequired := by decide
      have core := isSome_get?_mergeCoreContractFields extraction.fields result required
      simp [Dict.get?, empty, Dict.find] at core

/-- Which replies leave no field to check, the core contract fields included. -/
theorem requiresNothing_iff {content : Text} (docType : Text) (result : OCRResult) :
    (∃ extraction, classifyAndCheckFields content = .ok extraction ∧
      (holdToCore (extraction.documentType.getD docType) extraction result).fields.entries =
        []) ↔ RequiresNothing content := by
  simp only [holdToCore_empty, RequiresNothing]
  cases read : Json.loads content with
  | none =>
      have plain : classifyAndCheckFields content =
          .ok (.ofFields (some "document".toList) ∅) := by
        simp only [classifyAndCheckFields, read]
      simp only [plain, true_or, iff_true]
      exact ⟨_, rfl, rfl, isContractLike_document⟩
  | some data =>
      simp only [reduceCtorEq, Option.some.injEq, false_or]
      by_cases object : ∃ members, data = .obj members
      · rcases object with ⟨members, rfl⟩
        rw [classify_obj read]
        constructor
        · rintro ⟨extraction, classified, empty, plain⟩
          cases fields : requiredFields (Dict.find "required_fields".toList members) with
          | error error =>
              rw [fields] at classified
              cases classified
          | ok found =>
              rw [fields] at classified
              cases classified
              exact ⟨members, rfl, requiredFields_empty.mp ⟨found, fields, empty⟩, plain⟩
        · rintro ⟨_, ⟨⟩, nothing, plain⟩
          rcases requiredFields_empty.mpr nothing with ⟨found, fields, empty⟩
          rw [fields]
          exact ⟨.ofFields (some (replyKind (Dict.find "document_type".toList members))) found,
            rfl, empty, plain⟩
      · rcases classify_not_obj read fun members same => object ⟨members, same⟩ with
          ⟨error, classified⟩
        refine iff_of_false ?_ ?_
        · rintro ⟨extraction, succeeded, _⟩
          simp [classified] at succeeded
        · rintro ⟨members, same, _⟩
          exact object ⟨members, same⟩

theorem extractFields_reply {env : Environment} (claimed : Claimed) {result : OCRResult}
    {content : Text} (llm : env.llmEnabled = true)
    (replied : env.classifyReply result.rawText claimed.temperature = .ok content) :
    extractFields env claimed result = (classifyAndCheckFields content).map fun extraction =>
      (extraction.documentType.getD claimed.docType,
        holdToCore (extraction.documentType.getD claimed.docType) extraction result) := by
  simp only [extractFields, llm, if_true, replied]
  change (classifyAndCheckFields content >>= _) = _
  cases classifyAndCheckFields content <;> rfl

/-- Which documents reach the machine with no field to check. -/
theorem extractFields_empty {env : Environment} (claimed : Claimed) {result : OCRResult} :
    (∃ kind extraction, extractFields env claimed result = .ok (kind, extraction) ∧
      extraction.fields.entries = []) ↔
    env.llmEnabled = true ∧ ∃ content,
      env.classifyReply result.rawText claimed.temperature = .ok content ∧
      RequiresNothing content := by
  cases llm : env.llmEnabled with
  | false =>
      refine iff_of_false ?_ (by simp)
      rintro ⟨kind, extraction, extracted, empty⟩
      simp only [extractFields, llm, Bool.false_eq_true, if_false] at extracted
      unfold getExtractor at extracted
      split at extracted
      · cases extracted
      · split at extracted
        · cases extracted
        · cases extracted
          cases empty
  | true =>
      cases replied : env.classifyReply result.rawText claimed.temperature with
      | error error =>
          refine iff_of_false ?_ (by simp)
          rintro ⟨kind, extraction, extracted, _⟩
          simp only [extractFields, llm, if_true, replied] at extracted
          cases extracted
      | ok content =>
          simp only [extractFields_reply claimed llm replied, true_and, Except.ok.injEq,
            exists_eq_left']
          rw [← requiresNothing_iff claimed.docType result]
          cases classifyAndCheckFields content with
          | error error => simp [Except.map]
          | ok found => simp [Except.map]

/-- Passes are earned unless the model is asked about a readable document and its reply
requires nothing. -/
theorem passesAreEarned_iff {env : Environment} {world : World} {runId : UUID}
    {run : ValidationRun} {document : Document} (queued : Queued world runId run document)
    (supported : document.docType ∈ machineDefs) :
    PassesAreEarned env world runId ↔
      ¬(env.llmEnabled = true ∧ ∃ parsed content,
        env.parseDocument document.blobRef = .ok parsed ∧ parsed.ok = true ∧
        env.classifyReply parsed.rawText run.temperature = .ok content ∧
        RequiresNothing content) := by
  constructor
  · rintro earned ⟨llm, parsed, content, read, ok, replied, nothing⟩
    rcases (extractFields_empty (claimedOf run document)).mpr
      ⟨llm, content, replied, nothing⟩ with ⟨kind, extraction, extracted, empty⟩
    rcases result_of_extracts queued Storage.commits_reliable Storage.not_faulty_reliable
      supported ⟨read, ok, extracted⟩ with ⟨result, stored, outcome, fields⟩
    have pass : result.verdict = verdictPass := by
      have none : extraction.fields.falseKeys = [] := by simp [Dict.falseKeys, empty]
      rw [fieldsOutcome, if_pos none] at outcome
      exact (Prod.mk.inj outcome).1
    exact (earned _ _ stored pass).1 (by rw [fields, empty])
  · intro careful storage result stored pass
    rcases decided_of_result queued stored with ⟨locals, reasons, listed, decided, rfl⟩
    cases decided with
    | raised cause reason outcome =>
        exact absurd ((reasons_of_outcome outcome).1.symm.trans pass) (by decide)
    | unreadable other parsed unreadable reason outcome =>
        exact absurd ((reasons_of_outcome outcome).1.symm.trans pass) (by decide)
    | extracted parsed documentType extraction extracts docText kind fields outcome =>
        have same : (resultRow locals reasons (assist env run.temperature locals)).extractedFields =
            extraction.fields := fields
        rw [same]
        refine ⟨fun empty => careful ?_, ?_⟩
        · rcases (extractFields_empty (claimedOf run document)).mp
            ⟨_, _, extracts.extracted, empty⟩ with
            ⟨llm, content, replied, nothing⟩
          exact ⟨llm, parsed, content, extracts.parsed, extracts.ok, replied, nothing⟩
        · by_cases none : extraction.fields.falseKeys = []
          · exact Dict.falseKeys_eq_nil_iff.mp none
          · rw [fieldsOutcome, if_neg none] at outcome
            exact absurd ((Prod.mk.inj outcome).1.symm.trans pass) (by decide)

end Passes

section

attribute [local instance] Interpreter.ascii

/-- A model that declines to answer makes a blank page pass. -/
theorem not_passesAreEarned_refusal :
    ¬PassesAreEarned (replyEnvironment "A blank page.".toList "I cannot do that.".toList)
      sampleWorld sampleRunId := by
  intro earned
  have stored : ((runValidation
      (replyEnvironment "A blank page.".toList "I cannot do that.".toList)
      Storage.reliable sampleRunId sampleWorld).2.db.results sampleRunId).map
        (fun result => (result.verdict, result.extractedFields.entries)) =
      some (verdictPass, []) := by decide +kernel
  rcases Option.map_eq_some_iff.mp stored with ⟨result, row, columns⟩
  obtain ⟨verdict, fields⟩ := Prod.mk.inj columns
  exact (earned _ _ row verdict).1 fields

theorem passesAreEarned_sampleRun :
    PassesAreEarned (replyEnvironment "A lease.".toList "no answer".toList) sampleWorld
        sampleRunId ↔
      ¬((replyEnvironment "A lease.".toList "no answer".toList).llmEnabled = true ∧
        ∃ parsed content,
          (replyEnvironment "A lease.".toList "no answer".toList).parseDocument
            sampleDocument.blobRef = .ok parsed ∧ parsed.ok = true ∧
          (replyEnvironment "A lease.".toList "no answer".toList).classifyReply
            parsed.rawText sampleRun.temperature = .ok content ∧
          RequiresNothing content) :=
  passesAreEarned_iff queued_sampleWorld (by decide)

end

/-! ## Absent fields -/

section Absent

variable [Interpreter]

/-- Every named entry that was reported absent fails the run and is among its reasons. -/
def AbsentReported (entries : List (Text × Bool)) (result : ValidationResult) : Prop :=
  ∀ name, (name, false) ∈ entries → Text.strip name ≠ [] →
    result.verdict = verdictFail ∧
      Json.str ("missing required field: ".toList ++ (Text.strip name).take 64) ∈
        result.reasons

/-- The last entry with the key of `name` was reported absent. -/
def LastAbsent (entries : List (Text × Bool)) (name : Text) : Prop :=
  ∃ before last after, entries = before ++ (last, false) :: after ∧
    fieldKey last = fieldKey name ∧ ∀ entry ∈ after, fieldKey entry.1 ≠ fieldKey name

theorem get?_holdToCore {kind : Text} {extraction : Extraction} {result : OCRResult}
    {key : Text} {value : Bool} (known : extraction.fields.get? key = some value) :
    (holdToCore kind extraction result).fields.get? key = some value := by
  unfold holdToCore
  split
  · exact get?_mergeCoreContractFields result known
  · exact known

/-- In the outcome of a field set, a field is a failing reason exactly when it is false. -/
theorem fieldsOutcome_reports {fields : Dict Text Bool} {result : ValidationResult}
    (outcome : (result.verdict, result.finalState, Json.arr result.reasons) =
      fieldsOutcome fields) (key : Text) :
    (result.verdict = verdictFail ∧
      Json.str ("missing required field: ".toList ++ key) ∈ result.reasons) ↔
      fields.get? key = some false := by
  rw [← Dict.mem_falseKeys]
  unfold fieldsOutcome at outcome
  by_cases none : fields.falseKeys = []
  · rw [if_pos none] at outcome
    obtain ⟨verdict, _⟩ := Prod.mk.inj outcome
    rw [none]
    exact iff_of_false (fun failed => absurd (verdict.symm.trans failed.1) (by decide))
      List.not_mem_nil
  · rw [if_neg none] at outcome
    obtain ⟨verdict, rest⟩ := Prod.mk.inj outcome
    obtain ⟨_, reasons⟩ := Prod.mk.inj rest
    rw [Json.arr.inj reasons]
    simp [verdict, missingReason, Interpreter.str]

/-- For a reply of the requested shape, every absent field is reported exactly when none is
followed by a present one under its key that is the last of that key. -/
theorem absentReported_iff {env : Environment} {storage : Storage} {world : World}
    {runId : UUID} {run : ValidationRun} {document : Document} {parsed : OCRResult}
    {content : Text} {kind : Json} {entries : List (Text × Bool)}
    (queued : Queued world runId run document) (supported : document.docType ∈ machineDefs)
    (commits : storage.Commits) (quiet : ¬storage.Faulty) (llm : env.llmEnabled = true)
    (parse : env.parseDocument document.blobRef = .ok parsed) (ok : parsed.ok = true)
    (replied : env.classifyReply parsed.rawText run.temperature = .ok content)
    (proper : ProperReply content kind entries) :
    ∃ result, (runValidation env storage runId world).2.db.results runId = some result ∧
      (AbsentReported entries result ↔
        ∀ name, (name, false) ∈ entries → Text.strip name ≠ [] → LastAbsent entries name) := by
  have extracted : extractFields env (claimedOf run document) parsed =
      .ok (replyKind (some kind), holdToCore (replyKind (some kind))
        (.ofFields (some (replyKind (some kind))) (Dict.ofList (keyedEntries entries)))
        parsed) := by
    rw [extractFields_reply (claimedOf run document) llm replied,
      classify_proper proper]
    rfl
  rcases result_of_extracts queued commits quiet supported ⟨parse, ok, extracted⟩ with
    ⟨result, stored, outcome, _⟩
  refine ⟨result, stored, ?_⟩
  have entry (name : Text) (absent : (name, false) ∈ entries) (named : Text.strip name ≠ []) :
      (result.verdict = verdictFail ∧
        Json.str ("missing required field: ".toList ++ (Text.strip name).take 64) ∈
          result.reasons) ↔ LastAbsent entries name := by
    have key := fieldKey_ne_nil named
    rcases exists_get?_keyedEntries absent key with ⟨value, known⟩
    have held : ∀ value : Bool,
        (Dict.ofList (keyedEntries entries)).get? (fieldKey name) = some value →
        (holdToCore (replyKind (some kind)) (.ofFields (some (replyKind (some kind)))
          (Dict.ofList (keyedEntries entries))) parsed).fields.get? (fieldKey name) =
            some value := fun _ known => get?_holdToCore known
    rw [fieldsOutcome_reports outcome, LastAbsent, ← get?_keyedEntries key]
    change _ = some false ↔ _
    rw [show (Text.strip name).take 64 = fieldKey name from rfl, held value known, known]
  constructor
  · exact fun reported name absent named =>
      (entry name absent named).mp (reported name absent named)
  · exact fun last name absent named => (entry name absent named).mpr (last name absent named)

end Absent

section

attribute [local instance] Interpreter.ascii

/-- The signature is reported absent once, and then present under the same name. -/
def maskingReply : Text :=
  ("\x7b\"document_type\": \"invoice\", \"required_fields\": [" ++
    "\x7b\"name\": \"signature\", \"present\": false\x7d, " ++
    "\x7b\"name\": \"signature \", \"present\": true\x7d]\x7d").toList

/-- A signature that is absent, and one with a trailing blank that is present. -/
def maskingEntries : List (Text × Bool) :=
  [("signature".toList, false), ("signature ".toList, true)]

theorem properReply_masking :
    ProperReply maskingReply (.str "invoice".toList) maskingEntries := by
  refine ⟨[("document_type".toList, .str "invoice".toList),
    ("required_fields".toList, .arr
      [.obj [("name".toList, .str "signature".toList), ("present".toList, .bool false)],
        .obj [("name".toList, .str "signature ".toList), ("present".toList, .bool true)]])],
    [.obj [("name".toList, .str "signature".toList), ("present".toList, .bool false)],
      .obj [("name".toList, .str "signature ".toList), ("present".toList, .bool true)]],
    by decide +kernel, rfl, rfl, ?_⟩
  exact .cons ⟨_, rfl, rfl, rfl⟩ (.cons ⟨_, rfl, rfl, rfl⟩ .nil)

/-- The absent signature is lost: the run passes. -/
theorem absent_signature_lost :
    ∃ result, (runValidation (replyEnvironment "An invoice.".toList maskingReply)
        Storage.reliable sampleRunId sampleWorld).2.db.results sampleRunId = some result ∧
      ProperReply maskingReply (.str "invoice".toList) maskingEntries ∧
      ¬AbsentReported maskingEntries result := by
  have stored : ((runValidation (replyEnvironment "An invoice.".toList maskingReply)
      Storage.reliable sampleRunId sampleWorld).2.db.results sampleRunId).map
        (fun result => result.verdict) = some verdictPass := by decide +kernel
  rcases Option.map_eq_some_iff.mp stored with ⟨result, row, verdict⟩
  refine ⟨result, row, properReply_masking, ?_⟩
  intro reported
  have failed := (reported "signature".toList (by decide) (by decide)).1
  exact absurd (verdict.symm.trans failed) (by decide)

theorem absentReported_masking :
    ∃ result, (runValidation (replyEnvironment "An invoice.".toList maskingReply)
        Storage.reliable sampleRunId sampleWorld).2.db.results sampleRunId = some result ∧
      (AbsentReported maskingEntries result ↔
        ∀ name, (name, false) ∈ maskingEntries → Text.strip name ≠ [] →
          LastAbsent maskingEntries name) :=
  absentReported_iff queued_sampleWorld (by decide) Storage.commits_reliable
    Storage.not_faulty_reliable rfl rfl (by decide) rfl properReply_masking

end

end OrcaValidator
