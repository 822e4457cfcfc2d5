import OrcaValidator.Pipeline.Validate

/-!
# The outcome of a driving section

Driving the machine of a run that has none yet ends in one of three ways: something
raised, the document could not be read, or its fields were extracted and the machine
decided on them.  `Decided` says so, with the local variables that each way leaves;
the committed rows of every run follow from it.
-/

namespace OrcaValidator

open Library Effect OrcaBridge

variable [Interpreter]

/-- The variables of the outcome: verdict, final state and reasons. -/
def Locals.outcome (locals : Locals) : Json × Text × Json :=
  (locals.verdict, locals.finalState, locals.reasons)

/-- The outcome of a run that an error ends. -/
def errorOutcome (reason : Json) : Json × Text × Json :=
  (verdictError, "error".toList, .arr [reason])

/-- What the machine decides on a field set: no missing field is a pass, and otherwise
there is one reason for each missing field. -/
def fieldsOutcome (fields : Dict Text Bool) : Json × Text × Json :=
  if fields.falseKeys = [] then (verdictPass, "valid".toList, .arr [])
  else (verdictFail, "invalid".toList,
    .arr (fields.falseKeys.map fun field => missingReason (.str field)))

/-- Something that a driving section needs raises. -/
inductive Raises (env : Environment) (storage : Storage) (claimed : Claimed) : Prop where
  | storage (fails : storage.Fails)
  | unsupported (docType : claimed.docType ∉ machineDefs)
  | parse (error : PyException) (raised : env.parseDocument claimed.blobRef = .error error)
  | extract (result : OCRResult) (error : PyException)
      (parsed : env.parseDocument claimed.blobRef = .ok result) (ok : result.ok = true)
      (raised : extractFields env claimed result = .error error)

/-- The document was parsed and its fields extracted. -/
structure Extracts (env : Environment) (claimed : Claimed) (result : OCRResult)
    (documentType : Text) (extraction : Extraction) : Prop where
  parsed : env.parseDocument claimed.blobRef = .ok result
  ok : result.ok = true
  extracted : extractFields env claimed result = .ok (documentType, extraction)

/-- The local variables after the driving section. -/
inductive Decided (env : Environment) (storage : Storage) (claimed : Claimed)
    (locals : Locals) : Prop where
  | raised (cause : Raises env storage claimed) (reason : Json)
      (outcome : locals.outcome = errorOutcome reason)
  | unreadable (result : OCRResult) (parsed : env.parseDocument claimed.blobRef = .ok result)
      (unreadable : result.ok = false) (reason : Json)
      (outcome : locals.outcome = errorOutcome reason)
  | extracted (result : OCRResult) (documentType : Text) (extraction : Extraction)
      (extracts : Extracts env claimed result documentType extraction)
      (docText : locals.docText = result.rawText)
      (kind : locals.documentType = documentType)
      (fields : locals.fields = extraction.fields)
      (outcome : locals.outcome = fieldsOutcome extraction.fields)

/-! ## The driving section -/

/-- An invariant of a process that the driving section cannot break. -/
structure KeptByDrive (invariant : World → Prop) : Prop extends KeptByBridge invariant where
  locals : ∀ world locals, invariant world → invariant { world with locals := locals }

section Kept

variable {invariant : World → Prop} (kept : KeptByDrive invariant)
include kept

omit [Interpreter] in
theorem preserves_assign (change : Locals → Locals) : Preserves invariant (assign change) :=
  Preserves.modify fun world => kept.locals world _

theorem preserves_drive (env : Environment) (storage : Storage) (runId : UUID)
    (claimed : Claimed) : Preserves invariant (drive env storage runId claimed) := by
  refine Preserves.bind (preserves_getOrCreate storage kept.toKeptByBridge _ _ _) ?_
  intro _
  refine Preserves.bind (Preserves.lift _) ?_
  intro result
  refine Preserves.ite (fun _ => ?_) fun _ => preserves_send storage kept.toKeptByBridge _ _ _ _ _
  refine Preserves.bind (preserves_assign kept _) ?_
  intro _
  refine Preserves.bind (Preserves.lift _) ?_
  intro extracted
  refine Preserves.bind (preserves_assign kept _) ?_
  intro _
  refine Preserves.bind (preserves_send storage kept.toKeptByBridge _ _ _ _ _) ?_
  intro _
  exact preserves_send storage kept.toKeptByBridge _ _ _ _ _

theorem preserves_decideOutcome (env : Environment) (storage : Storage) (runId : UUID)
    (claimed : Claimed) : Preserves invariant (decideOutcome env storage runId claimed) := by
  refine Preserves.bind (preserves_assign kept _) ?_
  intro _
  refine Preserves.catching ?_ fun error => preserves_assign kept _
  exact Preserves.bind (preserves_drive kept env storage runId claimed) fun _ =>
    preserves_assign kept _

end Kept

omit [Interpreter] in
theorem ensures_assign {change : Locals → Locals} {world : World}
    {returned : PUnit → World → Prop} {raised : PyException → World → Prop}
    (holds : returned ⟨⟩ { world with locals := change world.locals }) :
    Ensures (assign change) world returned raised := holds

omit [Interpreter] in
theorem entries_startContext_ne_nil (claimed : Claimed) :
    (startContext claimed).entries ≠ [] := List.cons_ne_nil _ _

/-- The machine that a received one is when it has been sent the extracted fields and
EVALUATE. -/
def Machine.Evaluates (context : Context) (extraction : Extraction) (final : Machine) : Prop :=
  ∃ extracted, (⟨.received, context⟩ : Machine).send .extracted extraction.payload =
      .ok (true, extracted) ∧
    extracted.send .evaluate ∅ = .ok (true, final)

/-- A received machine that is sent the extracted fields decides on them: its state and
its context are the outcome of the field set. -/
theorem Machine.exists_evaluates (context : Context) (extraction : Extraction) :
    ∃ final, Machine.Evaluates context extraction final ∧
      (machineVerdict final, final.state.name, machineReasons final) =
        fieldsOutcome extraction.fields := by
  rcases Machine.send_extracted context extraction.get?_payload_missingCount
    extraction.get?_payload_missingFields with ⟨context, extracted, counted, listed⟩
  have missing := extraction.missing_eq
  have count := extraction.count_eq
  by_cases none : extraction.fields.falseKeys = []
  · rw [count, missing, none] at counted
    rcases Machine.send_evaluate_valid ∅ counted with ⟨final, evaluated, verdict, reasons⟩
    refine ⟨_, ⟨_, extracted, evaluated⟩, ?_⟩
    simp only [fieldsOutcome, none, machineVerdict, machineReasons, verdict, reasons]
    rfl
  · have positive : extraction.missingCount ≠ 0 := by
      rw [count, missing]
      simpa using none
    have nonempty : extraction.missingFields.map Json.str ≠ [] := by
      simpa [missing] using none
    rcases Machine.send_evaluate_invalid ∅ positive nonempty counted listed with
      ⟨final, evaluated, verdict, reasons⟩
    refine ⟨_, ⟨_, extracted, evaluated⟩, ?_⟩
    simp only [fieldsOutcome, none, machineVerdict, machineReasons, verdict, reasons, missing,
      List.map_map]
    rfl

theorem ensures_sends {storage : Storage} {docType entityId : Text} (context : Context)
    {extraction : Extraction} {world : World}
    (registered : world.machines (runKey docType entityId) = some ⟨.received, context⟩) :
    Ensures (do
        let _ ← send storage docType entityId .extracted extraction.payload
        send storage docType entityId .evaluate ∅) world
      (fun machine after => after.locals = world.locals ∧
        (readOutcome machine after.locals).outcome = fieldsOutcome extraction.fields)
      (fun _ _ => storage.Fails) := by
  rcases Machine.exists_evaluates context extraction with
    ⟨final, ⟨middle, extracted, evaluated⟩, outcome⟩
  refine Ensures.bind ((ensures_send registered extracted).weaken ?_ fun _ _ fails => fails)
  rintro _ world ⟨rfl, registered, locals⟩
  refine (ensures_send registered evaluated).weaken ?_ fun _ _ fails => fails
  rintro _ after ⟨rfl, _, kept⟩
  exact ⟨kept.trans locals, outcome⟩

theorem ensures_send_failure {storage : Storage} {docType entityId : Text}
    {context payload : Context} {world : World}
    (registered : world.machines (runKey docType entityId) = some ⟨.received, context⟩) :
    Ensures (send storage docType entityId .extractionFailed payload) world
      (fun machine after => (readOutcome machine after.locals).outcome =
        errorOutcome ((payload.get? "error".toList).getD
          (.str "extraction or processing failed".toList)))
      (fun _ _ => storage.Fails) := by
  rcases Machine.send_extractionFailed context payload with ⟨after, failed, verdict, reasons⟩
  refine (ensures_send registered failed).weaken ?_ fun _ _ fails => fails
  rintro _ _ ⟨rfl, _, _⟩
  simp only [Locals.outcome, readOutcome, machineVerdict, machineReasons, verdict, reasons]
  rfl

theorem ensures_drive (env : Environment) (storage : Storage) {runId : UUID}
    {claimed : Claimed} {world : World}
    (unregistered : world.machines (runKey claimed.docType runId) = none)
    (unsaved : world.db.snapshots (runKey claimed.docType runId) = none) :
    Ensures (drive env storage runId claimed) world
      (fun machine after =>
        Decided env storage claimed (readOutcome machine after.locals))
      (fun _ _ => Raises env storage claimed) := by
  have created := ensures_getOrCreate storage (entries_startContext_ne_nil claimed)
    unregistered unsaved
  refine Ensures.bind (created.weaken ?_ fun _ _ cause => cause.elim .storage .unsupported)
  rintro ⟨state, context⟩ world ⟨_, rfl, registered⟩
  refine Ensures.bind (Ensures.lift (fun result parsed => ?_) fun error raised =>
    .parse error raised)
  by_cases readable : result.ok = true
  · rw [if_pos readable]
    refine Ensures.bind (ensures_assign ?_)
    refine Ensures.bind (Ensures.lift (fun extracted done => ?_) fun error raised =>
      .extract result error parsed readable raised)
    rcases extracted with ⟨documentType, extraction⟩
    refine Ensures.bind (ensures_assign ((ensures_sends context ?_).weaken ?_
      fun _ _ => .storage))
    · exact registered
    · rintro machine after ⟨locals, outcome⟩
      refine .extracted result documentType extraction ⟨parsed, readable, done⟩ ?_ ?_ ?_ outcome
      · simp [readOutcome, locals]
      · simp [readOutcome, locals]
      · simp [readOutcome, locals]
  · rw [if_neg readable]
    refine (ensures_send_failure registered).weaken ?_ fun _ _ => .storage
    intro machine after outcome
    exact .unreadable result parsed (by simpa using readable) _ outcome

/-- Every driving section of a run without machine and snapshot ends in one of the ways of
`Decided`. -/
theorem ensures_decideOutcome (env : Environment) (storage : Storage) {runId : UUID}
    (claimed : Claimed) (world : World)
    (unregistered : world.machines (runKey claimed.docType runId) = none)
    (unsaved : world.db.snapshots (runKey claimed.docType runId) = none) :
    Ensures (decideOutcome env storage runId claimed) world
      (fun _ after => Decided env storage claimed after.locals) (fun _ _ => False) := by
  refine Ensures.bind (Ensures.modify (Ensures.catching (Ensures.bind ?_)))
  refine (ensures_drive env storage ?_ ?_).weaken ?_ ?_
  · exact unregistered
  · exact unsaved
  · intro machine after decided
    exact ensures_assign decided
  · intro error after cause
    exact ensures_assign (.raised cause (.str error.message) rfl)

/-! ## The committed rows -/

omit [Interpreter] in
theorem keptByDrive_sameRows (db : Database ContractState) :
    KeptByDrive fun world => db.SameRows world.db where
  machines := fun _ _ holds => holds
  persistenceCalls := fun _ _ holds => holds
  snapshot := fun _ _ _ holds => ⟨holds.documents, holds.runs, holds.results⟩
  locals := fun _ _ holds => holds

/-- The run is queued, as it is from its submission until its first claim: its document is
there, and there is neither a machine, nor a snapshot, nor a result for it. -/
structure Queued (world : World) (runId : UUID) (run : ValidationRun) (document : Document) :
    Prop where
  runRow : world.db.runs runId = some run
  status : run.status = .queued
  documentRow : world.db.documents run.documentId = some document
  unregistered : world.machines (runKey document.docType runId) = none
  unsaved : world.db.snapshots (runKey document.docType runId) = none
  noResult : world.db.results runId = none

/-- What the call that claims these two rows remembers. -/
def claimedOf (run : ValidationRun) (document : Document) : Claimed where
  docType := document.docType
  blobRef := document.blobRef
  owner := document.owner
  documentId := run.documentId
  temperature := run.temperature

/-- The rows of a run that was finished with a result. -/
structure Finished (runId : UUID) (run : ValidationRun) (document : Document)
    (result : ValidationResult) (db : Database ContractState) : Prop where
  resultRow : db.results runId = some result
  runRow : db.runs runId = some (finishRun result { run with status := .running })
  documentRow : db.documents run.documentId =
    some { document with status := finalStatus result.verdict }

omit [Interpreter] in
/-- Claiming a queued run sets both rows to `running` and changes nothing else. -/
theorem ensures_claim {storage : Storage} {world : World} {runId : UUID}
    {run : ValidationRun} {document : Document} (queued : Queued world runId run document) :
    Ensures (claim storage runId) world
      (fun claimed after => claimed = some (claimedOf run document) ∧
        after = world.committed (claimRows runId run.documentId world.db))
      (fun _ after => ¬storage.Commits ∧ after = world) := by
  have claimable : run.status.Claimable := by
    rw [queued.status]
    decide
  refine Ensures.bind (Ensures.read ?_)
  simp only [queued.runRow, claimable, if_true, queued.documentRow]
  refine Ensures.bind (ensures_commit (fun _ => Ensures.pure ⟨rfl, rfl⟩) ?_)
  exact fun reason fault => ⟨Storage.not_commits_of_fault fault, rfl⟩

omit [Interpreter] in
theorem reasons_of_outcome {locals : Locals} {verdict : Json} {finalState : Text}
    {reasons : List Json} (outcome : locals.outcome = (verdict, finalState, .arr reasons)) :
    locals.verdict = verdict ∧ locals.finalState = finalState ∧
      locals.reasons = .arr reasons := by
  simpa [Locals.outcome] using outcome

theorem Decided.exists_reasons {env : Environment} {storage : Storage} {claimed : Claimed}
    {locals : Locals} (decided : Decided env storage claimed locals) :
    ∃ reasons, locals.reasons = .arr reasons := by
  cases decided with
  | raised cause reason outcome => exact ⟨_, (reasons_of_outcome outcome).2.2⟩
  | unreadable result parsed unreadable reason outcome =>
      exact ⟨_, (reasons_of_outcome outcome).2.2⟩
  | extracted result documentType extraction extracts docText kind fields outcome =>
      unfold fieldsOutcome at outcome
      split at outcome <;> exact ⟨_, (reasons_of_outcome outcome).2.2⟩

/-- The final write finishes the run with a result of its outcome. -/
theorem ensures_store {env : Environment} {storage : Storage} {world : World} {runId : UUID}
    {run : ValidationRun} {document : Document} {reasons : List Json} (claimed : Claimed)
    (runRow : world.db.runs runId = some { run with status := .running })
    (documentRow : world.db.documents run.documentId =
      some { document with status := .running })
    (noResult : world.db.results runId = none)
    (listed : world.locals.reasons = .arr reasons) :
    Ensures (store env storage runId claimed) world
      (fun _ after => ∃ db, after = world.committed db ∧ Finished runId run document
        (resultRow world.locals reasons (assist env claimed.temperature world.locals)) db)
      (fun _ after => ¬storage.Commits ∧ after = world) := by
  refine Ensures.bind (Ensures.read ?_)
  simp only [runRow, listed]
  refine Ensures.bind (Ensures.lift ?_ fun error failed => by cases failed)
  rintro _ ⟨⟩
  simp only [documentRow]
  refine Ensures.bind (Ensures.lift ?_ ?_)
  · intro after finished
    simp only [finishRows, noResult, Except.ok.injEq] at finished
    subst finished
    refine ensures_commit (fun _ => ⟨_, rfl, ?_, ?_, ?_⟩) fun reason fault =>
      ⟨Storage.not_commits_of_fault fault, rfl⟩
    · simp
    · simp [runRow]
    · simp [documentRow]
  · intro error failed
    simp [finishRows, noResult] at failed

theorem Queued.ensures_store {env : Environment} {storage : Storage} {world after : World}
    {runId : UUID} {run : ValidationRun} {document : Document} {reasons : List Json}
    (queued : Queued world runId run document)
    (same : (claimRows runId run.documentId world.db).SameRows after.db)
    (listed : after.locals.reasons = .arr reasons) :
    Ensures (store env storage runId (claimedOf run document)) after
      (fun _ final => ∃ db, final = after.committed db ∧ Finished runId run document
        (resultRow after.locals reasons (assist env run.temperature after.locals)) db)
      (fun _ final => ¬storage.Commits ∧ final = after) := by
  refine OrcaValidator.ensures_store (claimedOf run document) ?_ ?_ ?_ listed
  · rw [← same.runs]
    simp [claimRows, queued.runRow]
  · rw [← same.documents]
    simp [claimRows, queued.documentRow]
  · rw [← same.results]
    exact queued.noResult

/-- A call for a queued run finishes it with what its driving section decides, unless a
commit fails. -/
theorem ensures_runValidation_of {property : Locals → Prop} {env : Environment}
    {storage : Storage} {world : World} {runId : UUID} {run : ValidationRun}
    {document : Document} (queued : Queued world runId run document)
    (decides : Ensures (decideOutcome env storage runId (claimedOf run document))
      (world.committed (claimRows runId run.documentId world.db))
      (fun _ after => property after.locals) (fun _ _ => False))
    (listed : ∀ {locals}, property locals → ∃ reasons, locals.reasons = .arr reasons) :
    Ensures (runValidation env storage runId) world
      (fun _ after => ∃ locals reasons, locals.reasons = .arr reasons ∧ property locals ∧
        Finished runId run document
          (resultRow locals reasons (assist env run.temperature locals)) after.db)
      (fun _ after => ¬storage.Commits ∧ after.db.results runId = none) := by
  refine Ensures.bind ((ensures_claim queued).weaken ?_ ?_)
  · rintro _ _ ⟨rfl, rfl⟩
    let claimedWorld := world.committed (claimRows runId run.documentId world.db)
    have same : claimedWorld.db.SameRows claimedWorld.db := .refl _
    have frame := Ensures.ofPreserves (preserves_decideOutcome
      (keptByDrive_sameRows claimedWorld.db) env storage runId (claimedOf run document)) same
    refine Ensures.bind ((decides.and frame).weaken ?_ fun _ _ absurd => absurd.1.elim)
    rintro _ after ⟨decided, same⟩
    rcases listed decided with ⟨reasons, listed⟩
    refine (queued.ensures_store same listed).weaken ?_ ?_
    · rintro _ _ ⟨db, rfl, finished⟩
      exact ⟨after.locals, reasons, listed, decided, finished⟩
    · rintro _ _ ⟨fails, rfl⟩
      exact ⟨fails, by rw [← same.results]; exact queued.noResult⟩
  · rintro _ _ ⟨fails, rfl⟩
    exact ⟨fails, queued.noResult⟩

/-- A call for a queued run decides its outcome and finishes the run with it, unless a
commit fails. -/
theorem ensures_runValidation (env : Environment) (storage : Storage) {world : World}
    {runId : UUID} {run : ValidationRun} {document : Document}
    (queued : Queued world runId run document) :
    Ensures (runValidation env storage runId) world
      (fun _ after => ∃ locals reasons, locals.reasons = .arr reasons ∧
        Decided env storage (claimedOf run document) locals ∧
        Finished runId run document
          (resultRow locals reasons (assist env run.temperature locals)) after.db)
      (fun _ after => ¬storage.Commits ∧ after.db.results runId = none) :=
  ensures_runValidation_of queued
    (ensures_decideOutcome env storage (claimedOf run document) _ queued.unregistered
      queued.unsaved)
    Decided.exists_reasons

omit [Interpreter] in
/-- What a process ensures when it cannot raise. -/
theorem returns_of_ensures {process : Process PUnit} {world : World} {returned : World → Prop}
    {raised : PyException → World → Prop}
    (ends : Ensures process world (fun _ => returned) raised)
    (never : ∀ error after, ¬raised error after) :
    ∃ after, process world = (.ok ⟨⟩, after) ∧ returned after := by
  unfold Ensures at ends
  rcases ended : process world with ⟨error | value, after⟩ <;> rw [ended] at ends
  · exact absurd ends (never error after)
  · exact ⟨after, rfl, ends⟩

/-- A call whose commits succeed returns, with the run finished. -/
theorem returns_of_commits (env : Environment) {storage : Storage} {world : World}
    {runId : UUID} {run : ValidationRun} {document : Document}
    (queued : Queued world runId run document) (commits : storage.Commits) :
    ∃ after locals reasons, runValidation env storage runId world = (.ok ⟨⟩, after) ∧
      locals.reasons = .arr reasons ∧
      Decided env storage (claimedOf run document) locals ∧
      Finished runId run document
        (resultRow locals reasons (assist env run.temperature locals)) after.db := by
  rcases returns_of_ensures (ensures_runValidation env storage queued)
    (fun _ _ fails => fails.1 commits) with ⟨after, ended, locals, reasons, rest⟩
  exact ⟨after, locals, reasons, ended, rest⟩

end OrcaValidator
