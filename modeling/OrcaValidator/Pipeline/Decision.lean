import OrcaValidator.Ocr.Pages
import OrcaValidator.Pipeline.Verdict

/-!
# What a run decides

As long as the storage works, what `run_validation` stores as verdict, final state and reasons
is a function of what the parser and the extractor answer: the machine, its events, its
snapshots and the exception handler add nothing to it.

For a document of pages and the deterministic extractor the function can be read page by page.
-/

namespace OrcaValidator

open Library Effect OrcaBridge

section Decision

variable [Interpreter]

/-- The reason that the machine gives for a document that cannot be read. -/
def unreadableReason (result : OCRResult) : Json := (result.error.map Json.str).getD .null

/-- The locals with a verdict, a final state and reasons. -/
def Locals.withOutcome (locals : Locals) (outcome : Json × Text × Json) : Locals :=
  { locals with verdict := outcome.1, finalState := outcome.2.1, reasons := outcome.2.2 }

/-- The variables once the fields of a document are extracted, or the extraction has raised. -/
def extractedLocals (env : Environment) (claimed : Claimed) (result : OCRResult) : Locals :=
  let locals := { initialLocals claimed with docText := result.rawText }
  match extractFields env claimed result with
  | .error error => locals.withOutcome (errorOutcome (.str error.message))
  | .ok (documentType, extraction) =>
      { locals with documentType := documentType, fields := extraction.fields }.withOutcome
        (fieldsOutcome extraction.fields)

/-- The variables that decide on a run, as a function of what the run consults. -/
def decidedLocals (env : Environment) (claimed : Claimed) : Locals :=
  match env.parseDocument claimed.blobRef with
  | .error error => (initialLocals claimed).withOutcome (errorOutcome (.str error.message))
  | .ok result =>
      if result.ok then extractedLocals env claimed result
      else (initialLocals claimed).withOutcome (errorOutcome (unreadableReason result))

/-- The items of a list. -/
def listed : Json → List Json
  | .arr items => items
  | _ => []

/-- The row that is stored for a run. -/
def decidedRow (env : Environment) (claimed : Claimed) : ValidationResult :=
  let locals := decidedLocals env claimed
  resultRow locals (listed locals.reasons) (assist env claimed.temperature locals)

variable {env : Environment} {storage : Storage} {claimed : Claimed}

omit [Interpreter] in
theorem get?_failurePayload (result : OCRResult) :
    (failurePayload result).get? "error".toList = some (unreadableReason result) := by
  simp only [failurePayload, Dict.ofList, Dict.get?_update]
  rfl

theorem exists_reasons_decided (env : Environment) (claimed : Claimed) :
    ∃ reasons, (decidedLocals env claimed).reasons = .arr reasons := by
  unfold decidedLocals extractedLocals fieldsOutcome
  split
  · exact ⟨_, rfl⟩
  · split
    · dsimp only
      split
      · exact ⟨_, rfl⟩
      · split <;> exact ⟨_, rfl⟩
    · exact ⟨_, rfl⟩

/-! ## The machine decides as the function does -/

/-- A machine that is sent the failure of a document leaves the variables as they are, up to
the outcome. -/
theorem ensures_failure {docType entityId : Text} {context : Context} (result : OCRResult)
    {world : World}
    (registered : world.machines (runKey docType entityId) = some ⟨.received, context⟩) :
    Ensures (send storage docType entityId .extractionFailed (failurePayload result)) world
      (fun machine after => readOutcome machine after.locals =
        world.locals.withOutcome (errorOutcome (unreadableReason result)))
      (fun _ _ => storage.Fails) := by
  have frame := Ensures.ofPreserves (preserves_send storage
    (keptByBridge_locals world.locals) docType entityId .extractionFailed
    (failurePayload result) ∅) rfl
  refine ((ensures_send_failure registered).and frame).weaken ?_ fun _ _ fails => fails.1
  rintro machine after ⟨outcome, same⟩
  rw [get?_failurePayload] at outcome
  change after.locals.withOutcome (readOutcome machine after.locals).outcome = _
  rw [outcome, same]
  rfl

/-- The driving section reads off the machine what the function says, or raises it. -/
theorem ensures_drive_decided (works : ¬storage.Fails)
    (supported : claimed.docType ∈ machineDefs) {runId : UUID} {world : World}
    (fresh : world.locals = initialLocals claimed)
    (unregistered : world.machines (runKey claimed.docType runId) = none)
    (unsaved : world.db.snapshots (runKey claimed.docType runId) = none) :
    Ensures (drive env storage runId claimed) world
      (fun machine after => readOutcome machine after.locals = decidedLocals env claimed)
      (fun error after => failOutcome error after.locals = decidedLocals env claimed) := by
  have created := (ensures_getOrCreate storage (entries_startContext_ne_nil claimed)
    unregistered unsaved).and (Ensures.ofPreserves (preserves_getOrCreate storage
      (keptByBridge_locals (initialLocals claimed)) _ _ _) fresh)
  refine Ensures.bind (created.weaken ?_ ?_)
  · rintro ⟨state, context⟩ world ⟨⟨_, rfl, registered⟩, locals⟩
    refine Ensures.bind (Ensures.lift (fun result parsed => ?_) fun error raised => ?_)
    · by_cases readable : result.ok = true
      · have decided : decidedLocals env claimed = extractedLocals env claimed result := by
          rw [decidedLocals, parsed]
          exact if_pos readable
        rw [if_pos readable, decided]
        refine Ensures.bind (ensures_assign ?_)
        refine Ensures.bind (Ensures.lift (fun extracted done => ?_) fun error raised => ?_)
        · rcases extracted with ⟨documentType, extraction⟩
          refine Ensures.bind (ensures_assign ((ensures_sends context ?_).weaken ?_ ?_))
          · exact registered
          · rintro machine after ⟨same, outcome⟩
            change after.locals.withOutcome (readOutcome machine after.locals).outcome = _
            rw [outcome, same, extractedLocals, done, locals]
          · exact fun error after fails => absurd fails works
        · rw [extractedLocals, raised, locals]
          rfl
      · have decided : decidedLocals env claimed = (initialLocals claimed).withOutcome
            (errorOutcome (unreadableReason result)) := by
          rw [decidedLocals, parsed]
          exact if_neg readable
        rw [if_neg readable, decided, ← locals]
        exact (ensures_failure result registered).weaken (fun _ _ outcome => outcome)
          fun _ _ fails => absurd fails works
    · rw [decidedLocals, raised, locals]
      rfl
  · rintro error after ⟨fails | unsupported, _⟩
    · exact absurd fails works
    · exact absurd supported unsupported

theorem ensures_decideOutcome_decided (env : Environment) (works : ¬storage.Fails)
    (supported : claimed.docType ∈ machineDefs) {runId : UUID} {world : World}
    (unregistered : world.machines (runKey claimed.docType runId) = none)
    (unsaved : world.db.snapshots (runKey claimed.docType runId) = none) :
    Ensures (decideOutcome env storage runId claimed) world
      (fun _ after => after.locals = decidedLocals env claimed) (fun _ _ => False) := by
  refine Ensures.bind (Ensures.modify (Ensures.catching (Ensures.bind ?_)))
  refine (ensures_drive_decided works supported ?_ ?_ ?_).weaken ?_ ?_
  · rfl
  · exact unregistered
  · exact unsaved
  · exact fun machine after decided => ensures_assign decided
  · exact fun error after decided => ensures_assign decided

/-- As long as the storage works, a call for a queued run finishes it with the row that the
function says. -/
theorem finished_of_works (env : Environment) {world : World} {runId : UUID}
    {run : ValidationRun} {document : Document} (queued : Queued world runId run document)
    (commits : storage.Commits) (quiet : ¬storage.Faulty)
    (supported : document.docType ∈ machineDefs) :
    ∃ after, runValidation env storage runId world = (.ok ⟨⟩, after) ∧
      Finished runId run document (decidedRow env (claimedOf run document)) after.db := by
  have decides := ensures_decideOutcome_decided env (Storage.not_fails commits quiet)
    (show (claimedOf run document).docType ∈ machineDefs from supported)
    (show (world.committed (claimRows runId run.documentId world.db)).machines _ = none from
      queued.unregistered) queued.unsaved
  have ends := @ensures_runValidation_of _ (· = decidedLocals env (claimedOf run document)) env
    storage world runId run document queued decides
    (by rintro _ rfl; exact exists_reasons_decided env _)
  rcases returns_of_ensures ends fun _ _ fails => fails.1 commits with
    ⟨after, ended, _, reasons, same, rfl, finished⟩
  refine ⟨after, ended, ?_⟩
  have items : listed (decidedLocals env (claimedOf run document)).reasons = reasons := by
    rw [same, listed]
  rw [decidedRow, items]
  exact finished

theorem outcome_decidedRow (env : Environment) (claimed : Claimed) :
    ((decidedRow env claimed).verdict, (decidedRow env claimed).finalState,
      Json.arr (decidedRow env claimed).reasons) = (decidedLocals env claimed).outcome := by
  rcases exists_reasons_decided env claimed with ⟨reasons, same⟩
  simp only [decidedRow, resultRow, Locals.outcome, same, listed]

end Decision

section

attribute [local instance] Interpreter.ascii

theorem finished_of_works_sampleRun : ∃ after,
    runValidation (replyEnvironment "A lease.".toList "no answer".toList) Storage.reliable
        sampleRunId sampleWorld = (.ok ⟨⟩, after) ∧
      Finished sampleRunId sampleRun sampleDocument
        (decidedRow (replyEnvironment "A lease.".toList "no answer".toList)
          (claimedOf sampleRun sampleDocument)) after.db :=
  finished_of_works _ queued_sampleWorld Storage.commits_reliable Storage.not_faulty_reliable
    (by decide)

end

/-! ## Page by page -/

section Pages

open DeterministicContractExtractor Regex

variable [Interpreter]

/-- PyMuPDF opens the file as these pages, each of which can be read. -/
def OpensAs (readers : Readers) (path : Text) (bytes : Bytes) (pages : List FitzPage) : Prop :=
  OpenedByFitz (documentExtension path) ∧ ∃ openDocument, readers.fitz = .ok openDocument ∧
    openDocument bytes (documentExtension path) = .ok (pages.map .ok)

instance (text field : Text) : Decidable (Reports text field) :=
  inferInstanceAs (Decidable (_ = _))

/-- The required fields that no page reports. -/
def missingOnPages (texts : List Text) : List Text :=
  contractRequired.filter fun field => ¬∃ text ∈ texts, Reports text field

/-- `f"document exceeds the {MAX_PAGES}-page limit ({doc.page_count} pages)"`. -/
def tooManyPages (count : ℕ) : Text :=
  "document exceeds the ".toList ++ (toString maxPages).toList ++ "-page limit (".toList ++
    (toString count).toList ++ " pages)".toList

/-- What is decided on the texts of the pages. -/
def pagesOutcome (texts : List Text) : Json × Text × Json :=
  if maxPages < texts.length then errorOutcome (.str (tooManyPages texts.length))
  else if ∀ text ∈ texts, Text.strip text = [] then
    errorOutcome (.str "no text could be extracted (embedded or OCR)".toList)
  else if missingOnPages texts = [] then (verdictPass, "valid".toList, .arr [])
  else (verdictFail, "invalid".toList,
    .arr ((missingOnPages texts).map fun field => missingReason (.str field)))

omit [Interpreter] in
theorem isSpace_intercalate_iff {texts : List Text} :
    (∀ char ∈ List.intercalate "\n\n".toList texts, Text.isSpace char = true) ↔
      ∀ text ∈ texts, ∀ char ∈ text, Text.isSpace char = true := by
  have line : Text.isSpace '\n' = true := by decide
  induction texts with
  | nil => simp
  | cons text rest ih =>
      cases rest with
      | nil => simp
      | cons next others =>
          rw [intercalate_emptyLine]
          simp only [List.forall_mem_append, List.forall_mem_cons, ih, line, true_and]

omit [Interpreter] in
/-- There is text in the document if there is some on a page. -/
theorem joinPages_eq_nil_iff {texts : List Text} :
    joinPages texts = [] ↔ ∀ text ∈ texts, Text.strip text = [] := by
  simp only [joinPages, Text.strip_eq_nil_iff]
  exact isSpace_intercalate_iff

/-- What is read from the pages. -/
theorem readDocument_of_opens {readers : Readers} {path : Text} {bytes : Bytes}
    {pages : List FitzPage} (opens : OpensAs readers path bytes pages) (tesseract : Tesseract)
    (dpi : ℤ) :
    readDocument readers tesseract path bytes dpi =
      if maxPages < pages.length then .failure (tooManyPages pages.length)
      else if joinPages (pages.map fun page => (pageReading tesseract dpi page).1) = [] then
        .failure "no text could be extracted (embedded or OCR)".toList
          (provenances tesseract dpi 0 pages)
      else .success (joinPages (pages.map fun page => (pageReading tesseract dpi page).1))
        (provenances tesseract dpi 0 pages) := by
  rcases opens with ⟨⟨isDocx, isText, isFitz⟩, openDocument, imported, opened⟩
  have read : dispatch readers tesseract bytes (documentExtension path) dpi =
      readDocumentPages tesseract dpi (pages.map .ok) := by
    rw [dispatch, if_neg isDocx, if_neg isText, if_pos isFitz, readFitz, imported]
    dsimp only
    rw [opened]
    rfl
  rw [readDocument, read, readDocumentPages, List.length_map]
  by_cases many : maxPages < pages.length
  · rw [if_pos many, if_pos many]
    rfl
  · rw [if_neg many, if_neg many, readPages_map_ok]
    rfl

/-- What the deterministic extractor misses in the document is what it misses on each page. -/
theorem falseKeys_joinPages (lowers : Interpreter.LowersWords) (texts : List Text) :
    (extract ⟨joinPages texts, none⟩).fields.falseKeys = missingOnPages texts := by
  change (presence _).falseKeys = _
  rw [falseKeys_presence, missingOnPages]
  apply List.filter_congr
  intro field required
  have paged := reports_joinPages_iff lowers texts field
  rw [reports_iff required] at paged
  simp only [← paged, Bool.not_eq_true, Bool.decide_eq_false]

omit [Interpreter] in
theorem ok_joinPages {texts : List Text} (text : joinPages texts ≠ []) :
    OCRResult.ok ⟨joinPages texts, none⟩ = true := by
  have stripped : Text.strip (joinPages texts) = joinPages texts := Text.strip_strip _
  simp [OCRResult.ok, stripped, text]

theorem outcome_joinPages (lowers : Interpreter.LowersWords) {texts : List Text}
    (text : joinPages texts ≠ []) :
    (if OCRResult.ok ⟨joinPages texts, none⟩ then
        fieldsOutcome (extract ⟨joinPages texts, none⟩).fields
      else errorOutcome (unreadableReason ⟨joinPages texts, none⟩)) =
      if missingOnPages texts = [] then (verdictPass, "valid".toList, .arr [])
      else (verdictFail, "invalid".toList,
        .arr ((missingOnPages texts).map fun field => missingReason (.str field))) := by
  rw [if_pos (ok_joinPages text), fieldsOutcome, falseKeys_joinPages lowers]

theorem outcome_of_parsed {env : Environment} {claimed : Claimed} {result : OCRResult}
    (contract : claimed.docType = "contract".toList) (noModel : env.llmEnabled = false)
    (deterministic : env.extractor = "deterministic".toList)
    (parses : env.parseDocument claimed.blobRef = .ok result) :
    (decidedLocals env claimed).outcome =
      if result.ok then fieldsOutcome (extract result).fields
      else errorOutcome (unreadableReason result) := by
  have extracted : extractFields env claimed result = .ok (claimed.docType, extract result) := by
    simp only [extractFields, noModel, getExtractor, contract, deterministic]
    rfl
  rw [decidedLocals, parses]
  dsimp only
  split
  · rw [extractedLocals, extracted]
    rfl
  · rfl

/-- Without a language model, the verdict on a document that is opened as pages is decided page
by page: it is an error if there are too many pages or no text on any, a pass if each required
field is on some page, and else a failure for each field that is on none. -/
theorem outcome_of_pages (lowers : Interpreter.LowersWords) {env : Environment}
    {storage : Storage} {world : World} {runId : UUID} {run : ValidationRun}
    {document : Document} (queued : Queued world runId run document)
    (commits : storage.Commits) (quiet : ¬storage.Faulty)
    (contract : document.docType = "contract".toList) (noModel : env.llmEnabled = false)
    (deterministic : env.extractor = "deterministic".toList) {readers : Readers}
    {tesseract : Tesseract} {path : Text} {bytes : Bytes} {dpi : ℤ} {pages : List FitzPage}
    (opens : OpensAs readers path bytes pages)
    (parses : env.parseDocument document.blobRef =
      .ok (readDocument readers tesseract path bytes dpi).toOCRResult) :
    ∃ after result, runValidation env storage runId world = (.ok ⟨⟩, after) ∧
      after.db.results runId = some result ∧
      (result.verdict, result.finalState, Json.arr result.reasons) =
        pagesOutcome (pages.map fun page => (pageReading tesseract dpi page).1) := by
  have supported : document.docType ∈ machineDefs := by
    rw [contract]
    decide
  rcases finished_of_works env queued commits quiet supported with ⟨after, ended, finished⟩
  refine ⟨after, _, ended, finished.resultRow, ?_⟩
  rw [outcome_decidedRow, @outcome_of_parsed _ env (claimedOf run document) _ contract noModel
    deterministic parses, readDocument_of_opens opens, pagesOutcome, List.length_map]
  by_cases many : maxPages < pages.length
  · rw [if_pos many, if_pos many]
    rfl
  · rw [if_neg many, if_neg many]
    by_cases blank : ∀ text ∈ pages.map fun page => (pageReading tesseract dpi page).1,
        Text.strip text = []
    · rw [if_pos (joinPages_eq_nil_iff.mpr blank), if_pos blank]
      rfl
    · have text := mt joinPages_eq_nil_iff.mp blank
      rw [if_neg text, if_neg blank]
      exact outcome_joinPages lowers text

end Pages

section

attribute [local instance] Interpreter.ascii

/-- A contract that is signed on its second page. -/
def signedPages : List FitzPage :=
  [⟨"A lease between the parties.".toList, 612, 792, []⟩,
    ⟨"In witness whereof, the parties sign below.".toList, 612, 792, []⟩]

/-- A PyMuPDF that opens every file as the signed contract. -/
def signedReaders : Readers where
  fitz := .ok fun _ _ => .ok (signedPages.map .ok)
  docx := .error ⟨"ImportError".toList, "No module named 'docx'".toList⟩
  decode := fun _ => []

/-- What is read of the signed contract. -/
def signedReading : ReadResult :=
  readDocument signedReaders (fun _ _ => none) "upload.pdf".toList [] 200

/-- No model, and the signed contract for every document. -/
def signedEnvironment : Environment :=
  { replyEnvironment [] [] with
    llmEnabled := false
    parseDocument := fun _ => .ok signedReading.toOCRResult }

theorem outcome_of_pages_signed : ∃ after result,
    runValidation signedEnvironment Storage.reliable sampleRunId sampleWorld = (.ok ⟨⟩, after) ∧
      after.db.results sampleRunId = some result ∧
      (result.verdict, result.finalState, Json.arr result.reasons) =
        pagesOutcome (signedPages.map fun page => (pageReading (fun _ _ => none) 200 page).1) := by
  have extension : documentExtension "upload.pdf".toList = "pdf".toList := by decide
  have opens : OpensAs signedReaders "upload.pdf".toList [] signedPages := by
    refine ⟨?_, _, rfl, rfl⟩
    rw [extension]
    decide
  exact outcome_of_pages Interpreter.ascii_lowersWords queued_sampleWorld
    Storage.commits_reliable Storage.not_faulty_reliable rfl rfl rfl opens rfl

end

end OrcaValidator
