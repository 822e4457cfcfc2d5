import Mathlib.Algebra.Order.Ring.Unbundled.Rat
import OrcaValidator.Library.Interpreter
import OrcaValidator.Orca.Bridge

/-!
# Submitting a document

`submit_document` up to its commit: the upload is checked, its blob is stored, and a
queued document and a queued run are inserted in one transaction.  What becomes of the
run's id afterwards is the business of the queue.
-/

namespace OrcaValidator

open Library

variable [Interpreter] {State : Type}

/-- The keys of both `MACHINE_DEFS` and `REGISTER_FNS`, sorted. -/
def supportedDocTypes : List Text := OrcaBridge.machineDefs

/-- `MACHINE_IDS`. -/
def machineIds : List (Text × Text) := [("contract".toList, "contract_validation".toList)]

/-- What `submit_document` gets: the form fields, the bytes of the file, and who sends it. -/
structure Upload where
  docType : Text
  temperature : ℚ
  data : List UInt8
  /-- The subject of the API key. -/
  subject : Text
  /-- The key that the blob store gives to the data. -/
  blobRef : Text

/-- `HTTPException(status, detail)`. -/
def httpException (status : ℕ) (detail : Text) : PyException :=
  ⟨"HTTPException".toList, (toString status).toList ++ ": ".toList ++ detail⟩

/-- `max(0.0, min(1.0, temperature))`. -/
def clampTemperature (temperature : ℚ) : ℚ := max 0 (min 1 temperature)

/-- The `Document` row of an upload. -/
def submittedDocument (upload : Upload) : Document where
  owner := upload.subject
  docType := upload.docType
  blobRef := upload.blobRef
  status := .queued

/-- The run that is inserted; `verified` is `VERIFIED_MACHINES`. -/
def submittedRun (verified : Dict Text Text) (upload : Upload) (documentId : UUID)
    (machineId : Text) : ValidationRun where
  documentId := documentId
  machineId := machineId
  machineHash := (verified.get? (machineId ++ ".orca.md".toList)).getD "unknown".toList
  temperature := clampTemperature upload.temperature
  status := .queued
  error := none

/-- `submit_document` up to its commit, with the ids that the two rows get. -/
def submitDocument (verified : Dict Text Text) (upload : Upload) (documentId runId : UUID)
    (db : Database State) : Except PyException (Database State) :=
  if upload.docType ∉ supportedDocTypes then
    .error (httpException 400 ("unsupported doc_type ".toList ++
      Interpreter.repr (.str upload.docType) ++ "; supported: ".toList ++
      Interpreter.repr (.arr (supportedDocTypes.map .str))))
  else if upload.data = [] then .error (httpException 400 "empty upload".toList)
  else
    match Dict.find upload.docType machineIds with
    | none => .error ⟨"KeyError".toList, Interpreter.repr (.str upload.docType)⟩
    | some machineId => .ok ((db.setDocument documentId (submittedDocument upload)).setRun runId
        (submittedRun verified upload documentId machineId))

variable {verified : Dict Text Text} {upload : Upload} {documentId runId : UUID}
  {db after : Database State}

/-- A submission that is accepted inserts a queued run of a queued document. -/
theorem exists_submitted
    (accepted : submitDocument verified upload documentId runId db = .ok after) :
    ∃ machineId, Dict.find upload.docType machineIds = some machineId ∧
      after = (db.setDocument documentId (submittedDocument upload)).setRun runId
        (submittedRun verified upload documentId machineId) := by
  unfold submitDocument at accepted
  split at accepted
  · cases accepted
  · split at accepted
    · cases accepted
    · split at accepted
      · cases accepted
      · next machineId known =>
          cases accepted
          exact ⟨machineId, known, rfl⟩

/-- The run gets the hash of the one machine that there is. -/
theorem runs_submitted
    (accepted : submitDocument verified upload documentId runId db = .ok after) :
    ∃ run, after.runs = Function.update db.runs runId (some run) ∧
      run.machineHash =
        (verified.get? "contract_validation.orca.md".toList).getD "unknown".toList := by
  rcases exists_submitted accepted with ⟨machineId, known, rfl⟩
  have only : machineId = "contract_validation".toList := by
    rw [machineIds, Dict.find] at known
    split at known
    · exact (Option.some.inj known).symm
    · cases known
  subst only
  exact ⟨_, Database.runs_setRun _ _ _, rfl⟩

end OrcaValidator
