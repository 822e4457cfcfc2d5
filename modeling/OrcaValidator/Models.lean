import Mathlib.Data.Rat.Defs
import Mathlib.Logic.Function.Basic
import OrcaValidator.Library.Json

/-!
# The database

The rows of the service's tables that the pipeline reads or writes, and the database
as the partial maps from primary keys to rows.  `validation_results` is keyed by its
unique column `run_id`, so a second result for one run has nowhere to go.
-/

namespace OrcaValidator

open Library

/-- A `uuid.UUID`, in its canonical spelling. -/
abbrev UUID := Text

/-- The values of the two `status` columns: uploaded → queued → running → done → failed. -/
inductive Status where
  | uploaded
  | queued
  | running
  | done
  | failed
  deriving DecidableEq

namespace Status

/-- The run has ended. -/
def Terminal (status : Status) : Prop := status = .done ∨ status = .failed

instance (status : Status) : Decidable status.Terminal :=
  inferInstanceAs (Decidable (_ ∨ _))

end Status

/-- A row of `documents`. -/
structure Document where
  owner : Text
  docType : Text
  blobRef : Text
  status : Status

/-- A row of `validation_runs`. -/
structure ValidationRun where
  documentId : UUID
  machineId : Text
  machineHash : Text
  temperature : ℚ
  status : Status
  error : Option Text

/-- A row of `validation_results`. -/
structure ValidationResult where
  verdict : Json
  finalState : Text
  reasons : List Json
  extractedFields : Dict Text Bool
  machineContext : Dict Text Json
  analysis : Json
  revisedMarkdown : Option Text
  analysisStatus : Text
  documentFsm : Json

/-- A row of `machine_snapshots`: the saved state and context of one machine. -/
structure MachineSnapshot (State : Type) where
  state : State
  context : Dict Text Json

/-- The tables, by their keys. -/
structure Database (State : Type) where
  documents : UUID → Option Document
  runs : UUID → Option ValidationRun
  results : UUID → Option ValidationResult
  snapshots : Text → Option (MachineSnapshot State)

namespace Database

variable {State : Type}

/-- `UPDATE documents`: change the columns of one row, if it is there. -/
def updateDocument (db : Database State) (id : UUID) (change : Document → Document) :
    Database State :=
  { db with documents := Function.update db.documents id ((db.documents id).map change) }

/-- A change of a run's row, if there is one. -/
def updateRun (db : Database State) (id : UUID) (change : ValidationRun → ValidationRun) :
    Database State :=
  { db with runs := Function.update db.runs id ((db.runs id).map change) }

/-- A document's row is inserted or replaced. -/
def setDocument (db : Database State) (id : UUID) (row : Document) : Database State :=
  { db with documents := Function.update db.documents id (some row) }

/-- A run's row is inserted or replaced. -/
def setRun (db : Database State) (id : UUID) (row : ValidationRun) : Database State :=
  { db with runs := Function.update db.runs id (some row) }

/-- A result's row is inserted or replaced. -/
def setResult (db : Database State) (runId : UUID) (row : ValidationResult) : Database State :=
  { db with results := Function.update db.results runId (some row) }

/-- Insert or replace a row of `machine_snapshots`. -/
def setSnapshot (db : Database State) (key : Text) (row : MachineSnapshot State) :
    Database State :=
  { db with snapshots := Function.update db.snapshots key (some row) }

variable (db : Database State)

@[simp]
theorem documents_updateDocument (id : UUID) (change : Document → Document) :
    (db.updateDocument id change).documents =
      Function.update db.documents id ((db.documents id).map change) := rfl

@[simp]
theorem runs_updateDocument (id : UUID) (change : Document → Document) :
    (db.updateDocument id change).runs = db.runs := rfl

@[simp]
theorem results_updateDocument (id : UUID) (change : Document → Document) :
    (db.updateDocument id change).results = db.results := rfl

@[simp]
theorem snapshots_updateDocument (id : UUID) (change : Document → Document) :
    (db.updateDocument id change).snapshots = db.snapshots := rfl

@[simp]
theorem documents_updateRun (id : UUID) (change : ValidationRun → ValidationRun) :
    (db.updateRun id change).documents = db.documents := rfl

@[simp]
theorem runs_updateRun (id : UUID) (change : ValidationRun → ValidationRun) :
    (db.updateRun id change).runs = Function.update db.runs id ((db.runs id).map change) := rfl

@[simp]
theorem results_updateRun (id : UUID) (change : ValidationRun → ValidationRun) :
    (db.updateRun id change).results = db.results := rfl

@[simp]
theorem snapshots_updateRun (id : UUID) (change : ValidationRun → ValidationRun) :
    (db.updateRun id change).snapshots = db.snapshots := rfl

@[simp]
theorem documents_setDocument (id : UUID) (row : Document) :
    (db.setDocument id row).documents = Function.update db.documents id (some row) := rfl

@[simp]
theorem runs_setDocument (id : UUID) (row : Document) :
    (db.setDocument id row).runs = db.runs := rfl

@[simp]
theorem documents_setRun (id : UUID) (row : ValidationRun) :
    (db.setRun id row).documents = db.documents := rfl

@[simp]
theorem runs_setRun (id : UUID) (row : ValidationRun) :
    (db.setRun id row).runs = Function.update db.runs id (some row) := rfl

@[simp]
theorem documents_setResult (runId : UUID) (row : ValidationResult) :
    (db.setResult runId row).documents = db.documents := rfl

@[simp]
theorem runs_setResult (runId : UUID) (row : ValidationResult) :
    (db.setResult runId row).runs = db.runs := rfl

@[simp]
theorem results_setResult (runId : UUID) (row : ValidationResult) :
    (db.setResult runId row).results = Function.update db.results runId (some row) := rfl

@[simp]
theorem documents_setSnapshot (key : Text) (row : MachineSnapshot State) :
    (db.setSnapshot key row).documents = db.documents := rfl

@[simp]
theorem runs_setSnapshot (key : Text) (row : MachineSnapshot State) :
    (db.setSnapshot key row).runs = db.runs := rfl

@[simp]
theorem results_setSnapshot (key : Text) (row : MachineSnapshot State) :
    (db.setSnapshot key row).results = db.results := rfl

@[simp]
theorem snapshots_setSnapshot (key : Text) (row : MachineSnapshot State) :
    (db.setSnapshot key row).snapshots = Function.update db.snapshots key (some row) := rfl

/-- The two databases agree on everything but the snapshots. -/
structure SameRows (left right : Database State) : Prop where
  documents : left.documents = right.documents
  runs : left.runs = right.runs
  results : left.results = right.results

@[refl]
theorem SameRows.refl : SameRows db db := ⟨rfl, rfl, rfl⟩

end Database

end OrcaValidator
