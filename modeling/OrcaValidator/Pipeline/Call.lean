import OrcaValidator.Pipeline.Validate

/-!
# One call of `run_validation` among others

The statements of a call, one step each, over a database that other calls change in
between.  A `SELECT` returns what is committed at that moment and locks nothing; the
changes to the rows it returned are written when the transaction commits, as `UPDATE`s
of the attributes that were assigned another value than the one they were read with.

What happens between the two transactions is left open: the machine may save any
snapshots and the call may decide on any result.
-/

namespace OrcaValidator

open Library

/-! ## Writing back a row -/

/-- What a flush leaves in a column: an attribute that was assigned the value it was read
with is not written. -/
def flushed {α : Type} [DecidableEq α] (read assigned stored : α) : α :=
  if assigned = read then stored else assigned

@[simp]
theorem flushed_stored {α : Type} [DecidableEq α] (stored assigned : α) :
    flushed stored assigned stored = assigned := by
  unfold flushed
  split <;> simp [*]

theorem flushed_of_ne {α : Type} [DecidableEq α] {read assigned : α} (stored : α)
    (differ : assigned ≠ read) : flushed read assigned stored = assigned := if_neg differ

/-- The row of a run after a commit writes what was assigned. -/
def ValidationRun.flush (read assigned stored : ValidationRun) : ValidationRun :=
  { stored with
    status := flushed read.status assigned.status stored.status
    error := flushed read.error assigned.error stored.error }

/-- The row of a document after a commit writes what was assigned. -/
def Document.flush (read assigned stored : Document) : Document :=
  { stored with status := flushed read.status assigned.status stored.status }

section Commits

variable {State : Type} (runId : UUID) (run : ValidationRun) (document : Document)

/-- The commit of a claim that read these two rows. -/
def commitClaim (db : Database State) : Database State :=
  (db.updateRun runId (run.flush { run with status := .running })).updateDocument run.documentId
    (document.flush { document with status := .running })

/-- The commit of a result by a call that read these two rows. -/
def commitResult [Interpreter] (result : ValidationResult) (db : Database State) :
    Except PyException (Database State) :=
  match db.results runId with
  | some _ => .error duplicateResult
  | none => .ok (((db.setResult runId result).updateRun runId
      (run.flush (finishRun result run))).updateDocument run.documentId
        (document.flush { document with status := finalStatus result.verdict }))

variable {runId run document} {db : Database State}

theorem commitClaim_eq_claimRows (runRow : db.runs runId = some run)
    (documentRow : db.documents run.documentId = some document) :
    commitClaim runId run document db = claimRows runId run.documentId db := by
  simp [commitClaim, claimRows, Database.updateRun, Database.updateDocument, runRow, documentRow,
    ValidationRun.flush, Document.flush]

theorem commitResult_eq_finishRows [Interpreter] {result : ValidationResult}
    (runRow : db.runs runId = some run)
    (documentRow : db.documents run.documentId = some document) :
    commitResult runId run document result db = finishRows runId run.documentId result db := by
  unfold commitResult finishRows
  cases db.results runId with
  | some present => rfl
  | none =>
      simp [Database.updateRun, Database.updateDocument, Database.setResult, runRow,
        documentRow, ValidationRun.flush, Document.flush, finishRun]

theorem runs_commitClaim {row : ValidationRun} (document : Document)
    (claimable : run.status.Claimable) (present : db.runs runId = some row) :
    ∃ next, (commitClaim runId run document db).runs runId = some next ∧
      next.status = .running := by
  refine ⟨run.flush { run with status := .running } row, ?_, ?_⟩
  · simp [commitClaim, present]
  · exact flushed_of_ne _ (Ne.symm claimable.2.2)

theorem runs_commitResult [Interpreter] {after : Database State} {row : ValidationRun}
    {result : ValidationResult} (stored : commitResult runId run document result db = .ok after)
    (present : db.runs runId = some row) :
    ∃ next, after.runs runId = some next ∧
      (next.status = row.status ∨ next.status.Terminal) := by
  unfold commitResult at stored
  split at stored
  · cases stored
  · cases stored
    refine ⟨run.flush (finishRun result run) row, ?_, ?_⟩
    · simp [present]
    · by_cases unchanged : (finishRun result run).status = run.status
      · exact .inl (if_pos unchanged)
      · right
        rw [show (run.flush (finishRun result run) row).status = finalStatus result.verdict from
          flushed_of_ne _ unchanged]
        exact terminal_finalStatus _

end Commits

/-! ## The call -/

/-- Where a call is, with what it has read. -/
inductive Call where
  | started
  /-- It read a run that it may claim. -/
  | readRun (run : ValidationRun) (claimable : run.status.Claimable)
  | readDocument (run : ValidationRun) (claimable : run.status.Claimable) (document : Document)
  /-- It ended before the claim. -/
  | returned
  /-- It claimed the run and drives the machine. -/
  | driving
  | decided (result : ValidationResult)
  | reloadedRun (result : ValidationResult) (run : ValidationRun)
  | reloadedDocument (result : ValidationResult) (run : ValidationRun) (document : Document)
  /-- It ended after the claim. -/
  | finished

/-- The statements of `run_validation` that touch the database, and its failure. -/
inductive CallStep where
  | readRun
  | readDocument
  | commitClaim
  | saveSnapshot (key : Text) (row : MachineSnapshot ContractState)
  | decide (result : ValidationResult)
  | reloadRun
  | reloadDocument
  | commitResult
  /-- The statement raises, and the transaction is rolled back. -/
  | fail

namespace Call

/-- The call has not ended and has not claimed the run. -/
def Pending : Call → Prop
  | started | readRun .. | readDocument .. => True
  | _ => False

/-- The call has seen a run that it may claim. -/
def Waiting : Call → Prop
  | readRun .. | readDocument .. => True
  | _ => False

/-- The call has committed its claim. -/
def HasClaimed : Call → Prop
  | driving | decided .. | reloadedRun .. | reloadedDocument .. | finished => True
  | _ => False

/-- The call has committed its claim and has not ended. -/
def Active : Call → Prop
  | driving | decided .. | reloadedRun .. | reloadedDocument .. => True
  | _ => False

theorem Active.hasClaimed {call : Call} (active : call.Active) : call.HasClaimed := by
  cases call <;> trivial

theorem Waiting.pending {call : Call} (waiting : call.Waiting) : call.Pending := by
  cases call <;> trivial

theorem Pending.not_hasClaimed {call : Call} (pending : call.Pending) : ¬call.HasClaimed := by
  cases call <;> first | exact id | exact pending.elim

/-- `run is None or run.status in ("done", "failed", "running")`. -/
def afterRun : Option ValidationRun → Call
  | none => returned
  | some run => if claimable : run.status.Claimable then readRun run claimable else returned

variable [Interpreter]

/-- One step of a call, with what it does to the database. -/
def step (runId : UUID) (db : Database ContractState) :
    Call → CallStep → Option (Database ContractState × Call)
  | started, .readRun => some (db, afterRun (db.runs runId))
  | readRun run claimable, .readDocument =>
      some (db, ((db.documents run.documentId).map (readDocument run claimable)).getD returned)
  | readDocument run _ document, .commitClaim =>
      some (OrcaValidator.commitClaim runId run document db, driving)
  | driving, .saveSnapshot key row => some (db.setSnapshot key row, driving)
  | driving, .decide result => some (db, decided result)
  | decided result, .reloadRun =>
      some (db, ((db.runs runId).map (reloadedRun result)).getD finished)
  | reloadedRun result run, .reloadDocument =>
      some (db, ((db.documents run.documentId).map (reloadedDocument result run)).getD finished)
  | reloadedDocument result run document, .commitResult =>
      match OrcaValidator.commitResult runId run document result db with
      | .ok after => some (after, finished)
      | .error _ => some (db, finished)
  | started, .fail | readRun .., .fail | readDocument .., .fail => some (db, returned)
  | driving, .fail | decided .., .fail | reloadedRun .., .fail | reloadedDocument .., .fail =>
      some (db, finished)
  | _, _ => none

/-- What a step can do: it claims the run, it finishes the run, or it leaves the rows as
they are. -/
inductive Moves (runId : UUID) (before : Database ContractState) :
    Call → CallStep → Database ContractState → Call → Prop
  | claims {run : ValidationRun} {document : Document} (claimable : run.status.Claimable) :
      Moves runId before (readDocument run claimable document) .commitClaim
        (OrcaValidator.commitClaim runId run document before) driving
  | finishes {result : ValidationResult} {run : ValidationRun} {document : Document}
      {after : Database ContractState}
      (stored : OrcaValidator.commitResult runId run document result before = .ok after) :
      Moves runId before (reloadedDocument result run document) .commitResult after finished
  | keeps {call next : Call} {label : CallStep} {after : Database ContractState}
      (same : before.SameRows after) (noClaim : label ≠ .commitClaim)
      (claimed : next.HasClaimed ↔ call.HasClaimed) (active : next.Active → call.Active)
      (waiting : next.Waiting →
        call.Waiting ∨ ∃ run, before.runs runId = some run ∧ run.status.Claimable) :
      Moves runId before call label after next

omit [Interpreter] in
theorem waiting_afterRun {row : Option ValidationRun} (waiting : (afterRun row).Waiting) :
    ∃ run, row = some run ∧ run.status.Claimable := by
  cases row with
  | none => exact waiting.elim
  | some run =>
      by_cases claimable : run.status.Claimable
      · exact ⟨run, rfl, claimable⟩
      · simp [afterRun, claimable, Waiting] at waiting

omit [Interpreter] in
theorem not_hasClaimed_afterRun (row : Option ValidationRun) : ¬(afterRun row).HasClaimed := by
  cases row with
  | none => exact id
  | some run => by_cases claimable : run.status.Claimable <;> simp [afterRun, claimable, HasClaimed]

variable {runId : UUID} {before after : Database ContractState} {call next : Call}
  {label : CallStep}

theorem Moves.ofPending (noClaim : label ≠ .commitClaim) (unclaimed : ¬call.HasClaimed)
    (unclaimed' : ¬next.HasClaimed) (waiting : next.Waiting →
      call.Waiting ∨ ∃ run, before.runs runId = some run ∧ run.status.Claimable) :
    Moves runId before call label before next :=
  .keeps (.refl before) noClaim (iff_of_false unclaimed' unclaimed)
    (fun active => absurd active.hasClaimed unclaimed') waiting

theorem Moves.ofActive (same : before.SameRows after) (noClaim : label ≠ .commitClaim)
    (active : call.Active) (claimed : next.HasClaimed) :
    Moves runId before call label after next :=
  .keeps same noClaim (iff_of_true claimed active.hasClaimed) (fun _ => active)
    fun waiting => absurd claimed waiting.pending.not_hasClaimed

theorem moves_of_step (taken : step runId before call label = some (after, next)) :
    Moves runId before call label after next := by
  cases call with
  | started =>
      cases label with
      | readRun =>
          cases taken
          exact .ofPending (by simp) id (not_hasClaimed_afterRun _)
            fun waiting => .inr (waiting_afterRun waiting)
      | fail =>
          cases taken
          exact .ofPending (by simp) id id False.elim
      | _ => cases taken
  | readRun run claimable =>
      cases label with
      | readDocument =>
          cases taken
          refine .ofPending (by simp) id ?_ fun _ => .inl trivial
          cases before.documents run.documentId <;> exact id
      | fail =>
          cases taken
          exact .ofPending (by simp) id id False.elim
      | _ => cases taken
  | readDocument run claimable document =>
      cases label with
      | commitClaim =>
          cases taken
          exact .claims claimable
      | fail =>
          cases taken
          exact .ofPending (by simp) id id False.elim
      | _ => cases taken
  | driving =>
      cases label with
      | saveSnapshot key row =>
          cases taken
          exact .ofActive ⟨rfl, rfl, rfl⟩ (by simp) trivial trivial
      | decide result =>
          cases taken
          exact .ofActive (.refl before) (by simp) trivial trivial
      | fail =>
          cases taken
          exact .ofActive (.refl before) (by simp) trivial trivial
      | _ => cases taken
  | decided result =>
      cases label with
      | reloadRun =>
          cases taken
          refine .ofActive (.refl before) (by simp) trivial ?_
          cases before.runs runId <;> trivial
      | fail =>
          cases taken
          exact .ofActive (.refl before) (by simp) trivial trivial
      | _ => cases taken
  | reloadedRun result run =>
      cases label with
      | reloadDocument =>
          cases taken
          refine .ofActive (.refl before) (by simp) trivial ?_
          cases before.documents run.documentId <;> trivial
      | fail =>
          cases taken
          exact .ofActive (.refl before) (by simp) trivial trivial
      | _ => cases taken
  | reloadedDocument result run document =>
      cases label with
      | commitResult =>
          rw [step] at taken
          split at taken
          · next stored =>
              cases taken
              exact .finishes stored
          · cases taken
            exact .ofActive (.refl before) (by simp) trivial trivial
      | fail =>
          cases taken
          exact .ofActive (.refl before) (by simp) trivial trivial
      | _ => cases taken
  | returned => cases taken
  | finished => cases taken

/-! ## What a step leaves of the rows -/

/-- No document is lost, and no run is added, lost or given another document. -/
structure RowsKept (before after : Database ContractState) : Prop where
  documents : ∀ id, (before.documents id).isSome → (after.documents id).isSome
  runs : ∀ id, (after.runs id).map ValidationRun.documentId =
    (before.runs id).map ValidationRun.documentId

omit [Interpreter] in
theorem rowsKept_of_updates {documentId : UUID} {changeRun : ValidationRun → ValidationRun}
    {changeDocument : Document → Document}
    (documents : after.documents = Function.update before.documents documentId
      ((before.documents documentId).map changeDocument))
    (runs : after.runs = Function.update before.runs runId ((before.runs runId).map changeRun))
    (sameDocument : ∀ run, (changeRun run).documentId = run.documentId) :
    RowsKept before after where
  documents := by
    intro id present
    rw [documents]
    by_cases same : id = documentId
    · subst same
      simpa using present
    · simpa [same] using present
  runs := by
    intro id
    rw [runs]
    by_cases same : id = runId
    · subst same
      simp [Function.comp_def, sameDocument]
    · simp [same]

theorem Moves.rowsKept (moves : Moves runId before call label after next) :
    RowsKept before after := by
  cases moves with
  | claims claimable => exact rowsKept_of_updates rfl rfl fun _ => rfl
  | finishes stored =>
      unfold OrcaValidator.commitResult at stored
      split at stored
      · cases stored
      · cases stored
        exact rowsKept_of_updates rfl rfl fun _ => rfl
  | keeps same noClaim claimed active waiting =>
      exact ⟨fun id => by rw [same.documents]; exact fun present => present,
        fun id => by rw [same.runs]⟩

/-- No step changes the hash that is recorded with a run. -/
theorem Moves.machineHash (moves : Moves runId before call label after next) (id : UUID) :
    (after.runs id).map ValidationRun.machineHash =
      (before.runs id).map ValidationRun.machineHash := by
  cases moves with
  | claims claimable =>
      by_cases same : id = runId
      · subst same
        simp [OrcaValidator.commitClaim, Function.comp_def, ValidationRun.flush]
      · simp [OrcaValidator.commitClaim, same]
  | finishes stored =>
      unfold OrcaValidator.commitResult at stored
      split at stored
      · cases stored
      · cases stored
        by_cases same : id = runId
        · subst same
          simp [Function.comp_def, ValidationRun.flush]
        · simp [same]
  | keeps same noClaim claimed active waiting => rw [same.runs]

theorem Moves.runs_of_ne (moves : Moves runId before call label after next) {id : UUID}
    (other : id ≠ runId) : after.runs id = before.runs id := by
  cases moves with
  | claims claimable => simp [OrcaValidator.commitClaim, other]
  | finishes stored =>
      unfold OrcaValidator.commitResult at stored
      split at stored
      · cases stored
      · cases stored
        simp [other]
  | keeps same noClaim claimed active waiting => rw [same.runs]

/-- A run that is queued after the step was queued before, and the step did not claim it. -/
theorem Moves.queued (moves : Moves runId before call label after next) {id : UUID}
    {run : ValidationRun} (found : after.runs id = some run) (queued : run.status = .queued) :
    ∃ row, before.runs id = some row ∧ row.status = .queued ∧
      (id = runId → label ≠ .commitClaim) := by
  have kept := moves.rowsKept.runs id
  rw [found] at kept
  rcases Option.map_eq_some_iff.mp kept.symm with ⟨row, present, _⟩
  refine ⟨row, present, ?_⟩
  by_cases own : id = runId
  · subst own
    cases moves with
    | @claims _ document claimable =>
        rcases runs_commitClaim document claimable present with ⟨other, found', running⟩
        rw [found] at found'
        cases found'
        rw [queued] at running
        cases running
    | finishes stored =>
        rcases runs_commitResult stored present with ⟨other, found', status⟩
        rw [found] at found'
        cases found'
        rw [queued] at status
        exact ⟨(status.resolve_right (by simp [Status.Terminal])).symm, by simp⟩
    | keeps same noClaim claimed active waiting =>
        rw [← same.runs, present] at found
        cases found
        exact ⟨queued, fun _ => noClaim⟩
  · rw [moves.runs_of_ne own, present] at found
    cases found
    exact ⟨queued, fun same => absurd same own⟩

omit [Interpreter] in
theorem getD_map_ne_driving {α : Type} {row : Option α} {read : α → Call} {missing : Call}
    (reads : ∀ value, read value ≠ driving) (misses : missing ≠ driving) :
    (row.map read).getD missing ≠ driving := by
  cases row with
  | none => exact misses
  | some value => exact reads value

/-- A call begins to drive the machine with its claim. -/
theorem driving_of_step (taken : step runId before call label = some (after, next))
    (drives : next = driving) : label = .commitClaim ∨ call = driving := by
  subst drives
  cases call with
  | started =>
      cases label with
      | readRun =>
          have claimed := not_hasClaimed_afterRun (before.runs runId)
          rw [(Prod.mk.inj (Option.some.inj taken)).2] at claimed
          exact absurd trivial claimed
      | _ => cases taken
  | readRun run claimable =>
      cases label with
      | readDocument =>
          have read := (Prod.mk.inj (Option.some.inj taken)).2
          exact absurd read (getD_map_ne_driving (by simp) (by simp))
      | _ => cases taken
  | readDocument run claimable document =>
      cases label with
      | commitClaim => exact .inl rfl
      | _ => cases taken
  | driving => exact .inr rfl
  | decided result =>
      cases label with
      | reloadRun =>
          have read := (Prod.mk.inj (Option.some.inj taken)).2
          exact absurd read (getD_map_ne_driving (by simp) (by simp))
      | _ => cases taken
  | reloadedRun result run =>
      cases label with
      | reloadDocument =>
          have read := (Prod.mk.inj (Option.some.inj taken)).2
          exact absurd read (getD_map_ne_driving (by simp) (by simp))
      | _ => cases taken
  | reloadedDocument result run document =>
      cases label with
      | commitResult =>
          rw [step] at taken
          split at taken
          · cases taken
          · cases taken
      | _ => cases taken
  | returned => cases taken
  | finished => cases taken

/-- After its claim a call drives the machine. -/
theorem driving_of_claim (taken : step runId before call .commitClaim = some (after, next)) :
    next = driving := by
  cases call with
  | readDocument run claimable document =>
      cases taken
      rfl
  | _ => cases taken

omit [Interpreter] in
theorem eq_of_afterRun {row : Option ValidationRun} {run : ValidationRun}
    {claimable : run.status.Claimable} (read : afterRun row = readRun run claimable) :
    row = some run := by
  cases row with
  | none => cases read
  | some found =>
      by_cases may : found.status.Claimable
      · rw [afterRun, dif_pos may] at read
        cases read
        rfl
      · rw [afterRun, dif_neg may] at read
        cases read

/-- A call that has read a run just now has read what is in the table. -/
theorem runs_of_readRun {run : ValidationRun} {claimable : run.status.Claimable}
    (taken : step runId before call label = some (after, readRun run claimable)) :
    before.runs runId = some run := by
  cases call with
  | started =>
      cases label with
      | readRun => exact eq_of_afterRun (Prod.mk.inj (Option.some.inj taken)).2
      | _ => cases taken
  | readRun read readable =>
      cases label with
      | readDocument =>
          have next := (Prod.mk.inj (Option.some.inj taken)).2
          cases found : before.documents read.documentId <;> rw [found] at next <;> cases next
      | _ => cases taken
  | decided result =>
      cases label with
      | reloadRun =>
          have next := (Prod.mk.inj (Option.some.inj taken)).2
          cases found : before.runs runId <;> rw [found] at next <;> cases next
      | _ => cases taken
  | reloadedRun result read =>
      cases label with
      | reloadDocument =>
          have next := (Prod.mk.inj (Option.some.inj taken)).2
          cases found : before.documents read.documentId <;> rw [found] at next <;> cases next
      | _ => cases taken
  | reloadedDocument result read document =>
      cases label with
      | commitResult =>
          rw [step] at taken
          split at taken <;> cases taken
      | _ => cases taken
  | _ => cases label <;> cases taken

/-- A call for a run that may be claimed stays pending until it claims it or fails. -/
theorem pending_of_step {run : ValidationRun}
    (taken : step runId before call label = some (after, next)) (pending : call.Pending)
    (noFail : label ≠ .fail) (noClaim : label ≠ .commitClaim)
    (present : before.runs runId = some run) (claimable : run.status.Claimable)
    (documented : ∀ read readable, call = readRun read readable →
      (before.documents read.documentId).isSome) : next.Pending := by
  cases call with
  | started =>
      cases label with
      | readRun =>
          cases taken
          simp [present, afterRun, claimable, Pending]
      | fail => exact absurd rfl noFail
      | _ => cases taken
  | readRun read readable =>
      cases label with
      | readDocument =>
          rcases Option.isSome_iff_exists.mp (documented read readable rfl) with
            ⟨document, found⟩
          cases taken
          rw [found]
          trivial
      | fail => exact absurd rfl noFail
      | _ => cases taken
  | readDocument read readable document =>
      cases label with
      | commitClaim => exact absurd rfl noClaim
      | fail => exact absurd rfl noFail
      | _ => cases taken
  | _ => exact pending.elim

end Call

end OrcaValidator
