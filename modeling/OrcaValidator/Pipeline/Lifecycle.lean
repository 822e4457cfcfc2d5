import OrcaValidator.Library.Transition
import OrcaValidator.Pipeline.Call

/-!
# The life of a run

What the service promises of a run: it is submitted, then claimed, and then gets its result,
each of them once.  `Lifecycle.system` says so of all runs together.  The rows of a run and of
its document are those of one moment of such a life, as long as each call for a run stands
where its run stands; what a call has read of the rows is then still there when it writes them.
-/

namespace OrcaValidator

open Library System

/-- How far the life of a run has come. -/
inductive Lifecycle where
  | absent
  | queued
  | running
  | finished (result : ValidationResult)

/-- What happens to a run. -/
inductive LifecycleStep where
  | submit (runId : UUID)
  | claim (runId : UUID)
  | finish (runId : UUID) (result : ValidationResult)

namespace Lifecycle

/-- The status of the run and of its document. -/
def status : Lifecycle → Option Status
  | absent => none
  | queued => some .queued
  | running => some .running
  | finished result => some (finalStatus result.verdict)

/-- The result of a run that is finished. -/
def result : Lifecycle → Option ValidationResult
  | finished result => some result
  | _ => none

/-- One step: a run is submitted, claimed and finished, in this order and once each. -/
def step (lives : UUID → Lifecycle) : LifecycleStep → Option (UUID → Lifecycle)
  | .submit runId =>
      match lives runId with
      | absent => some (Function.update lives runId queued)
      | _ => none
  | .claim runId =>
      match lives runId with
      | queued => some (Function.update lives runId running)
      | _ => none
  | .finish runId result =>
      match lives runId with
      | running => some (Function.update lives runId (finished result))
      | _ => none

/-- The lives of runs, none of which has been submitted. -/
def system : System (UUID → Lifecycle) LifecycleStep where
  initial := fun lives => ∀ runId, lives runId = absent
  step := step

variable {lives : UUID → Lifecycle} {runId : UUID}

theorem step_submit (absent : lives runId = .absent) :
    step lives (.submit runId) = some (Function.update lives runId queued) := by
  rw [step, absent]

theorem step_claim (queued : lives runId = .queued) :
    step lives (.claim runId) = some (Function.update lives runId running) := by
  rw [step, queued]

theorem step_finish (result : ValidationResult) (running : lives runId = .running) :
    step lives (.finish runId result) = some (Function.update lives runId (finished result)) := by
  rw [step, running]

/-- A step changes one life, and a life only begins with its submission. -/
theorem step_cases {next : UUID → Lifecycle} {move : LifecycleStep}
    (taken : step lives move = some next) :
    (∃ id, move = .submit id ∧ lives id = .absent ∧ next = Function.update lives id .queued) ∨
      (∃ id, move = .claim id ∧ lives id = .queued ∧ next = Function.update lives id .running) ∨
      ∃ id result, move = .finish id result ∧ lives id = .running ∧
        next = Function.update lives id (.finished result) := by
  cases move with
  | submit id =>
      rw [step] at taken
      split at taken
      · next absent => exact .inl ⟨id, rfl, absent, (Option.some.inj taken).symm⟩
      · cases taken
  | claim id =>
      rw [step] at taken
      split at taken
      · next queued => exact .inr (.inl ⟨id, rfl, queued, (Option.some.inj taken).symm⟩)
      · cases taken
  | finish id result =>
      rw [step] at taken
      split at taken
      · next running => exact .inr (.inr ⟨id, result, rfl, running, (Option.some.inj taken).symm⟩)
      · cases taken

/-- A result is final. -/
theorem finished_of_step {next : UUID → Lifecycle} {move : LifecycleStep}
    {result : ValidationResult} (taken : step lives move = some next)
    (finished : lives runId = .finished result) : next runId = .finished result := by
  have differ : ∀ id, lives id ≠ .finished result → runId ≠ id := by
    rintro id other rfl
    exact other finished
  rcases step_cases taken with ⟨id, _, here, rfl⟩ | ⟨id, _, here, rfl⟩ | ⟨id, _, _, here, rfl⟩ <;>
    rwa [Function.update_of_ne (differ id (by simp [here]))]

/-- What is there was there before, or has been submitted. -/
theorem present_of_step {next : UUID → Lifecycle} {move : LifecycleStep}
    (taken : step lives move = some next) (present : next runId ≠ .absent) :
    lives runId ≠ .absent ∨ move = .submit runId := by
  rcases step_cases taken with ⟨id, rfl, here, rfl⟩ | ⟨id, _, here, rfl⟩ |
    ⟨id, _, _, here, rfl⟩
  · by_cases same : runId = id
    · exact .inr (by rw [same])
    · rw [Function.update_of_ne same] at present
      exact .inl present
  · by_cases same : runId = id
    · exact .inl (by simp [same, here])
    · rw [Function.update_of_ne same] at present
      exact .inl present
  · by_cases same : runId = id
    · exact .inl (by simp [same, here])
    · rw [Function.update_of_ne same] at present
      exact .inl present

end Lifecycle

/-! ## The rows of a life -/

/-- The rows of a run are those of this moment of its life. -/
structure Represents (db : Database ContractState) (runId : UUID) (life : Lifecycle) :
    Prop where
  result : db.results runId = life.result
  absent : life.status = none → db.runs runId = none
  present : ∀ status, life.status = some status → ∃ run document, db.runs runId = some run ∧
    db.documents run.documentId = some document ∧ run.status = status ∧ document.status = status

/-- Every run has the rows of its life and a document of its own, and every document has a
run. -/
structure Represented (db : Database ContractState) (lives : UUID → Lifecycle) : Prop where
  rows : ∀ runId, Represents db runId (lives runId)
  owned : ∀ {documentId document}, db.documents documentId = some document →
    ∃ runId run, db.runs runId = some run ∧ run.documentId = documentId
  separate : ∀ {first second run other}, db.runs first = some run →
    db.runs second = some other → run.documentId = other.documentId → first = second

/-- The rows of a run and of its document are written, and those of no other run. -/
structure Writes (before after : Database ContractState) (runId : UUID) (run : ValidationRun)
    (document : Document) (life : Lifecycle) : Prop where
  runs : after.runs = Function.update before.runs runId (some run)
  documents : after.documents = Function.update before.documents run.documentId (some document)
  results : after.results = Function.update before.results runId life.result
  runStatus : life.status = some run.status
  documentStatus : document.status = run.status
  own : ∀ {other row}, other ≠ runId → before.runs other = some row →
    row.documentId ≠ run.documentId
  kept : ∀ {row}, before.runs runId = some row → row.documentId = run.documentId

section Rows

variable {db before after : Database ContractState} {lives : UUID → Lifecycle} {runId : UUID}
  {run : ValidationRun} {document : Document} {life : Lifecycle}

theorem Represents.rows {status : Status} (represents : Represents db runId life)
    (is : life.status = some status) : ∃ run document, db.runs runId = some run ∧
      db.documents run.documentId = some document ∧ run.status = status ∧
      document.status = status := represents.present status is

theorem Represents.ne_absent (represents : Represents db runId life) (ne : life ≠ .absent) :
    ∃ run, db.runs runId = some run := by
  cases life with
  | absent => exact absurd rfl ne
  | queued =>
      rcases represents.rows rfl with ⟨run, _, found, _⟩
      exact ⟨run, found⟩
  | running =>
      rcases represents.rows rfl with ⟨run, _, found, _⟩
      exact ⟨run, found⟩
  | finished result =>
      rcases represents.rows rfl with ⟨run, _, found, _⟩
      exact ⟨run, found⟩

theorem Represents.eq_absent (represents : Represents db runId life)
    (missing : db.runs runId = none) : life = .absent := by
  by_contra ne
  rcases represents.ne_absent ne with ⟨run, found⟩
  rw [missing] at found
  cases found

/-- A run with a result is finished. -/
theorem Represents.eq_finished {result : ValidationResult}
    (represents : Represents db runId life) (stored : db.results runId = some result) :
    life = .finished result := by
  have same := represents.result
  rw [stored] at same
  cases life with
  | finished other =>
      cases same
      rfl
  | absent => cases same
  | queued => cases same
  | running => cases same

/-- A run that is there has its document. -/
theorem Represents.of_runs (represents : Represents db runId life)
    (found : db.runs runId = some run) :
    ∃ document, db.documents run.documentId = some document ∧ document.status = run.status ∧
      life.status = some run.status := by
  have ne : life.status ≠ none := by
    intro none
    rw [represents.absent none] at found
    cases found
  rcases Option.ne_none_iff_exists'.mp ne with ⟨status, is⟩
  rcases represents.rows is with ⟨row, document, found', documentRow, runStatus, documentStatus⟩
  rw [found] at found'
  cases found'
  exact ⟨document, documentRow, documentStatus.trans runStatus.symm, by rw [is, runStatus]⟩

theorem Represented.of_sameRows (represented : Represented before lives)
    (same : before.SameRows after) : Represented after lives where
  rows := by
    intro runId
    have rows := represented.rows runId
    exact ⟨same.results ▸ rows.result, same.runs ▸ rows.absent,
      same.runs ▸ same.documents ▸ rows.present⟩
  owned := by
    rw [← same.runs, ← same.documents]
    exact represented.owned
  separate := by
    rw [← same.runs]
    exact represented.separate

theorem Writes.represented (writes : Writes before after runId run document life)
    (represented : Represented before lives) :
    Represented after (Function.update lives runId life) where
  rows := by
    intro other
    by_cases same : other = runId
    · subst same
      rw [Function.update_self]
      refine ⟨by rw [writes.results, Function.update_self], ?_, ?_⟩
      · intro none
        rw [writes.runStatus] at none
        cases none
      · intro status is
        rw [writes.runStatus] at is
        cases is
        refine ⟨run, document, ?_, ?_, rfl, writes.documentStatus⟩
        · rw [writes.runs, Function.update_self]
        · rw [writes.documents, Function.update_self]
    · have rows := represented.rows other
      rw [Function.update_of_ne same]
      refine ⟨by rw [writes.results, Function.update_of_ne same, rows.result], ?_, ?_⟩
      · intro none
        rw [writes.runs, Function.update_of_ne same, rows.absent none]
      · intro status is
        rcases rows.present status is with ⟨row, its, found, documentRow, statuses⟩
        refine ⟨row, its, ?_, ?_, statuses⟩
        · rw [writes.runs, Function.update_of_ne same, found]
        · rw [writes.documents, Function.update_of_ne (writes.own same found), documentRow]
  owned := by
    intro documentId present found
    rw [writes.documents] at found
    by_cases here : documentId = run.documentId
    · exact ⟨runId, run, by rw [writes.runs, Function.update_self], here.symm⟩
    · rw [Function.update_of_ne here] at found
      rcases represented.owned found with ⟨other, row, foundRow, its⟩
      have differ : other ≠ runId := by
        rintro rfl
        exact here (its.symm.trans (writes.kept foundRow))
      exact ⟨other, row, by rw [writes.runs, Function.update_of_ne differ, foundRow], its⟩
  separate := by
    intro first second row other inFirst inSecond shared
    rw [writes.runs] at inFirst inSecond
    by_cases here : first = runId
    · subst here
      by_cases there : second = first
      · exact there.symm
      · rw [Function.update_self] at inFirst
        rw [Function.update_of_ne there] at inSecond
        cases inFirst
        exact absurd shared.symm (writes.own there inSecond)
    · rw [Function.update_of_ne here] at inFirst
      by_cases there : second = runId
      · subst there
        rw [Function.update_self] at inSecond
        cases inSecond
        exact absurd shared (writes.own here inFirst)
      · rw [Function.update_of_ne there] at inSecond
        exact represented.separate inFirst inSecond shared

end Rows

/-! ## What is written once -/

/-- The columns of a run that are written with its submission and never again. -/
def ValidationRun.identity (run : ValidationRun) : UUID × Text × Text × ℚ :=
  (run.documentId, run.machineId, run.machineHash, run.temperature)

/-- The columns of a document that never change. -/
def Document.identity (document : Document) : Text × Text × Text :=
  (document.owner, document.docType, document.blobRef)

/-- No document and no run is lost or changed but in its status. -/
structure IdentityKept (before after : Database ContractState) : Prop where
  documents : ∀ {id document}, before.documents id = some document →
    ∃ row, after.documents id = some row ∧ row.identity = document.identity
  runs : ∀ {id run}, before.runs id = some run →
    ∃ row, after.runs id = some row ∧ row.identity = run.identity

theorem IdentityKept.of_sameRows {before after : Database ContractState}
    (same : before.SameRows after) : IdentityKept before after where
  documents := fun found => ⟨_, same.documents ▸ found, rfl⟩
  runs := fun found => ⟨_, same.runs ▸ found, rfl⟩

theorem identityKept_of_updates {before after : Database ContractState} {runId documentId : UUID}
    {changeRun : ValidationRun → ValidationRun} {changeDocument : Document → Document}
    (documents : after.documents = Function.update before.documents documentId
      ((before.documents documentId).map changeDocument))
    (runs : after.runs = Function.update before.runs runId ((before.runs runId).map changeRun))
    (sameDocument : ∀ document, (changeDocument document).identity = document.identity)
    (sameRun : ∀ run, (changeRun run).identity = run.identity) : IdentityKept before after where
  documents := by
    intro id document found
    rw [documents]
    by_cases same : id = documentId
    · subst same
      exact ⟨changeDocument document, by simp [found], sameDocument document⟩
    · exact ⟨document, by rw [Function.update_of_ne same, found], rfl⟩
  runs := by
    intro id run found
    rw [runs]
    by_cases same : id = runId
    · subst same
      exact ⟨changeRun run, by simp [found], sameRun run⟩
    · exact ⟨run, by rw [Function.update_of_ne same, found], rfl⟩

theorem Call.Moves.identityKept [Interpreter] {before after : Database ContractState}
    {runId : UUID} {call next : Call} {label : CallStep}
    (moves : Call.Moves runId before call label after next) : IdentityKept before after := by
  cases moves with
  | claims claimable => exact identityKept_of_updates rfl rfl (fun _ => rfl) fun _ => rfl
  | finishes stored =>
      unfold commitResult at stored
      split at stored
      · cases stored
      · cases stored
        exact identityKept_of_updates rfl rfl (fun _ => rfl) fun _ => rfl
  | keeps same noClaim claimed active waiting => exact .of_sameRows same

/-! ## A call for a run that no other call has -/

/-- What the call has read is what is in the tables, and it stands where the life of its run
stands. -/
def Call.Faithful (db : Database ContractState) (runId : UUID) (life : Lifecycle) : Call → Prop
  | .started => life = .queued
  | .readRun run _ => life = .queued ∧ db.runs runId = some run
  | .readDocument run _ document => life = .queued ∧ db.runs runId = some run ∧
      db.documents run.documentId = some document
  | .driving | .decided _ => life = .running
  | .reloadedRun _ run => life = .running ∧ db.runs runId = some run
  | .reloadedDocument _ run document => life = .running ∧ db.runs runId = some run ∧
      db.documents run.documentId = some document
  | .returned | .finished => True

/-- What a step of a call is in the life of its run. -/
def Call.move (runId : UUID) : Call → CallStep → Option LifecycleStep
  | .readDocument .., .commitClaim => some (.claim runId)
  | .reloadedDocument result _ _, .commitResult => some (.finish runId result)
  | _, _ => none

/-- The lives go on by this step, or stay as they are, and the calls for other runs do not
notice. -/
structure Advances (before after : Database ContractState) (runId : UUID)
    (lives next : UUID → Lifecycle) (move : Option LifecycleStep) : Prop where
  moved : ∀ step, move = some step → Lifecycle.step lives step = some next
  stayed : move = none → next = lives
  represented : Represented after next
  others : ∀ {other call}, other ≠ runId → Call.Faithful before other (lives other) call →
    Call.Faithful after other (next other) call
  known : ∀ {other}, lives other ≠ .absent → next other ≠ .absent
  elsewhere : ∀ {other}, other ≠ runId → next other = lives other

section Advances

variable {before after : Database ContractState} {lives : UUID → Lifecycle} {runId : UUID}
  {run : ValidationRun} {document : Document} {life : Lifecycle}

theorem Call.Faithful.congr {other : UUID} {call : Call}
    (faithful : call.Faithful before other life) (runs : after.runs other = before.runs other)
    (documents : ∀ row, before.runs other = some row →
      after.documents row.documentId = before.documents row.documentId) :
    call.Faithful after other life := by
  cases call with
  | readRun run claimable =>
      rcases faithful with ⟨queued, found⟩
      exact ⟨queued, runs.trans found⟩
  | readDocument run claimable document =>
      rcases faithful with ⟨queued, found, documentRow⟩
      exact ⟨queued, runs.trans found, (documents run found).trans documentRow⟩
  | reloadedRun result run =>
      rcases faithful with ⟨running, found⟩
      exact ⟨running, runs.trans found⟩
  | reloadedDocument result run document =>
      rcases faithful with ⟨running, found, documentRow⟩
      exact ⟨running, runs.trans found, (documents run found).trans documentRow⟩
  | started => exact faithful
  | driving => exact faithful
  | decided result => exact faithful
  | returned => trivial
  | finished => trivial

theorem Represented.stays (represented : Represented before lives)
    (same : before.SameRows after) (runId : UUID) :
    Advances before after runId lives lives none where
  moved := by
    rintro step ⟨⟩
  stayed := fun _ => rfl
  represented := represented.of_sameRows same
  others := fun _ faithful => faithful.congr (by rw [same.runs]) fun _ _ => by rw [same.documents]
  known := fun known => known
  elsewhere := fun _ => rfl

theorem Writes.advances (writes : Writes before after runId run document life)
    (represented : Represented before lives) {step : LifecycleStep}
    (moved : Lifecycle.step lives step = some (Function.update lives runId life)) :
    Advances before after runId lives (Function.update lives runId life) (some step) where
  moved := by
    rintro step ⟨⟩
    exact moved
  stayed := by
    rintro ⟨⟩
  represented := writes.represented represented
  others := by
    intro other call differ faithful
    rw [Function.update_of_ne differ]
    refine faithful.congr ?_ fun row found => ?_
    · rw [writes.runs, Function.update_of_ne differ]
    · rw [writes.documents, Function.update_of_ne (writes.own differ found)]
  known := by
    intro other known
    by_cases same : other = runId
    · subst same
      rw [Function.update_self]
      rintro rfl
      cases writes.runStatus
    · rwa [Function.update_of_ne same]
  elsewhere := fun differ => Function.update_of_ne differ ..

variable [Interpreter]

omit [Interpreter] in
theorem Represented.claims (represented : Represented before lives)
    (queued : lives runId = .queued) (found : before.runs runId = some run)
    (documentRow : before.documents run.documentId = some document) :
    Advances before (commitClaim runId run document before) runId lives
      (Function.update lives runId .running) (some (.claim runId)) := by
  have writes : Writes before (commitClaim runId run document before) runId
      { run with status := .running } { document with status := .running } .running := by
    rw [commitClaim_eq_claimRows found documentRow]
    refine ⟨by simp [claimRows, found], by simp [claimRows, documentRow], ?_, rfl, rfl, ?_, ?_⟩
    · have result := (represented.rows runId).result
      rw [queued] at result
      exact (Function.update_eq_self_iff.mpr result.symm).symm
    · exact fun differ found' shared => differ (represented.separate found' found shared)
    · intro row found'
      rw [found] at found'
      cases found'
      rfl
  exact writes.advances represented (Lifecycle.step_claim queued)

theorem Represented.finishes (represented : Represented before lives)
    (running : lives runId = .running) (found : before.runs runId = some run)
    (documentRow : before.documents run.documentId = some document) (result : ValidationResult) :
    ∃ after, commitResult runId run document result before = .ok after ∧
      Advances before after runId lives (Function.update lives runId (.finished result))
        (some (.finish runId result)) := by
  have none : before.results runId = none := by
    have result := (represented.rows runId).result
    rwa [running] at result
  refine ⟨_, by rw [commitResult_eq_finishRows found documentRow, finishRows, none], ?_⟩
  have writes : Writes before (((before.setResult runId result).updateRun runId
      (finishRun result)).updateDocument run.documentId fun document =>
        { document with status := finalStatus result.verdict }) runId (finishRun result run)
      { document with status := finalStatus result.verdict } (.finished result) := by
    refine ⟨by simp [found], by simp [documentRow, finishRun], by simp [Lifecycle.result], rfl,
      rfl, ?_, ?_⟩
    · exact fun differ found' shared => differ (represented.separate found' found shared)
    · intro row found'
      rw [found] at found'
      cases found'
      rfl
  exact writes.advances represented (Lifecycle.step_finish result running)

/-- A step of a call that stands where its run stands: the life of the run goes on with it. -/
theorem Call.advances {call next : Call} {label : CallStep} (represented : Represented before lives)
    (faithful : call.Faithful before runId (lives runId))
    (taken : Call.step runId before call label = some (after, next)) :
    ∃ lives', Advances before after runId lives lives' (call.move runId label) ∧
      next.Faithful after runId (lives' runId) := by
  have quiet := fun db same => @Represented.stays before db lives represented same runId
  cases call with
  | started =>
      have queued : lives runId = .queued := faithful
      cases label with
      | readRun =>
          cases taken
          have rows := represented.rows runId
          rw [queued] at rows
          rcases rows.rows rfl with ⟨run, _, found, _, status, _⟩
          have claimable : run.status.Claimable := by
            rw [status]
            decide
          refine ⟨lives, quiet _ (.refl before), ?_⟩
          rw [found, afterRun, dif_pos claimable]
          exact ⟨queued, found⟩
      | fail =>
          cases taken
          exact ⟨lives, quiet _ (.refl before), trivial⟩
      | _ => cases taken
  | readRun run claimable =>
      rcases faithful with ⟨queued, found⟩
      cases label with
      | readDocument =>
          cases taken
          rcases (represented.rows runId).of_runs found with ⟨document, documentRow, _⟩
          refine ⟨lives, quiet _ (.refl before), ?_⟩
          rw [documentRow]
          exact ⟨queued, found, documentRow⟩
      | fail =>
          cases taken
          exact ⟨lives, quiet _ (.refl before), trivial⟩
      | _ => cases taken
  | readDocument run claimable document =>
      rcases faithful with ⟨queued, found, documentRow⟩
      cases label with
      | commitClaim =>
          cases taken
          exact ⟨_, represented.claims queued found documentRow, Function.update_self ..⟩
      | fail =>
          cases taken
          exact ⟨lives, quiet _ (.refl before), trivial⟩
      | _ => cases taken
  | driving =>
      have running : lives runId = .running := faithful
      cases label with
      | saveSnapshot key row =>
          cases taken
          exact ⟨lives, quiet _ ⟨rfl, rfl, rfl⟩, running⟩
      | decide result =>
          cases taken
          exact ⟨lives, quiet _ (.refl before), running⟩
      | fail =>
          cases taken
          exact ⟨lives, quiet _ (.refl before), trivial⟩
      | _ => cases taken
  | decided result =>
      have running : lives runId = .running := faithful
      cases label with
      | reloadRun =>
          cases taken
          have rows := represented.rows runId
          rw [running] at rows
          rcases rows.rows rfl with ⟨run, _, found, _⟩
          refine ⟨lives, quiet _ (.refl before), ?_⟩
          rw [found]
          exact ⟨running, found⟩
      | fail =>
          cases taken
          exact ⟨lives, quiet _ (.refl before), trivial⟩
      | _ => cases taken
  | reloadedRun result run =>
      rcases faithful with ⟨running, found⟩
      cases label with
      | reloadDocument =>
          cases taken
          rcases (represented.rows runId).of_runs found with ⟨document, documentRow, _⟩
          refine ⟨lives, quiet _ (.refl before), ?_⟩
          rw [documentRow]
          exact ⟨running, found, documentRow⟩
      | fail =>
          cases taken
          exact ⟨lives, quiet _ (.refl before), trivial⟩
      | _ => cases taken
  | reloadedDocument result run document =>
      rcases faithful with ⟨running, found, documentRow⟩
      cases label with
      | commitResult =>
          rcases represented.finishes running found documentRow result with
            ⟨stored, committed, advances⟩
          rw [step, committed] at taken
          cases taken
          exact ⟨_, advances, trivial⟩
      | fail =>
          cases taken
          exact ⟨lives, quiet _ (.refl before), trivial⟩
      | _ => cases taken
  | returned => cases taken
  | finished => cases taken

end Advances

end OrcaValidator
