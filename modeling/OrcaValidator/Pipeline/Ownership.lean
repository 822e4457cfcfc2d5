import OrcaValidator.Library.Custody
import OrcaValidator.Pipeline.Claiming
import OrcaValidator.Pipeline.Deployment
import OrcaValidator.Pipeline.Lifecycle

/-!
# The ownership of a run

A deployment refines the lives of its runs: whatever its processes do, and whenever they stop,
every run is submitted, claimed and finished at most once each, and in this order.

The reason is that the id of a run is in one place at a time: with the process that has
committed it, in the Redis list, or in one task.  No second call gets hold of a run, although
nothing in the tables would keep it from claiming the run again.
-/

namespace OrcaValidator

open Library System

/-! ## The deployment -/

/-- Where the id of a run may be. -/
inductive RunPlace (Process Task : Type) where
  | queue
  | submitted (process : Process)
  | task (task : Task)
  deriving DecidableEq

namespace Deployment

variable [Interpreter] {Content Definition Process Task : Type} [DecidableEq Process]
  [DecidableEq Task] {tools : MachineTools Content Definition}

/-- The ids in the Redis list, in the hands of a process that has not passed them on, and in
the tasks. -/
def custody (deployment : Deployment tools Process Task) : Custody (RunPlace Process Task) UUID
  | .queue => deployment.queue
  | .submitted process => deployment.submitted process
  | .task task => ((deployment.tasks task).map ProcessTask.runId).toList

/-- The id waits for a call. -/
def Waits (deployment : Deployment tools Process Task) (runId : UUID) : Prop :=
  runId ∈ deployment.queue ∨ ∃ process, runId ∈ deployment.submitted process

/-- No run is there twice, and where a run is in its life is where its rows and its call say. -/
structure Orderly (deployment : Deployment tools Process Task) (lives : UUID → Lifecycle) :
    Prop where
  exclusive : deployment.custody.Exclusive
  represented : Represented deployment.db lives
  waiting : ∀ {runId}, deployment.Waits runId → lives runId = .queued
  faithful : ∀ {task entry}, deployment.tasks task = some entry →
    entry.call.Faithful deployment.db entry.runId (lives entry.runId)
  known : ∀ {task entry}, deployment.tasks task = some entry → lives entry.runId ≠ .absent

/-- What a step of the deployment is in the lives of the runs. -/
def move (deployment : Deployment tools Process Task) :
    DeploymentStep Content Process Task → Option LifecycleStep
  | .submit process upload documentId runId =>
      match deployment.processes process with
      | none => none
      | some running =>
          match submitDocument running.verified upload documentId runId deployment.db with
          | .error _ => none
          | .ok _ => some (.submit runId)
  | .call task label =>
      match deployment.tasks task with
      | none => none
      | some entry => entry.call.move entry.runId label
  | _ => none

/-- What a step does to the lives of the runs, and to where their ids are. -/
inductive Progresses (before : Deployment tools Process Task) :
    DeploymentStep Content Process Task → Deployment tools Process Task → Prop
  | idles {label : DeploymentStep Content Process Task} {after : Deployment tools Process Task}
      (noMove : before.move label = none) (db : after.db = before.db)
      (custody : before.custody.Steps after.custody)
      (waiting : ∀ runId, after.Waits runId → before.Waits runId)
      (tasks : ∀ task entry, after.tasks task = some entry → before.tasks task = some entry) :
      Progresses before label after
  | submits {verified : Dict Text Text} {process : Process} {upload : Upload}
      {documentId runId : UUID} {after : Deployment tools Process Task}
      (move : before.move (.submit process upload documentId runId) = some (.submit runId))
      (freshDocument : before.db.documents documentId = none)
      (freshRun : before.db.runs runId = none)
      (accepted : submitDocument verified upload documentId runId before.db = .ok after.db)
      (custody : after.custody = before.custody.receive (.submitted process) runId)
      (waiting : ∀ other, after.Waits other → other = runId ∨ before.Waits other)
      (tasks : after.tasks = before.tasks) :
      Progresses before (.submit process upload documentId runId) after
  | hands {label : DeploymentStep Content Process Task} {process : Process} {task : Task}
      {runId : UUID} {after : Deployment tools Process Task} (noMove : before.move label = none)
      (db : after.db = before.db) (custody : before.custody.Steps after.custody)
      (waited : before.Waits runId)
      (waiting : ∀ other, after.Waits other → before.Waits other)
      (tasks : after.tasks =
        Function.update before.tasks task (some ⟨process, runId, .started⟩)) :
      Progresses before label after
  | calls {task : Task} {label : CallStep} {entry : ProcessTask Process} {call : Call}
      {after : Deployment tools Process Task} (present : before.tasks task = some entry)
      (taken : Call.step entry.runId before.db entry.call label = some (after.db, call))
      (custody : after.custody = before.custody)
      (waiting : ∀ runId, after.Waits runId → before.Waits runId)
      (tasks : after.tasks =
        Function.update before.tasks task (some { entry with call := call })) :
      Progresses before (.call task label) after

variable {before after : Deployment tools Process Task}
  {label : DeploymentStep Content Process Task} {lives : UUID → Lifecycle}

theorem custody_setSubmitted (deployment : Deployment tools Process Task) (process : Process)
    (runs : List UUID) : (deployment.setSubmitted process runs).custody =
      deployment.custody.keep (.submitted process) runs := by
  funext place
  cases place with
  | queue => rfl
  | task task => rfl
  | submitted other =>
      by_cases same : other = process <;> simp [custody, setSubmitted, Custody.keep, same]

theorem custody_setQueue (deployment : Deployment tools Process Task) (queue : List UUID) :
    custody { deployment with queue := queue } = deployment.custody.keep .queue queue := by
  funext place
  cases place <;> rfl

theorem custody_setTask (deployment : Deployment tools Process Task) (task : Task)
    (entry : Option (ProcessTask Process)) : (deployment.setTask task entry).custody =
      deployment.custody.keep (.task task) (entry.map ProcessTask.runId).toList := by
  funext place
  cases place with
  | queue => rfl
  | submitted process => rfl
  | task other =>
      by_cases same : other = task <;> simp [custody, setTask, Custody.keep, same]

/-- A task begins with the id that it is given. -/
theorem custody_setTask_started {deployment : Deployment tools Process Task} {task : Task}
    (free : (deployment.tasks task).isNone) (process : Process) (runId : UUID) :
    (deployment.setTask task (some ⟨process, runId, .started⟩)).custody =
      deployment.custody.receive (.task task) runId := by
  rw [custody_setTask, Custody.receive, Custody.keep]
  simp [custody, Option.isNone_iff_eq_none.mp free]

omit [DecidableEq Process] [DecidableEq Task] in
theorem waits_of_subset {runId : UUID} (queue : after.queue ⊆ before.queue)
    (submitted : ∀ process, after.submitted process ⊆ before.submitted process)
    (waits : after.Waits runId) : before.Waits runId :=
  waits.imp (fun member => queue member) fun ⟨process, member⟩ =>
    ⟨process, submitted process member⟩

theorem progresses_of_push {process : Process} {runId : UUID} {reply : PushReply}
    (taken : step before (.push process runId reply) = some after) :
    Progresses before (.push process runId reply) after := by
  rw [step] at taken
  split at taken
  · next ready =>
      cases taken
      have own := ready.2
      have erased := submitted_setSubmitted_erase before process
      refine .idles rfl rfl ?_ ?_ fun _ _ found => found
      · rw [custody_setSubmitted, custody_setQueue before (enqueue runId reply before.queue).2]
        cases stored : reply.stored with
        | true =>
            refine .hands runId (.submitted process) _ (List.perm_cons_erase own) .queue ?_
            simp only [enqueue, stored, if_true]
            have apart : (.queue : RunPlace Process Task) ≠ .submitted process := by simp
            exact Function.update_comm apart _ _ _
        | false =>
            simp only [enqueue, stored]
            have same : before.custody.keep .queue before.queue = before.custody :=
              Function.update_eq_self _ _
            simp only [Bool.false_eq_true, if_false, same]
            exact .keep List.erase_sublist
      · rintro other (queued | ⟨there, member⟩)
        · simp only [setSubmitted, enqueue] at queued
          split at queued
          · rcases List.mem_cons.mp queued with rfl | earlier
            · exact .inr ⟨process, own⟩
            · exact .inl earlier
          · exact .inl queued
        · exact .inr ⟨there, erased there runId member⟩
  · cases taken

theorem progresses_of_dequeue {process : Process} {task : Task} {reply : PopReply}
    (taken : step before (.dequeue process task reply) = some after) :
    Progresses before (.dequeue process task reply) after := by
  rw [step] at taken
  split at taken
  · next ready =>
      rcases Option.map_eq_some_iff.mp taken with ⟨⟨outcome, rest⟩, dequeued, rfl⟩
      rcases dequeue_cases dequeued with ⟨runId, _, rfl, queue⟩ | ⟨nothing, left⟩
      · have perm : (before.custody .queue).Perm (runId :: rest) := by
          rw [show before.custody .queue = rest ++ [runId] from queue]
          exact List.perm_append_singleton _ _
        refine .hands rfl rfl ?_ (.inl (perm.symm.subset List.mem_cons_self)) ?_ rfl
        · refine .hands runId .queue rest perm (.task task) ?_
          change (setTask { before with queue := rest } task
            (some ⟨process, runId, .started⟩)).custody = _
          have free : (tasks { before with queue := rest } task).isNone := ready.2
          rw [custody_setTask_started free, custody_setQueue before rest]
        · exact fun other => waits_of_subset (queue ▸ List.subset_append_left rest [runId])
            fun _ => List.Subset.refl _
      · have sublist : rest.Sublist before.queue := by
          rcases left with ⟨_, rfl⟩ | ⟨_, runId, queue⟩
          · exact List.Sublist.refl _
          · rw [queue]
            exact List.sublist_append_left rest [runId]
        have idle : Progresses before (.dequeue process task reply)
            { before with queue := rest } := by
          refine .idles rfl rfl ?_ ?_ fun _ _ found => found
          · rw [custody_setQueue before rest]
            refine .keep ?_
            exact sublist
          · exact fun other => waits_of_subset sublist.subset fun _ => List.Subset.refl _
        rcases outcome with error | _ | runId
        · exact idle
        · exact idle
        · exact absurd rfl (nothing runId)
  · cases taken

theorem progresses_of_submit {process : Process} {upload : Upload} {documentId runId : UUID}
    (taken : step before (.submit process upload documentId runId) = some after) :
    Progresses before (.submit process upload documentId runId) after := by
  rw [step] at taken
  split at taken
  · cases taken
  · next running present =>
      split at taken
      · next fresh =>
          split at taken
          · next refused =>
              cases taken
              refine .idles ?_ rfl (.refl _) (fun _ waits => waits) fun _ _ found => found
              rw [move, present]
              simp only [refused]
          · next db accepted =>
              cases taken
              refine .submits ?_ fresh.2.1 fresh.2.2 accepted ?_ ?_ rfl
              · rw [move, present]
                simp only [accepted]
              · rw [custody_setSubmitted]
                rfl
              · rintro other (queued | ⟨there, member⟩)
                · exact .inr (.inl queued)
                · by_cases same : there = process
                  · subst same
                    simp only [setSubmitted, Function.update_self] at member
                    exact (List.mem_cons.mp member).imp_right fun earlier => .inr ⟨there, earlier⟩
                  · simp only [setSubmitted, Function.update_of_ne same] at member
                    exact .inr (.inr ⟨there, member⟩)
      · cases taken

/-- What each step does. -/
theorem progresses_of_step (taken : step before label = some after) :
    Progresses before label after := by
  cases label with
  | start process startup =>
      rw [step] at taken
      split at taken
      · split at taken <;>
          · cases taken
            exact .idles rfl rfl (.refl _) (fun _ waits => waits) fun _ _ found => found
      · cases taken
  | stop process =>
      cases taken
      refine .idles rfl rfl (.loses fun place => ?_) (fun runId => waits_of_subset
        (List.Subset.refl _) fun other => ?_) ?_
      · cases place with
        | queue => exact List.Sublist.refl _
        | submitted other =>
            by_cases same : other = process <;>
              simp [custody, stopped, setSubmitted, setProcess, same]
        | task task =>
            simp only [custody, stopped]
            cases before.tasks task with
            | none => exact List.Sublist.refl _
            | some entry => by_cases here : entry.process = process <;> simp [here]
      · by_cases same : other = process <;> simp [stopped, setSubmitted, setProcess, same]
      · exact fun task entry found => (Option.filter_eq_some_iff.mp found).1
  | submit process upload documentId runId => exact progresses_of_submit taken
  | push process runId reply => exact progresses_of_push taken
  | background process task runId =>
      rw [step] at taken
      split at taken
      · next ready =>
          cases taken
          have own := ready.2.1
          refine .hands rfl rfl ?_ (.inr ⟨process, own⟩) ?_ rfl
          · refine .hands runId (.submitted process) _ (List.perm_cons_erase own) (.task task) ?_
            have free : ((before.setSubmitted process
                ((before.submitted process).erase runId)).tasks task).isNone := ready.2.2
            rw [custody_setTask_started free, custody_setSubmitted]
            rfl
          · exact fun other => waits_of_subset (List.Subset.refl _) fun there =>
              submitted_setSubmitted_erase before process there runId
      · cases taken
  | dequeue process task reply => exact progresses_of_dequeue taken
  | call task label =>
      rw [step] at taken
      split at taken
      · cases taken
      · next entry present =>
          rcases Option.map_eq_some_iff.mp taken with ⟨⟨db, call⟩, stepped, rfl⟩
          refine .calls present stepped ?_ (fun _ waits => waits) rfl
          have same : ((some { entry with call := call }).map ProcessTask.runId).toList =
              before.custody (.task task) := by
            simp [custody, present]
          rw [custody_setTask, same]
          exact Function.update_eq_self _ _
  | release task =>
      rw [step] at taken
      split at taken
      · cases taken
      · split at taken
        · cases taken
          refine .idles rfl rfl ?_ (fun _ waits => waits) ?_
          · rw [custody_setTask]
            exact .keep (List.nil_sublist _)
          · intro other entry found
            by_cases same : other = task
            · simp [setTask, same] at found
            · simpa [setTask, same] using found
        · cases taken

/-! ## What every step keeps -/

/-- A deployment that has no rows yet. -/
structure Blank (deployment : Deployment tools Process Task) : Prop extends Fresh deployment where
  documents : ∀ id, deployment.db.documents id = none
  results : ∀ id, deployment.db.results id = none

omit [DecidableEq Process] [DecidableEq Task] in
theorem Blank.orderly (blank : Blank before) : Orderly before fun _ => .absent where
  exclusive := by
    refine Custody.exclusive_of_empty fun place => ?_
    cases place with
    | queue => exact blank.queue
    | submitted process => exact blank.submitted process
    | task task =>
        rw [custody, blank.tasks task]
        rfl
  represented := by
    refine ⟨fun runId => ⟨blank.results runId, fun _ => blank.runs runId, ?_⟩, ?_, ?_⟩
    · rintro status ⟨⟩
    · intro documentId document found
      rw [blank.documents documentId] at found
      cases found
    · intro first second run other found
      rw [blank.runs first] at found
      cases found
  waiting := by
    rintro runId (queued | ⟨process, member⟩)
    · rw [blank.queue] at queued
      cases queued
    · rw [blank.submitted process] at member
      cases member
  faithful := by
    intro task entry found
    rw [blank.tasks task] at found
    cases found
  known := by
    intro task entry found
    rw [blank.tasks task] at found
    cases found

omit [DecidableEq Process] [DecidableEq Task] in
/-- What some place holds is the id of a run. -/
theorem Orderly.held (orderly : Orderly before lives) {runId : UUID}
    (held : before.custody.Held runId) : lives runId ≠ .absent := by
  rcases held with ⟨place, member⟩
  have waits : before.Waits runId → lives runId ≠ .absent := by
    intro waits
    rw [orderly.waiting waits]
    rintro ⟨⟩
  cases place with
  | queue => exact waits (.inl member)
  | submitted process => exact waits (.inr ⟨process, member⟩)
  | task task =>
      rcases Option.map_eq_some_iff.mp (Option.mem_toList.mp member) with ⟨entry, found, rfl⟩
      exact orderly.known found

omit [DecidableEq Process] [DecidableEq Task] in
/-- The tasks of two runs are two tasks, and a run in a task waits nowhere. -/
theorem Orderly.task_unique (orderly : Orderly before lives) {first second : Task}
    {entry other : ProcessTask Process} (inFirst : before.tasks first = some entry)
    (inSecond : before.tasks second = some other) (same : entry.runId = other.runId) :
    first = second := by
  have holds : ∀ {task entry}, before.tasks task = some entry →
      entry.runId ∈ before.custody (.task task) := by
    intro task entry found
    simp [custody, found]
  have place := orderly.exclusive.only (holds inFirst) (same ▸ holds inSecond)
  exact RunPlace.task.inj place

omit [DecidableEq Process] [DecidableEq Task] in
theorem Orderly.not_waits (orderly : Orderly before lives) {task : Task}
    {entry : ProcessTask Process} (found : before.tasks task = some entry) :
    ¬before.Waits entry.runId := by
  have holds : entry.runId ∈ before.custody (.task task) := by simp [custody, found]
  rintro (queued | ⟨process, member⟩)
  · have place : (.task task : RunPlace Process Task) = .queue :=
      orderly.exclusive.only holds queued
    cases place
  · have place : (.task task : RunPlace Process Task) = .submitted process :=
      orderly.exclusive.only holds member
    cases place

/-- A new run with a document of its own. -/
theorem Orderly.submits (orderly : Orderly before lives) {verified : Dict Text Text}
    {process : Process} {upload : Upload} {documentId runId : UUID}
    (freshDocument : before.db.documents documentId = none)
    (freshRun : before.db.runs runId = none)
    (accepted : submitDocument verified upload documentId runId before.db = .ok after.db)
    (custody : after.custody = before.custody.receive (.submitted process) runId)
    (waiting : ∀ other, after.Waits other → other = runId ∨ before.Waits other)
    (tasks : after.tasks = before.tasks) :
    lives runId = .absent ∧ Orderly after (Function.update lives runId .queued) := by
  rcases exists_submitted accepted with ⟨machineId, _, rows⟩
  have absent := (orderly.represented.rows runId).eq_absent freshRun
  have writes : Writes before.db after.db runId
      (submittedRun verified upload documentId machineId) (submittedDocument upload) .queued := by
    rw [rows]
    refine ⟨rfl, rfl, ?_, rfl, rfl, ?_, ?_⟩
    · have result := (orderly.represented.rows runId).result
      rw [absent] at result
      exact (Function.update_eq_self_iff.mpr result.symm).symm
    · intro other row _ found shared
      rcases (orderly.represented.rows other).of_runs found with ⟨document, documentRow, _⟩
      rw [shared, show (submittedRun verified upload documentId machineId).documentId =
        documentId from rfl, freshDocument] at documentRow
      cases documentRow
    · intro row found
      rw [freshRun] at found
      cases found
  have advances := writes.advances orderly.represented (Lifecycle.step_submit absent)
  have other : ∀ {task entry}, before.tasks task = some entry → entry.runId ≠ runId := by
    rintro task entry found rfl
    exact orderly.known found absent
  refine ⟨absent, ⟨?_, advances.represented, ?_, ?_, ?_⟩⟩
  · rw [custody]
    exact orderly.exclusive.receives (fun held => orderly.held held absent) _
  · intro other waits
    rcases waiting other waits with rfl | earlier
    · exact Function.update_self ..
    · have queued := orderly.waiting earlier
      rw [Function.update_of_ne, queued]
      rintro rfl
      rw [absent] at queued
      cases queued
  · intro task entry found
    rw [tasks] at found
    exact advances.others (other found) (orderly.faithful found)
  · intro task entry found
    rw [tasks] at found
    exact advances.known (orderly.known found)

/-- A run that waits is handed to a new task. -/
theorem Orderly.hands (orderly : Orderly before lives) {process : Process} {task : Task}
    {runId : UUID} (db : after.db = before.db) (custody : before.custody.Steps after.custody)
    (waited : before.Waits runId) (waiting : ∀ other, after.Waits other → before.Waits other)
    (tasks : after.tasks =
      Function.update before.tasks task (some ⟨process, runId, .started⟩)) :
    Orderly after lives where
  exclusive := orderly.exclusive.step custody
  represented := db ▸ orderly.represented
  waiting := fun waits => orderly.waiting (waiting _ waits)
  faithful := by
    intro other entry found
    rw [db]
    rw [tasks] at found
    by_cases same : other = task
    · subst same
      rw [Function.update_self] at found
      cases found
      exact orderly.waiting waited
    · rw [Function.update_of_ne same] at found
      exact orderly.faithful found
  known := by
    intro other entry found
    rw [tasks] at found
    by_cases same : other = task
    · subst same
      rw [Function.update_self] at found
      cases found
      rw [orderly.waiting waited]
      rintro ⟨⟩
    · rw [Function.update_of_ne same] at found
      exact orderly.known found

omit [DecidableEq Process] in
/-- A task goes on with its run. -/
theorem Orderly.calls (orderly : Orderly before lives) {task : Task} {label : CallStep}
    {entry : ProcessTask Process} {call : Call} (present : before.tasks task = some entry)
    (taken : Call.step entry.runId before.db entry.call label = some (after.db, call))
    (custody : after.custody = before.custody)
    (waiting : ∀ runId, after.Waits runId → before.Waits runId)
    (tasks : after.tasks =
      Function.update before.tasks task (some { entry with call := call })) :
    ∃ lives', Advances before.db after.db entry.runId lives lives'
        (entry.call.move entry.runId label) ∧ Orderly after lives' := by
  rcases Call.advances orderly.represented (orderly.faithful present) taken with
    ⟨lives', advances, faithful⟩
  refine ⟨lives', advances, ⟨custody ▸ orderly.exclusive, advances.represented, ?_, ?_, ?_⟩⟩
  · intro runId waits
    have waited := waiting runId waits
    rw [advances.elsewhere, orderly.waiting waited]
    rintro rfl
    exact orderly.not_waits present waited
  · intro other found isFound
    rw [tasks] at isFound
    by_cases same : other = task
    · subst same
      rw [Function.update_self] at isFound
      cases isFound
      exact faithful
    · rw [Function.update_of_ne same] at isFound
      refine advances.others (fun shared => same ?_) (orderly.faithful isFound)
      exact orderly.task_unique isFound present shared
  · intro other found isFound
    rw [tasks] at isFound
    by_cases same : other = task
    · subst same
      rw [Function.update_self] at isFound
      cases isFound
      exact advances.known (show lives entry.runId ≠ .absent from orderly.known present)
    · rw [Function.update_of_ne same] at isFound
      exact advances.known (orderly.known isFound)

omit [DecidableEq Process] [DecidableEq Task] in
theorem identityKept_of_submit {verified : Dict Text Text} {upload : Upload}
    {documentId runId : UUID} (freshDocument : before.db.documents documentId = none)
    (freshRun : before.db.runs runId = none)
    (accepted : submitDocument verified upload documentId runId before.db = .ok after.db) :
    IdentityKept before.db after.db := by
  rcases exists_submitted accepted with ⟨machineId, _, rows⟩
  rw [rows]
  constructor
  · intro id document found
    have differ : id ≠ documentId := by
      rintro rfl
      rw [freshDocument] at found
      cases found
    exact ⟨document, by simp [differ, found], rfl⟩
  · intro id run found
    have differ : id ≠ runId := by
      rintro rfl
      rw [freshRun] at found
      cases found
    exact ⟨run, by simp [differ, found], rfl⟩

/-- What is written with a submission stays. -/
theorem identityKept_of_step (taken : step before label = some after) :
    IdentityKept before.db after.db := by
  cases progresses_of_step taken with
  | idles noMove db custody waiting tasks => exact .of_sameRows (db ▸ .refl _)
  | submits move freshDocument freshRun accepted custody waiting tasks =>
      exact identityKept_of_submit freshDocument freshRun accepted
  | hands noMove db custody waited waiting tasks => exact .of_sameRows (db ▸ .refl _)
  | calls present taken custody waiting tasks => exact (Call.moves_of_step taken).identityKept

/-- Each step is a step of the lives, or leaves them as they are. -/
theorem Orderly.step (orderly : Orderly before lives)
    (taken : Deployment.step before label = some after) :
    ∃ lives', (∀ move, before.move label = some move → Lifecycle.step lives move = some lives') ∧
      (before.move label = none → lives' = lives) ∧ Orderly after lives' := by
  cases progresses_of_step taken with
  | idles noMove db custody waiting tasks =>
      refine ⟨lives, by simp [noMove], fun _ => rfl, ?_⟩
      refine ⟨orderly.exclusive.step custody, db ▸ orderly.represented, ?_, ?_, ?_⟩
      · exact fun waits => orderly.waiting (waiting _ waits)
      · exact fun found => db ▸ orderly.faithful (tasks _ _ found)
      · exact fun found => orderly.known (tasks _ _ found)
  | submits move freshDocument freshRun accepted custody waiting tasks =>
      rcases orderly.submits freshDocument freshRun accepted custody waiting tasks with
        ⟨absent, next⟩
      refine ⟨_, ?_, by simp [move], next⟩
      intro step is
      rw [move] at is
      cases is
      exact Lifecycle.step_submit absent
  | hands noMove db custody waited waiting tasks =>
      refine ⟨lives, by simp [noMove], fun _ => rfl, ?_⟩
      exact orderly.hands db custody waited waiting tasks
  | @calls task label entry call _ present taken custody waiting tasks =>
      rcases orderly.calls present taken custody waiting tasks with ⟨lives', advances, next⟩
      have move : before.move (.call task label) = entry.call.move entry.runId label := by
        rw [Deployment.move, present]
      rw [move]
      exact ⟨lives', advances.moved, advances.stayed, next⟩

variable (Process Task tools) in
/-- The deployment refines the lives of its runs. -/
def refinement : Refinement (system Process Task tools) Lifecycle.system where
  move := move
  Relates := Orderly
  related := fun orderly taken => orderly.step taken

/-- Whatever the processes of a deployment do, and whenever they stop: every run is submitted,
claimed and finished at most once each, in this order, its rows say how far it is, and its id
is in one place at most. -/
theorem lives_of_executes {start final : Deployment tools Process Task}
    {labels : List (DeploymentStep Content Process Task)} (blank : Blank start)
    (execution : (system Process Task tools).Executes start labels final) :
    ∃ lives, Lifecycle.system.Executes (fun _ => .absent)
        ((refinement Process Task tools).moves start labels) lives ∧
      Represented final.db lives ∧ final.custody.Exclusive := by
  rcases (refinement Process Task tools).executes execution blank.orderly with
    ⟨lives, moves, orderly⟩
  exact ⟨lives, moves, orderly.represented, orderly.exclusive⟩

end Deployment

section Closed

attribute [local instance] Interpreter.ascii

namespace Deployment

theorem blank_freshDeployment : Blank freshDeployment where
  toFresh := fresh_freshDeployment
  documents := fun _ => rfl
  results := fun _ => rfl

/-- The steps of a call after its claim that nothing goes wrong with. -/
def finishingSteps : List (DeploymentStep MachineFile ℕ Unit) :=
  [.call () (.decide sampleResult), .call () .reloadRun, .call () .reloadDocument,
    .call () .commitResult]

theorem lives_of_executes_backgroundRun : ∃ final lives,
    (system ℕ Unit sampleTools).Executes freshDeployment (backgroundRun ++ finishingSteps)
        final ∧
      Lifecycle.system.Executes (fun _ => .absent)
        ((refinement ℕ Unit sampleTools).moves freshDeployment
          (backgroundRun ++ finishingSteps)) lives ∧
      Represented final.db lives ∧ final.custody.Exclusive := by
  have runs : ((system ℕ Unit sampleTools).execute freshDeployment
      (backgroundRun ++ finishingSteps)).isSome = true := by decide +kernel
  rcases Option.isSome_iff_exists.mp runs with ⟨final, executed⟩
  rcases lives_of_executes blank_freshDeployment (executes_of_execute executed) with
    ⟨lives, moves, represented, exclusive⟩
  exact ⟨final, lives, executes_of_execute executed, moves, represented, exclusive⟩

end Deployment

end Closed

end OrcaValidator
