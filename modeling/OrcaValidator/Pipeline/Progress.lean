import OrcaValidator.Library.Progress
import OrcaValidator.Pipeline.Ownership

/-!
# Every run finishes

The service in Redis mode is a deployment of one API process and its workers, so that the
lives of its runs are those of a deployment.  As long as no id is lost, no process stops and no
statement of a call fails, each accepted upload is carried to its result: its push is made, the
list is popped from the other end, a worker with all its permits in tasks gets one back when a
task ends, and a task has only so many statements left.
-/

namespace OrcaValidator

open Library System

/-! ## A call that stands where its run stands -/

namespace Call

/-- The statements that are left to the call, the release of its task counted. -/
def left : Call → ℕ
  | .started => 8
  | .readRun .. => 7
  | .readDocument .. => 6
  | .driving => 5
  | .decided _ => 4
  | .reloadedRun .. => 3
  | .reloadedDocument .. => 2
  | .returned | .finished => 1

/-- The call has not given its run up: it ends with the run's result. -/
def Attends (life : Lifecycle) : Call → Prop
  | .returned => False
  | .finished => ∃ result, life = .finished result
  | _ => True

theorem Attends.persists {call : Call} {life life' : Lifecycle}
    (attends : call.Attends life)
    (final : ∀ result, life = .finished result → life' = .finished result) :
    call.Attends life' := by
  cases call with
  | returned => exact attends.elim
  | finished =>
      rcases attends with ⟨result, finished⟩
      exact ⟨result, final result finished⟩
  | _ => trivial

end Call

/-- The statement saves a snapshot. -/
def CallStep.saves : CallStep → Bool
  | .saveSnapshot .. => true
  | _ => false

/-- The step takes the task further: a statement of its call other than a snapshot, or its
release. -/
def ServiceStep.Advances {Worker Task : Type} (task : Task) : ServiceStep Worker Task → Prop
  | .call stepping label => stepping = task ∧ label.saves = false
  | .release released => released = task
  | _ => False

section Calls

variable [Interpreter] {before after : Database ContractState} {lives : UUID → Lifecycle}
  {runId : UUID} {call next : Call} {label : CallStep}

/-- A statement that does not fail takes the call one further, unless it saves a snapshot. -/
theorem Call.left_of_step (represented : Represented before lives)
    (faithful : call.Faithful before runId (lives runId))
    (taken : Call.step runId before call label = some (after, next)) (noFail : label ≠ .fail) :
    (label.saves = true ∧ next = .driving ∧ call = .driving) ∨
      (label.saves = false ∧ next.left + 1 = call.left ∧ next ≠ .returned ∧
        (next = .finished → ∃ result, call.move runId label = some (.finish runId result))) := by
  cases call with
  | started =>
      cases label with
      | readRun =>
          cases taken
          have queued : lives runId = .queued := faithful
          have rows := represented.rows runId
          rw [queued] at rows
          rcases rows.rows rfl with ⟨run, _, found, _, status, _⟩
          have claimable : run.status.Claimable := by
            rw [status]
            decide
          rw [found, afterRun, dif_pos claimable]
          exact .inr ⟨rfl, rfl, by rintro ⟨⟩, by rintro ⟨⟩⟩
      | fail => exact absurd rfl noFail
      | _ => cases taken
  | readRun run claimable =>
      cases label with
      | readDocument =>
          cases taken
          rcases (represented.rows runId).of_runs faithful.2 with ⟨document, documentRow, _⟩
          rw [documentRow]
          exact .inr ⟨rfl, rfl, by rintro ⟨⟩, by rintro ⟨⟩⟩
      | fail => exact absurd rfl noFail
      | _ => cases taken
  | readDocument run claimable document =>
      cases label with
      | commitClaim =>
          cases taken
          exact .inr ⟨rfl, rfl, by rintro ⟨⟩, by rintro ⟨⟩⟩
      | fail => exact absurd rfl noFail
      | _ => cases taken
  | driving =>
      cases label with
      | saveSnapshot key row =>
          cases taken
          exact .inl ⟨rfl, rfl, rfl⟩
      | decide result =>
          cases taken
          exact .inr ⟨rfl, rfl, by rintro ⟨⟩, by rintro ⟨⟩⟩
      | fail => exact absurd rfl noFail
      | _ => cases taken
  | decided result =>
      cases label with
      | reloadRun =>
          cases taken
          have running : lives runId = .running := faithful
          have rows := represented.rows runId
          rw [running] at rows
          rcases rows.rows rfl with ⟨run, _, found, _⟩
          rw [found]
          exact .inr ⟨rfl, rfl, by rintro ⟨⟩, by rintro ⟨⟩⟩
      | fail => exact absurd rfl noFail
      | _ => cases taken
  | reloadedRun result run =>
      cases label with
      | reloadDocument =>
          cases taken
          rcases (represented.rows runId).of_runs faithful.2 with ⟨document, documentRow, _⟩
          rw [documentRow]
          exact .inr ⟨rfl, rfl, by rintro ⟨⟩, by rintro ⟨⟩⟩
      | fail => exact absurd rfl noFail
      | _ => cases taken
  | reloadedDocument result run document =>
      cases label with
      | commitResult =>
          rcases represented.finishes faithful.1 faithful.2.1 faithful.2.2 result with
            ⟨stored, committed, _⟩
          rw [step, committed] at taken
          cases taken
          exact .inr ⟨rfl, rfl, by rintro ⟨⟩, fun _ => ⟨result, rfl⟩⟩
      | fail => exact absurd rfl noFail
      | _ => cases taken
  | returned => cases taken
  | finished => cases taken

end Calls

/-! ## The service as a deployment -/

namespace Service

section Model

variable [Interpreter] {Content Definition Worker Task : Type} [DecidableEq Worker]
  [DecidableEq Task] {tools : MachineTools Content Definition}

/-- The service as what its processes make of it: `none` is the API process. -/
def deployed (api : ServerProcess tools) (workers : Worker → ServerProcess tools)
    (service : Service Worker Task) : Deployment tools (Option Worker) Task where
  db := service.db
  queue := service.queue
  processes := fun process => some ((process.map workers).getD api)
  submitted := fun process => if process = none then service.pushing else []
  tasks := fun task => (service.tasks task).map fun entry =>
    ⟨some entry.worker, entry.runId, entry.call⟩

variable {api : ServerProcess tools} {workers : Worker → ServerProcess tools}
  {before after : Service Worker Task} {label : ServiceStep Worker Task}

omit [DecidableEq Worker] in
theorem deployed_setTask (service : Service Worker Task) (task : Task)
    (entry : Option (RunTask Worker)) : (service.setTask task entry).deployed api workers =
      (service.deployed api workers).setTask task
        (entry.map fun entry => ⟨some entry.worker, entry.runId, entry.call⟩) := by
  have tasks : ((service.setTask task entry).deployed api workers).tasks =
      ((service.deployed api workers).setTask task
        (entry.map fun entry => ⟨some entry.worker, entry.runId, entry.call⟩)).tasks := by
    funext other
    by_cases same : other = task <;> simp [deployed, setTask, Deployment.setTask, same]
  exact congrArg (fun tasks => ({ service.deployed api workers with tasks := tasks } :
    Deployment tools (Option Worker) Task)) tasks

omit [DecidableEq Task] in
theorem deployed_setPushing (service : Service Worker Task) (runs : List UUID) :
    deployed api workers { service with pushing := runs } =
      (service.deployed api workers).setSubmitted none runs := by
  have submitted : (deployed api workers { service with pushing := runs }).submitted =
      ((service.deployed api workers).setSubmitted none runs).submitted := by
    funext other
    by_cases same : other = none <;> simp [deployed, Deployment.setSubmitted, same]
  exact congrArg (fun submitted => ({ service.deployed api workers with submitted := submitted } :
    Deployment tools (Option Worker) Task)) submitted

omit [DecidableEq Worker] [DecidableEq Task] in
theorem tasks_deployed {service : Service Worker Task} {task : Task} {entry : RunTask Worker}
    (running : service.tasks task = some entry) : (service.deployed api workers).tasks task =
      some ⟨some entry.worker, entry.runId, entry.call⟩ := by
  simp [deployed, running]

/-- What a step of the service is in the deployment. -/
def deployedLabel : ServiceStep Worker Task → Option (DeploymentStep Content (Option Worker) Task)
  | .submit upload documentId runId => some (.submit none upload documentId runId)
  | .push runId reply => some (.push none runId reply)
  | .dequeue worker task reply => some (.dequeue (some worker) task reply)
  | .call task label => some (.call task label)
  | .release task => some (.release task)
  | .acquire _ | .wake _ => none

/-- A step of the service is a step of the deployment, or none. -/
theorem deployed_step (redis : api.startup.kind = .api true)
    (kinds : ∀ worker, (workers worker).startup.kind = .worker)
    (taken : step api.verified before label = some after) :
    (∀ label', deployedLabel label = some label' →
      Deployment.step (before.deployed api workers) label' = some (after.deployed api workers)) ∧
      (deployedLabel label = (none : Option (DeploymentStep Content (Option Worker) Task)) →
        after.deployed api workers = before.deployed api workers) := by
  cases label with
  | submit upload documentId runId =>
      refine ⟨?_, by rintro ⟨⟩⟩
      rintro _ ⟨⟩
      rw [step] at taken
      split at taken
      · next fresh =>
          have ready : api.startup.kind ≠ .worker ∧ before.db.documents documentId = none ∧
              before.db.runs runId = none := by simpa [redis] using fresh
          rw [Deployment.step]
          simp only [deployed, Option.map_none, Option.getD_none, ready, and_self,
            not_false_eq_true, if_true, ne_eq]
          cases stored : submitDocument api.verified upload documentId runId before.db with
          | error refused =>
              rw [stored] at taken
              cases taken
              rfl
          | ok db =>
              rw [stored] at taken
              cases taken
              exact congrArg some (deployed_setPushing { before with db := db } _).symm
      · cases taken
  | push runId reply =>
      refine ⟨?_, by rintro ⟨⟩⟩
      rintro _ ⟨⟩
      rw [step] at taken
      split at taken
      · next submitted =>
          cases taken
          have ready : (before.deployed api workers).kind none = some (.api true) ∧
              runId ∈ (before.deployed api workers).submitted none := by
            simpa [Deployment.kind, deployed, redis] using submitted
          rw [Deployment.step, if_pos ready]
          exact congrArg some (deployed_setPushing
            { before with queue := (enqueue runId reply before.queue).2 } _).symm
      · cases taken
  | acquire worker =>
      rw [step] at taken
      split at taken
      · cases taken
        exact ⟨by rintro _ ⟨⟩, fun _ => rfl⟩
      · cases taken
  | dequeue worker task reply =>
      refine ⟨?_, by rintro ⟨⟩⟩
      rintro _ ⟨⟩
      rw [step] at taken
      split at taken
      · next ready =>
          rcases Option.map_eq_some_iff.mp taken with ⟨⟨outcome, rest⟩, dequeued, rfl⟩
          have free : (before.deployed api workers).kind (some worker) = some .worker ∧
              ((before.deployed api workers).tasks task).isNone := by
            simpa [Deployment.kind, deployed, kinds worker] using ready.2
          rw [Deployment.step, if_pos free]
          refine Option.map_eq_some_iff.mpr ⟨(outcome, rest), dequeued, ?_⟩
          rcases outcome with error | _ | runId
          · rfl
          · rfl
          · exact (deployed_setTask { before with queue := rest } task
              (some ⟨worker, runId, .started⟩)).symm
      · cases taken
  | wake worker =>
      rw [step] at taken
      split at taken
      · cases taken
        exact ⟨by rintro _ ⟨⟩, fun _ => rfl⟩
      · cases taken
  | call task label =>
      refine ⟨?_, by rintro ⟨⟩⟩
      rintro _ ⟨⟩
      rw [step] at taken
      split at taken
      · cases taken
      · next entry running =>
          split at taken
          · cases taken
          · rcases Option.map_eq_some_iff.mp taken with ⟨⟨db, call⟩, stepped, rfl⟩
            rw [Deployment.step, tasks_deployed running]
            refine Option.map_eq_some_iff.mpr ⟨(db, call), stepped, ?_⟩
            exact (deployed_setTask { before with db := db } task
              (some { entry with call := call })).symm
  | release task =>
      refine ⟨?_, by rintro ⟨⟩⟩
      rintro _ ⟨⟩
      rw [step] at taken
      split at taken
      · cases taken
      · next entry running =>
          split at taken
          · next ended =>
              cases taken
              rw [Deployment.step, tasks_deployed running]
              simp only [ended, if_true]
              exact congrArg some (deployed_setTask before task none).symm
          · cases taken

/-! ## What every step keeps -/

/-- A service in which nothing has been submitted. -/
structure Blank (concurrency : ℕ) (service : Service Worker Task) : Prop
    extends Idle concurrency service where
  runs : ∀ id, service.db.runs id = none
  documentRows : ∀ id, service.db.documents id = none
  results : ∀ id, service.db.results id = none

variable (api workers) in
/-- The runs live as those of the deployment do, and no task has given its run up. -/
structure Steady (service : Service Worker Task) (lives : UUID → Lifecycle) : Prop where
  orderly : (service.deployed api workers).Orderly lives
  attends : ∀ {task entry}, service.tasks task = some entry →
    entry.call.Attends (lives entry.runId)

/-- The worker has a permit, or is about to pop with one. -/
def Ready (worker : Worker) (service : Service Worker Task) : Prop :=
  0 < (service.loops worker).permits ∨ (service.loops worker).phase = .dequeuing

/-- A worker without a permit has a task. -/
def Staffed (service : Service Worker Task) : Prop :=
  ∀ worker, service.Ready worker ∨ ∃ task entry, service.tasks task = some entry ∧
    entry.worker = worker

omit [DecidableEq Worker] [DecidableEq Task] in
theorem Blank.steady {concurrency : ℕ} (blank : Blank concurrency before) :
    Steady api workers before fun _ => .absent := by
  have empty : Deployment.Blank (show Deployment tools (Option Worker) Task from
      { before.deployed api workers with processes := fun _ => none }) := by
    refine ⟨⟨blank.runs, ?_, fun _ => rfl, ?_, ?_⟩, blank.documentRows, blank.results⟩
    · refine List.eq_nil_iff_forall_not_mem.mpr fun id member => ?_
      rcases (blank.queue id).mp member with ⟨run, found, _⟩
      rw [blank.runs id] at found
      cases found
    · intro process
      simp [deployed, blank.pushing]
    · intro task
      simp [deployed, blank.tasks task]
  have orderly := empty.orderly
  refine ⟨⟨orderly.exclusive, orderly.represented, orderly.waiting, orderly.faithful,
    orderly.known⟩, ?_⟩
  intro task entry found
  rw [blank.tasks task] at found
  cases found

/-- The lives go on with a step of the service, and what has finished stays finished. -/
theorem Steady.lives {lives : UUID → Lifecycle} (steady : Steady api workers before lives)
    (redis : api.startup.kind = .api true)
    (kinds : ∀ worker, (workers worker).startup.kind = .worker)
    (taken : step api.verified before label = some after) :
    ∃ lives', (after.deployed api workers).Orderly lives' ∧
      (∀ id result, lives id = .finished result → lives' id = .finished result) ∧
      ∀ task entry label', label = .call task label' → before.tasks task = some entry →
        ∀ move, entry.call.move entry.runId label' = some move →
          Lifecycle.step lives move = some lives' := by
  rcases deployed_step redis kinds taken with ⟨stepped, stayed⟩
  cases named : (deployedLabel label :
      Option (DeploymentStep Content (Option Worker) Task)) with
  | none =>
      refine ⟨lives, stayed named ▸ steady.orderly, fun _ _ finished => finished, ?_⟩
      rintro task entry label' rfl
      cases named
  | some label' =>
      rcases steady.orderly.step (stepped label' named) with ⟨lives', moved, kept, orderly⟩
      refine ⟨lives', orderly, ?_, ?_⟩
      · intro id result finished
        cases move : (before.deployed api workers).move label' with
        | none => rwa [kept move]
        | some step => exact Lifecycle.finished_of_step (moved step move) finished
      · rintro task entry label rfl running move is
        cases named
        refine moved move ?_
        rw [Deployment.move, tasks_deployed running]
        exact is

theorem Steady.step {lives : UUID → Lifecycle} (steady : Steady api workers before lives)
    (redis : api.startup.kind = .api true)
    (kinds : ∀ worker, (workers worker).startup.kind = .worker)
    (taken : Service.step api.verified before label = some after) :
    ∃ lives', Steady api workers after lives' ∧
      ∀ id result, lives id = .finished result → lives' id = .finished result := by
  rcases steady.lives redis kinds taken with ⟨lives', orderly, final, moved⟩
  refine ⟨lives', ⟨orderly, ?_⟩, final⟩
  have unchanged {task entry} (found : before.tasks task = some entry) :
      entry.call.Attends (lives' entry.runId) :=
    (steady.attends found).persists (final entry.runId)
  intro task entry found
  cases moves_of_step taken with
  | quiet _ _ _ _ tasks => exact unchanged (tasks ▸ found)
  | submits _ _ _ _ _ tasks => exact unchanged (tasks ▸ found)
  | pushes _ _ _ _ tasks => exact unchanged (tasks ▸ found)
  | loses _ _ _ _ tasks => exact unchanged (tasks ▸ found)
  | @hands worker started reply runId _ _ _ _ _ _ tasks =>
      rw [tasks] at found
      by_cases same : task = started
      · subst same
        rw [Function.update_self] at found
        cases found
        trivial
      · rw [Function.update_of_ne same] at found
        exact unchanged found
  | @calls stepping label' old call _ running noFail stepped _ _ tasks =>
      rw [tasks] at found
      by_cases same : task = stepping
      · subst same
        rw [Function.update_self] at found
        cases found
        have faithful := steady.orderly.faithful (tasks_deployed running)
        rcases Call.left_of_step steady.orderly.represented faithful stepped noFail with
          ⟨_, rfl, _⟩ | ⟨_, _, noReturn, finishes⟩
        · trivial
        · cases call with
          | returned => exact absurd rfl noReturn
          | finished =>
              rcases finishes rfl with ⟨result, move⟩
              have next := moved task old label' rfl running _ move
              rcases Lifecycle.step_cases next with ⟨_, ⟨⟩, _⟩ | ⟨_, ⟨⟩, _⟩ | ⟨_, _, ⟨⟩, _, rfl⟩
              exact ⟨result, Function.update_self ..⟩
          | _ => trivial
      · rw [Function.update_of_ne same] at found
        exact unchanged found
  | @releases released _ _ _ _ _ _ _ tasks =>
      rw [tasks] at found
      by_cases same : task = released
      · simp [same] at found
      · rw [Function.update_of_ne same] at found
        exact unchanged found

/-! ## What a step does to a worker, a task and the list -/

/-- The id at the end of the list goes to a new task of the worker. -/
def Pops (worker : Worker) (before after : Service Worker Task) : Prop :=
  ∃ task runId, before.queue = after.queue ++ [runId] ∧
    after.tasks = Function.update before.tasks task (some ⟨worker, runId, .started⟩)

theorem pops_of_item {verified : Dict Text Text} {worker : Worker} {task : Task}
    (taken : Service.step verified before (.dequeue worker task .item) = some after) :
    Pops worker before after := by
  rw [Service.step] at taken
  split at taken
  · rcases Option.map_eq_some_iff.mp taken with ⟨⟨outcome, rest⟩, dequeued, rfl⟩
    rcases Option.map_eq_some_iff.mp dequeued with ⟨runId, last, ⟨⟩⟩
    exact ⟨task, runId, (List.dropLast_append_getLast? runId last).symm, rfl⟩
  · cases taken

/-- A worker that has a permit keeps one until it pops. -/
theorem ready_of_step {verified : Dict Text Text} {worker : Worker}
    (taken : Service.step verified before label = some after) (ready : before.Ready worker) :
    after.Ready worker ∨ Pops worker before after := by
  cases label with
  | submit upload documentId runId =>
      rw [Service.step] at taken
      split at taken
      · split at taken <;>
          · cases taken
            exact .inl ready
      · cases taken
  | push runId reply =>
      rw [Service.step] at taken
      split at taken
      · cases taken
        exact .inl ready
      · cases taken
  | acquire other =>
      rw [Service.step] at taken
      split at taken
      · cases taken
        by_cases same : worker = other
        · exact .inl (.inr (by simp [setLoop, same]))
        · exact .inl (by simpa [Ready, setLoop, same] using ready)
      · cases taken
  | dequeue other task reply =>
      rw [Service.step] at taken
      split at taken
      · rcases Option.map_eq_some_iff.mp taken with ⟨⟨outcome, rest⟩, dequeued, rfl⟩
        rcases dequeue_cases dequeued with ⟨runId, _, rfl, queue⟩ | ⟨nothing, _⟩
        · by_cases same : worker = other
          · subst same
            exact .inr ⟨task, runId, queue, rfl⟩
          · exact .inl (by simpa [Ready, afterDequeue, setLoop, setTask, same] using ready)
        · left
          by_cases same : worker = other
          · left
            rcases outcome with error | _ | runId
            · simp [afterDequeue, setLoop, same]
            · simp [afterDequeue, setLoop, same]
            · exact absurd rfl (nothing runId)
          · rcases outcome with error | _ | runId
            · simpa [Ready, afterDequeue, setLoop, same] using ready
            · simpa [Ready, afterDequeue, setLoop, same] using ready
            · exact absurd rfl (nothing runId)
      · cases taken
  | wake other =>
      rw [Service.step] at taken
      split at taken
      · next sleeping =>
          cases taken
          left
          by_cases same : worker = other
          · subst same
            have permit := ready.resolve_right (by simp [sleeping])
            exact .inl (by simpa [setLoop] using permit)
          · simpa [Ready, setLoop, same] using ready
      · cases taken
  | call task label =>
      rw [Service.step] at taken
      split at taken
      · cases taken
      · split at taken
        · cases taken
        · rcases Option.map_eq_some_iff.mp taken with ⟨⟨db, call⟩, _, rfl⟩
          exact .inl ready
  | release task =>
      rw [Service.step] at taken
      split at taken
      · cases taken
      · next entry running =>
          split at taken
          · cases taken
            left
            by_cases same : worker = entry.worker
            · exact .inl (by simp [releasePermit, setLoop, same])
            · simpa [Ready, releasePermit, setLoop, setTask, same] using ready
          · cases taken

theorem ready_of_release {verified : Dict Text Text} {task : Task} {entry : RunTask Worker}
    (taken : Service.step verified before (.release task) = some after)
    (running : before.tasks task = some entry) :
    entry.call.ended = true ∧ after.Ready entry.worker := by
  rw [Service.step, running] at taken
  dsimp only at taken
  split at taken
  · next ended =>
      cases taken
      exact ⟨ended, .inl (by simp [releasePermit, setLoop])⟩
  · cases taken

/-- A task stays until it is released, and only its own steps take it further. -/
theorem tasks_of_step {verified : Dict Text Text} {task : Task} {entry : RunTask Worker}
    (taken : Service.step verified before label = some after)
    (running : before.tasks task = some entry) :
    label = .release task ∨ ∃ call, after.tasks task = some { entry with call := call } ∧
      ((call = entry.call ∧ ∀ label', label ≠ .call task label') ∨
        ∃ label', label = .call task label' ∧ label' ≠ .fail ∧
          Call.step entry.runId before.db entry.call label' = some (after.db, call)) := by
  have kept (tasks : after.tasks task = before.tasks task)
      (other : ∀ label', label ≠ .call task label') : ∃ call,
      after.tasks task = some { entry with call := call } ∧
        ((call = entry.call ∧ ∀ label', label ≠ .call task label') ∨
          ∃ label', label = .call task label' ∧ label' ≠ .fail ∧
            Call.step entry.runId before.db entry.call label' = some (after.db, call)) :=
    ⟨entry.call, tasks.trans running, .inl ⟨rfl, other⟩⟩
  cases label with
  | release released =>
      by_cases same : released = task
      · exact .inl (by rw [same])
      · refine .inr (kept ?_ (by rintro _ ⟨⟩))
        rw [Service.step] at taken
        split at taken
        · cases taken
        · split at taken
          · cases taken
            simp [releasePermit, setLoop, setTask, Ne.symm same]
          · cases taken
  | call stepping label' =>
      right
      rw [Service.step] at taken
      split at taken
      · cases taken
      · next old present =>
          split at taken
          · cases taken
          · next works =>
              rcases Option.map_eq_some_iff.mp taken with ⟨⟨db, call⟩, stepped, rfl⟩
              by_cases same : stepping = task
              · subst same
                obtain rfl := Option.some.inj (present.symm.trans running)
                refine ⟨call, by simp [setTask], .inr ⟨label', rfl, ?_, stepped⟩⟩
                rintro rfl
                exact works rfl
              · refine kept (by simp [setTask, Ne.symm same]) ?_
                rintro _ ⟨⟩
                exact same rfl
  | dequeue worker started reply =>
      refine .inr (kept ?_ (by rintro _ ⟨⟩))
      rw [Service.step] at taken
      split at taken
      · next ready =>
          have differ : task ≠ started := by
            rintro rfl
            simp [running] at ready
          rcases Option.map_eq_some_iff.mp taken with ⟨⟨outcome, rest⟩, _, rfl⟩
          rcases outcome with error | _ | runId
          · rfl
          · rfl
          · simp [afterDequeue, setLoop, setTask, differ]
      · cases taken
  | submit upload documentId runId =>
      refine .inr (kept ?_ (by rintro _ ⟨⟩))
      rw [Service.step] at taken
      split at taken
      · split at taken <;>
          · cases taken
            rfl
      · cases taken
  | push runId reply =>
      refine .inr (kept ?_ (by rintro _ ⟨⟩))
      rw [Service.step] at taken
      split at taken
      · cases taken
        rfl
      · cases taken
  | acquire worker =>
      refine .inr (kept ?_ (by rintro _ ⟨⟩))
      rw [Service.step] at taken
      split at taken
      · cases taken
        rfl
      · cases taken
  | wake worker =>
      refine .inr (kept ?_ (by rintro _ ⟨⟩))
      rw [Service.step] at taken
      split at taken
      · cases taken
        rfl
      · cases taken

theorem Staffed.step {verified : Dict Text Text} (staffed : Staffed before)
    (taken : Service.step verified before label = some after) : Staffed after := by
  intro worker
  rcases staffed worker with ready | ⟨task, entry, running, rfl⟩
  · rcases ready_of_step taken ready with ready' | ⟨task, runId, _, tasks⟩
    · exact .inl ready'
    · exact .inr ⟨task, _, tasks ▸ Function.update_self .., rfl⟩
  · rcases tasks_of_step taken running with rfl | ⟨call, found, _⟩
    · exact .inl (ready_of_release taken running).2
    · exact .inr ⟨task, _, found, rfl⟩

omit [Interpreter] [DecidableEq Task] [DecidableEq Worker] in
theorem Idle.staffed {concurrency : ℕ} (idle : Idle concurrency before)
    (positive : 0 < concurrency) : Staffed before :=
  fun worker => .inl (.inl (by rw [idle.loops worker]; exact positive))

/-! ## The way of a run -/

/-- The id is in the list, with so many others to be popped before it. -/
def Behind (runId : UUID) (others : ℕ) (service : Service Worker Task) : Prop :=
  ∃ front back, service.queue = front ++ runId :: back ∧ back.length = others

/-- The task of the worker has the run, and so many statements left. -/
def Holds (worker : Worker) (runId : UUID) (task : Task) (left : ℕ)
    (service : Service Worker Task) : Prop :=
  ∃ call, service.tasks task = some ⟨worker, runId, call⟩ ∧ call.left = left

/-- The id is nearer to its turn, or a task has it. -/
def Nearer (runId : UUID) (others : ℕ) (service : Service Worker Task) : Prop :=
  (∃ worker task, service.Holds worker runId task 8) ∨ ∃ fewer, fewer < others ∧ service.Behind runId fewer

omit [Interpreter] [DecidableEq Worker] in
theorem Behind.nearer {worker : Worker} {runId : UUID} {others : ℕ}
    (behind : before.Behind runId others) (pops : Pops worker before after) :
    after.Nearer runId others := by
  rcases behind with ⟨front, back, queue, rfl⟩
  rcases pops with ⟨task, popped, queue', tasks⟩
  rw [queue] at queue'
  rcases List.eq_nil_or_concat back with rfl | ⟨init, last, rfl⟩
  · rcases List.append_inj' queue' rfl with ⟨_, same⟩
    cases same
    exact .inl ⟨worker, task, _, tasks ▸ Function.update_self .., rfl⟩
  · have split : (front ++ runId :: init) ++ [last] = after.queue ++ [popped] := by
      rw [← queue']
      simp
    rcases List.append_inj' split rfl with ⟨rest, _⟩
    exact .inr ⟨init.length, by simp, front, init, rest.symm, rfl⟩

/-- No one gets in before an id. -/
theorem Behind.step {verified : Dict Text Text} {runId : UUID} {others : ℕ}
    (behind : before.Behind runId others) (delivered : label.Delivered)
    (taken : Service.step verified before label = some after) :
    after.Nearer runId others ∨ after.Behind runId others := by
  have same (queue : after.queue = before.queue) : after.Behind runId others := by
    rcases behind with ⟨front, back, split, count⟩
    exact ⟨front, back, queue.trans split, count⟩
  cases moves_of_step taken with
  | quiet _ _ queue _ _ => exact .inr (same queue)
  | submits _ _ _ queue _ _ => exact .inr (same queue)
  | calls _ _ _ queue _ _ => exact .inr (same queue)
  | releases _ _ _ queue _ _ => exact .inr (same queue)
  | @pushes pushed reply _ _ _ queue _ _ =>
      right
      cases stored : reply.stored with
      | false => exact same (by simpa [stored] using queue)
      | true =>
          rw [if_pos stored] at queue
          rcases behind with ⟨front, back, split, count⟩
          exact ⟨pushed :: front, back, by rw [queue, split]; rfl, count⟩
  | @hands worker task _ popped _ _ _ _ queue _ tasks =>
      exact .inl (behind.nearer ⟨task, popped, queue, tasks⟩)
  | loses lost =>
      rw [ServiceStep.Delivered, lost] at delivered
      cases delivered

/-- What a step leaves of a task: it is as far as it was, or one statement further. -/
theorem Steady.advances {lives : UUID → Lifecycle} (steady : Steady api workers before lives)
    {verified : Dict Text Text} (taken : Service.step verified before label = some after)
    {task : Task} {entry : RunTask Worker} (running : before.tasks task = some entry) :
    label = .release task ∨ ∃ call, after.tasks task = some { entry with call := call } ∧
      ((call.left = entry.call.left ∧ ¬label.Advances task) ∨ call.left + 1 = entry.call.left) := by
  rcases tasks_of_step taken running with released | ⟨call, found, ⟨rfl, other⟩ |
    ⟨label', rfl, noFail, stepped⟩⟩
  · exact .inl released
  · by_cases released : label = .release task
    · exact .inl released
    · refine .inr ⟨entry.call, found, .inl ⟨rfl, ?_⟩⟩
      cases label with
      | call stepping label' =>
          rintro ⟨rfl, _⟩
          exact other label' rfl
      | release task' =>
          rintro rfl
          exact released rfl
      | _ => exact id
  · refine .inr ⟨call, found, ?_⟩
    have faithful := steady.orderly.faithful (tasks_deployed running)
    rcases Call.left_of_step steady.orderly.represented faithful stepped noFail with
      ⟨saves, rfl, old⟩ | ⟨_, less, _⟩
    · have old : entry.call = .driving := old
      refine .inl ⟨by rw [old], ?_⟩
      rintro ⟨_, noSave⟩
      rw [saves] at noSave
      cases noSave
    · exact .inr less

/-- A submitted run stays with its request until it is pushed. -/
theorem pushes_of_step {verified : Dict Text Text} {runId : UUID}
    (submitted : runId ∈ before.pushing) (delivered : label.Delivered)
    (taken : Service.step verified before label = some after) :
    runId ∈ after.queue ∨ (runId ∈ after.pushing ∧ ∀ reply, label ≠ .push runId reply) := by
  by_cases pushed : ∃ reply, label = .push runId reply
  · rcases pushed with ⟨reply, rfl⟩
    have stored : reply.stored = true := delivered
    rw [Service.step, if_pos submitted] at taken
    cases taken
    exact .inl (by simp [enqueue, stored])
  · refine .inr ⟨?_, not_exists.mp pushed⟩
    cases moves_of_step taken with
    | quiet _ _ _ pushing _ => exact pushing ▸ submitted
    | submits _ _ _ _ pushing _ => exact pushing ▸ List.mem_cons_of_mem _ submitted
    | hands _ _ _ _ pushing _ => exact pushing ▸ submitted
    | loses _ _ _ pushing _ => exact pushing ▸ submitted
    | calls _ _ _ _ pushing _ => exact pushing ▸ submitted
    | releases _ _ _ _ pushing _ => exact pushing ▸ submitted
    | @pushes other reply _ _ _ _ pushing _ =>
        have differ : runId ≠ other := by
          rintro rfl
          exact pushed ⟨reply, rfl⟩
        exact pushing ▸ (List.mem_erase_of_ne differ).mpr submitted

/-! ## Behaviours -/

/-- No id is lost, and what the service could go on doing it does: a request pushes its run, a
worker with a permit gets an id while there are any, and a task takes its next statement. -/
structure Serves {verified : Dict Text Text} {concurrency : ℕ}
    (behaviour : (system verified concurrency : System (Service Worker Task) _).Behaviour) :
    Prop where
  delivered : ∀ time, (behaviour.label time).Delivered
  push : ∀ runId, behaviour.Fair (fun service => runId ∈ service.pushing)
    fun label => ∃ reply, label = .push runId reply
  pop : behaviour.Fair (fun service => service.queue ≠ [] ∧ ∃ worker, service.Ready worker)
    fun label => ∃ worker task, label = .dequeue worker task .item
  task : ∀ task, behaviour.Fair (fun service => service.tasks task ≠ none)
    (ServiceStep.Advances task)

section Behaviours

variable {concurrency : ℕ}
  {behaviour : (system api.verified concurrency : System (Service Worker Task) _).Behaviour}

theorem taken_of_label {time : ℕ} (named : behaviour.label time = label) :
    Service.step api.verified (behaviour.state time) label = some (behaviour.state (time + 1)) :=
  named ▸ behaviour.taken time

/-- A submitted run gets into the list. -/
theorem Serves.queued (serves : Serves behaviour) (runId : UUID) :
    behaviour.LeadsTo (fun service => runId ∈ service.pushing)
      fun service => runId ∈ service.queue := by
  have step (time : ℕ) (submitted : runId ∈ (behaviour.state time).pushing) :=
    pushes_of_step submitted (serves.delivered time) (behaviour.taken time)
  refine Behaviour.leadsTo_of_fair (serves.push runId) id ?_ ?_
  · exact fun submitted => (step _ submitted).imp_right And.left
  · rintro time submitted ⟨reply, pushed⟩
    exact (step time submitted).resolve_right fun stays => stays.2 reply pushed

variable (workers) in
/-- The run has its result. -/
def Finished (api : ServerProcess tools) (runId : UUID) (service : Service Worker Task) : Prop :=
  ∃ lives result, Steady api workers service lives ∧ lives runId = .finished result

theorem Finished.step {runId : UUID} (finished : Finished workers api runId before)
    (redis : api.startup.kind = .api true)
    (kinds : ∀ worker, (workers worker).startup.kind = .worker)
    (taken : Service.step api.verified before label = some after) :
    Finished workers api runId after := by
  rcases finished with ⟨lives, result, steady, finished⟩
  rcases steady.step redis kinds taken with ⟨lives', steady', final⟩
  exact ⟨lives', result, steady', final runId result finished⟩

omit [DecidableEq Worker] [DecidableEq Task] in
theorem Steady.finished {lives : UUID → Lifecycle} (steady : Steady api workers before lives)
    {task : Task} {entry : RunTask Worker} (running : before.tasks task = some entry)
    (ended : entry.call.ended = true) : Finished workers api entry.runId before := by
  have attends := steady.attends running
  cases at_end : entry.call with
  | returned =>
      rw [at_end] at attends
      exact attends.elim
  | finished =>
      rw [at_end] at attends
      rcases attends with ⟨result, finished⟩
      exact ⟨lives, result, steady, finished⟩
  | _ =>
      rw [at_end] at ended
      cases ended

/-- A task ends with the result of its run, and gives its permit back. -/
theorem Serves.released (serves : Serves behaviour) (redis : api.startup.kind = .api true)
    (kinds : ∀ worker, (workers worker).startup.kind = .worker)
    (steady : ∀ time, ∃ lives, Steady api workers (behaviour.state time) lives)
    (worker : Worker) (runId : UUID) (task : Task) (left : ℕ) :
    behaviour.LeadsTo (Holds worker runId task left)
      fun service => service.Ready worker ∧ Finished workers api runId service := by
  refine Behaviour.leadsTo_of_rank (Holds worker runId task) ?_ left
  clear left
  intro left
  have released {time : ℕ} {call : Call} (isRelease : behaviour.label time = .release task)
      (running : (behaviour.state time).tasks task = some ⟨worker, runId, call⟩) :
      (behaviour.state (time + 1)).Ready worker ∧
        Finished workers api runId (behaviour.state (time + 1)) := by
    have taken := taken_of_label isRelease
    rcases ready_of_release taken running with ⟨ended, ready⟩
    rcases steady time with ⟨lives, steady⟩
    exact ⟨ready, (steady.finished running ended).step redis kinds taken⟩
  refine Behaviour.leadsTo_of_fair (serves.task task) ?_ ?_ ?_
  · rintro time ⟨call, running, _⟩
    simp [running]
  · rintro time ⟨call, running, rfl⟩
    rcases steady time with ⟨lives, steady⟩
    rcases steady.advances (behaviour.taken time) running with isRelease |
      ⟨call', found, ⟨same, _⟩ | less⟩
    · exact .inl (.inl (released isRelease running))
    · exact .inr ⟨call', found, same⟩
    · exact .inl (.inr ⟨call'.left, Nat.lt_of_succ_le (Nat.le_of_eq less), call', found, rfl⟩)
  · rintro time ⟨call, running, rfl⟩ advances
    rcases steady time with ⟨lives, steady⟩
    rcases steady.advances (behaviour.taken time) running with isRelease |
      ⟨call', found, ⟨_, waits⟩ | less⟩
    · exact .inl (released isRelease running)
    · exact absurd advances waits
    · exact .inr ⟨call'.left, Nat.lt_of_succ_le (Nat.le_of_eq less), call', found, rfl⟩

/-- While others are to be popped before an id, one of them is. -/
theorem Serves.nearer [Nonempty Worker] (serves : Serves behaviour)
    (redis : api.startup.kind = .api true)
    (kinds : ∀ worker, (workers worker).startup.kind = .worker)
    (steady : ∀ time, ∃ lives, Steady api workers (behaviour.state time) lives)
    (staffed : ∀ time, Staffed (behaviour.state time)) (runId : UUID) (others : ℕ) :
    behaviour.LeadsTo (Behind runId others) (Nearer runId others) := by
  have stays {time : ℕ} (behind : (behaviour.state time).Behind runId others) :=
    behind.step (serves.delivered time) (behaviour.taken time)
  have pops (worker : Worker) : behaviour.LeadsTo
      (fun service => service.Ready worker ∧ service.Behind runId others)
      (Nearer runId others) := by
    refine Behaviour.leadsTo_of_fair serves.pop ?_ ?_ ?_
    · rintro time ⟨ready, front, back, queue, _⟩
      exact ⟨by simp [queue], worker, ready⟩
    · rintro time ⟨ready, behind⟩
      rcases ready_of_step (behaviour.taken time) ready with ready' | pops
      · exact (stays behind).imp_right fun behind' => ⟨ready', behind'⟩
      · exact .inl (behind.nearer pops)
    · rintro time ⟨_, behind⟩ ⟨other, task, isPop⟩
      exact behind.nearer (pops_of_item (taken_of_label isPop))
  intro time behind
  rcases ‹Nonempty Worker› with ⟨worker⟩
  rcases staffed time worker with ready | ⟨task, entry, running, rfl⟩
  · exact pops worker time ⟨ready, behind⟩
  · have leads := (serves.released redis kinds steady entry.worker entry.runId task
      entry.call.left).with_stable stays
    refine (leads.or_trans ?_) time ⟨⟨entry.call, running, rfl⟩, behind⟩
    rintro later ⟨⟨ready, _⟩, behind'⟩
    exact pops entry.worker later ⟨ready, behind'⟩

/-- An id in the list gets to a task. -/
theorem Serves.held [Nonempty Worker] (serves : Serves behaviour)
    (redis : api.startup.kind = .api true)
    (kinds : ∀ worker, (workers worker).startup.kind = .worker)
    (steady : ∀ time, ∃ lives, Steady api workers (behaviour.state time) lives)
    (staffed : ∀ time, Staffed (behaviour.state time)) (runId : UUID) (others : ℕ) :
    behaviour.LeadsTo (Behind runId others)
      fun service => ∃ worker task, service.Holds worker runId task 8 :=
  Behaviour.leadsTo_of_rank (Behind runId)
    (serves.nearer redis kinds steady staffed runId) others

/-- As long as no id is lost, no process stops, no statement of a call fails and what can be
done is done in the end, every accepted upload gets a result, and keeps it. -/
theorem finished_of_submit [Nonempty Worker] (redis : api.startup.kind = .api true)
    (kinds : ∀ worker, (workers worker).startup.kind = .worker) (positive : 0 < concurrency)
    (blank : Blank concurrency (behaviour.state 0)) (serves : Serves behaviour) {time : ℕ}
    {upload : Upload} {documentId runId : UUID} {db : Database ContractState}
    (submits : behaviour.label time = .submit upload documentId runId)
    (accepted : submitDocument api.verified upload documentId runId (behaviour.state time).db =
      .ok db) :
    ∃ result done, ∀ later, done ≤ later →
      (behaviour.state later).db.results runId = some result ∧
        ∃ run document, (behaviour.state later).db.runs runId = some run ∧
          (behaviour.state later).db.documents run.documentId = some document ∧
          run.status = finalStatus result.verdict ∧
          document.status = finalStatus result.verdict := by
  have steady : ∀ time, ∃ lives, Steady api workers (behaviour.state time) lives := by
    refine Behaviour.always (fun service => ∃ lives, Steady api workers service lives) ?_
      ⟨_, blank.steady⟩
    rintro now ⟨lives, steady⟩
    rcases steady.step redis kinds (behaviour.taken now) with ⟨lives', steady', _⟩
    exact ⟨lives', steady'⟩
  have staffed : ∀ time, Staffed (behaviour.state time) :=
    Behaviour.always Staffed (fun staffed => staffed.step (behaviour.taken _))
      (blank.toIdle.staffed positive)
  have submitted : runId ∈ (behaviour.state (time + 1)).pushing := by
    have taken := taken_of_label submits
    rw [Service.step] at taken
    split at taken
    · rw [accepted] at taken
      rw [← Option.some.inj taken]
      exact List.mem_cons_self
    · cases taken
  rcases serves.queued runId (time + 1) submitted with ⟨pushed, _, member⟩
  rcases List.append_of_mem member with ⟨front, back, queue⟩
  rcases serves.held redis kinds steady staffed runId back.length pushed
    ⟨front, back, queue, rfl⟩ with ⟨popped, _, worker, task, holds⟩
  rcases serves.released redis kinds steady worker runId task 8 popped holds with
    ⟨done, _, _, lives, result, steady', finished⟩
  refine ⟨result, done, fun later after => ?_⟩
  have stays : ∃ lives, Steady api workers (behaviour.state later) lives ∧
      lives runId = .finished result := by
    refine Behaviour.always_from (fun service => ∃ lives,
      Steady api workers service lives ∧ lives runId = .finished result) ?_
      ⟨lives, steady', finished⟩ after
    rintro now _ ⟨lives, steady, finished⟩
    rcases steady.step redis kinds (behaviour.taken now) with ⟨lives', steady', final⟩
    exact ⟨lives', steady', final runId result finished⟩
  rcases stays with ⟨lives, steady, finished⟩
  have rows := steady.orderly.represented.rows runId
  rw [finished] at rows
  exact ⟨rows.result, rows.present _ rfl⟩

end Behaviours

end Model

section Closed

attribute [local instance] Interpreter.ascii

/-- A request, the worker and its task, from the upload to the release of the task. -/
def wholeRun : List (ServiceStep Unit Unit) :=
  [.submit sampleUpload "document".toList "run".toList, .push "run".toList .done, .acquire (),
    .dequeue () () .item, .call () .readRun, .call () .readDocument, .call () .commitClaim,
    .call () (.decide sampleResult), .call () .reloadRun, .call () .reloadDocument,
    .call () .commitResult, .release ()]

/-- An upload without content. -/
def emptyUpload : ServiceStep Unit Unit :=
  .submit { sampleUpload with data := [] } "other".toList "other".toList

/-- An empty database and one worker with one permit. -/
def blankService : Service Unit Unit where
  db := ⟨fun _ => none, fun _ => none, fun _ => none, fun _ => none⟩
  queue := []
  pushing := []
  loops := fun _ => ⟨1, .acquiring⟩
  tasks := fun _ => none

theorem blank_blankService : Blank 1 blankService := by
  refine ⟨⟨rfl, fun _ => rfl, fun _ => rfl, List.nodup_nil, fun id => ?_, ?_⟩, fun _ => rfl,
    fun _ => rfl, fun _ => rfl⟩
  · exact iff_of_false List.not_mem_nil (by rintro ⟨run, ⟨⟩, _⟩)
  · rintro id run ⟨⟩

theorem executed_wholeRun (verified : Dict Text Text) :
    ∃ final, (system verified 1).execute blankService wholeRun = some final ∧
      final.queue = [] ∧ final.pushing = [] ∧ final.tasks () = none ∧
      (system verified 1).step final emptyUpload = some final :=
  ⟨_, rfl, rfl, rfl, rfl, rfl⟩

theorem exists_process (kind : ProcessKind) :
    ∃ process : ServerProcess Deployment.sampleTools, process.startup.kind = kind := by
  have loaded : loadMachine Deployment.sampleTools (Deployment.sampleStartup kind .published) =
      .ok (.published, ⟨⟩) := rfl
  have gated : ∃ verified,
      gate Deployment.sampleTools (Deployment.sampleStartup kind .published) = .ok verified := by
    cases kind with
    | api useRedisQueue => exact ⟨_, rfl⟩
    | worker => exact ⟨_, rfl⟩
  rcases gated with ⟨verified, gated⟩
  exact ⟨⟨_, _, _, verified, loaded, gated⟩, rfl⟩

theorem finished_of_submit_wholeRun :
    ∃ (verified : Dict Text Text)
      (behaviour : (system verified 1 : System (Service Unit Unit) _).Behaviour),
      Serves behaviour ∧ ∃ result done, ∀ later, done ≤ later →
        (behaviour.state later).db.results "run".toList = some result ∧
          ∃ run document, (behaviour.state later).db.runs "run".toList = some run ∧
            (behaviour.state later).db.documents run.documentId = some document ∧
            run.status = finalStatus result.verdict ∧
            document.status = finalStatus result.verdict := by
  rcases exists_process (.api true) with ⟨api, redis⟩
  rcases exists_process .worker with ⟨worker, kind⟩
  rcases executed_wholeRun api.verified with ⟨final, executed, queue, pushing, tasks, idles⟩
  have blank : (system api.verified 1 : System (Service Unit Unit) _).initial blankService :=
    blank_blankService.toIdle
  refine ⟨api.verified, Behaviour.resting blank wholeRun executed emptyUpload idles, ?_⟩
  have serves : Serves (Behaviour.resting blank wholeRun executed emptyUpload idles) := by
    refine ⟨fun time => ?_, fun runId => Behaviour.fair_resting ?_, Behaviour.fair_resting ?_,
      fun task => Behaviour.fair_resting ?_⟩
    · have delivered : ∀ label ∈ emptyUpload :: wholeRun, label.Delivered := by
        simp [emptyUpload, wholeRun, ServiceStep.Delivered, PushReply.stored, PopReply.lost]
      exact delivered _ (Behaviour.label_resting time)
    · simp [pushing]
    · simp [queue]
    · simp [tasks]
  refine ⟨serves, ?_⟩
  exact finished_of_submit redis (fun _ => kind) Nat.one_pos blank_blankService serves
    (show (Behaviour.resting blank wholeRun executed emptyUpload idles).label 0 = _ from rfl) rfl

end Closed

end Service

end OrcaValidator
