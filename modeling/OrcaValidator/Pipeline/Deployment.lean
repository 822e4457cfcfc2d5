import OrcaValidator.Orca.Verification
import OrcaValidator.Pipeline.Worker

/-!
# A deployment

API processes and worker processes that start, stop and share one database and one queue.
An API process records with a run the hash that its own gate has verified, and then either
pushes the run to the queue or validates it in the background; a worker process validates
what it pops.  A call of `run_validation` drives the machine that its own process has loaded.

Only the verified machine runs exactly in the executions in which every claim is made by a
process whose start-up covers its machine, and so never by a worker.
-/

namespace OrcaValidator

open Library System

/-- A call of `run_validation` in a process. -/
structure ProcessTask (Process : Type) where
  process : Process
  runId : UUID
  call : Call

/-- The database, the list of run ids, the processes and the tasks in them. -/
structure Deployment [Interpreter] {Content Definition : Type}
    (tools : MachineTools Content Definition) (Process Task : Type) where
  db : Database ContractState
  /-- The Redis list, the head first. -/
  queue : List UUID
  processes : Process → Option (ServerProcess tools)
  /-- The runs that a process has committed and neither pushed nor started yet. -/
  submitted : Process → List UUID
  tasks : Task → Option (ProcessTask Process)

/-- The steps of a deployment, with starts and stops of its processes. -/
inductive DeploymentStep (Content Process Task : Type) where
  | start (process : Process) (startup : Startup Content)
  | stop (process : Process)
  | submit (process : Process) (upload : Upload) (documentId runId : UUID)
  | push (process : Process) (runId : UUID) (reply : PushReply)
  | background (process : Process) (task : Task) (runId : UUID)
  | dequeue (process : Process) (task : Task) (reply : PopReply)
  | call (task : Task) (label : CallStep)
  | release (task : Task)

namespace Deployment

section Model

variable [Interpreter] {Content Definition Process Task : Type} [DecidableEq Process]
  [DecidableEq Task] {tools : MachineTools Content Definition}

/-- What the task does now, or none when it is over. -/
def setTask (deployment : Deployment tools Process Task) (task : Task)
    (entry : Option (ProcessTask Process)) : Deployment tools Process Task :=
  { deployment with tasks := Function.update deployment.tasks task entry }

/-- The process as it has started, or none when it has stopped. -/
def setProcess (deployment : Deployment tools Process Task) (process : Process)
    (running : Option (ServerProcess tools)) : Deployment tools Process Task :=
  { deployment with processes := Function.update deployment.processes process running }

/-- The runs that the process has still to hand on. -/
def setSubmitted (deployment : Deployment tools Process Task) (process : Process)
    (runs : List UUID) : Deployment tools Process Task :=
  { deployment with submitted := Function.update deployment.submitted process runs }

/-- The kind of a process that is running. -/
def kind (deployment : Deployment tools Process Task) (process : Process) :
    Option ProcessKind :=
  (deployment.processes process).map fun running => running.startup.kind

/-- The process is gone, and its tasks with it. -/
def stopped (deployment : Deployment tools Process Task) (process : Process) :
    Deployment tools Process Task :=
  { (deployment.setProcess process none).setSubmitted process [] with
    tasks := fun task => (deployment.tasks task).filter fun entry => entry.process ≠ process }

/-- One step of the deployment. -/
def step (deployment : Deployment tools Process Task) :
    DeploymentStep Content Process Task → Option (Deployment tools Process Task)
  | .start process startup =>
      if (deployment.processes process).isNone then
        match boot tools startup with
        | .error _ => some deployment
        | .ok running => some (deployment.setProcess process (some running))
      else none
  | .stop process => some (deployment.stopped process)
  | .submit process upload documentId runId =>
      match deployment.processes process with
      | none => none
      | some running =>
          if running.startup.kind ≠ .worker ∧ deployment.db.documents documentId = none ∧
              deployment.db.runs runId = none then
            match submitDocument running.verified upload documentId runId deployment.db with
            | .error _ => some deployment
            | .ok db => some ({ deployment with db := db }.setSubmitted process
                (runId :: deployment.submitted process))
          else none
  | .push process runId reply =>
      if deployment.kind process = some (.api true) ∧ runId ∈ deployment.submitted process then
        some ({ deployment with queue := (enqueue runId reply deployment.queue).2 }.setSubmitted
          process ((deployment.submitted process).erase runId))
      else none
  | .background process task runId =>
      if deployment.kind process = some (.api false) ∧ runId ∈ deployment.submitted process ∧
          (deployment.tasks task).isNone then
        some ((deployment.setSubmitted process
          ((deployment.submitted process).erase runId)).setTask task
            (some ⟨process, runId, .started⟩))
      else none
  | .dequeue process task reply =>
      if deployment.kind process = some .worker ∧ (deployment.tasks task).isNone then
        (OrcaValidator.dequeue reply deployment.queue).map fun (outcome, queue) =>
          match outcome with
          | .ok (some runId) => { deployment with queue := queue }.setTask task
              (some ⟨process, runId, .started⟩)
          | _ => { deployment with queue := queue }
      else none
  | .call task label =>
      match deployment.tasks task with
      | none => none
      | some entry =>
          (Call.step entry.runId deployment.db entry.call label).map fun (db, call) =>
            { deployment with db := db }.setTask task (some { entry with call := call })
  | .release task =>
      match deployment.tasks task with
      | none => none
      | some entry => if entry.call.ended then some (deployment.setTask task none) else none

/-- A deployment in which nothing has been started yet. -/
structure Fresh (deployment : Deployment tools Process Task) : Prop where
  runs : ∀ id, deployment.db.runs id = none
  queue : deployment.queue = []
  processes : ∀ process, deployment.processes process = none
  submitted : ∀ process, deployment.submitted process = []
  tasks : ∀ task, deployment.tasks task = none

variable (Process Task tools) in
/-- Deployments that start without a process. -/
def system : System (Deployment tools Process Task) (DeploymentStep Content Process Task) where
  initial := Fresh
  step := step

/-- The task drives the machine of its process for this run. -/
def Drives (deployment : Deployment tools Process Task) (task : Task) (runId : UUID)
    (running : ServerProcess tools) : Prop :=
  ∃ process, deployment.tasks task = some ⟨process, runId, .driving⟩ ∧
    deployment.processes process = some running

/-- Wherever a machine is driven, the content that it was parsed from was accepted at the
start-up of the process, and its hash is that of the run. -/
def OnlyVerified (deployment : Deployment tools Process Task) : Prop :=
  ∀ task runId running, deployment.Drives task runId running →
    AcceptedAtStartup tools running.startup running.source ∧
      ∃ run, deployment.db.runs runId = some run ∧
        run.machineHash = machineHash tools running.source

/-- A claim is made by a process whose start-up covers its machine. -/
def CoveredClaim (before : Deployment tools Process Task) :
    DeploymentStep Content Process Task → Prop
  | .call task .commitClaim => ∀ entry running, before.tasks task = some entry →
      before.processes entry.process = some running → running.startup.Covers tools
  | _ => True

/-! ## What a step does -/

/-- What a step does to the database, the processes, the runs they have submitted, and the
tasks. -/
inductive Moves (before : Deployment tools Process Task) :
    DeploymentStep Content Process Task → Deployment tools Process Task → Prop
  | quiet {label : DeploymentStep Content Process Task} {after : Deployment tools Process Task}
      (noCall : ∀ task label', label ≠ .call task label') (db : after.db = before.db)
      (processes : after.processes = before.processes)
      (submitted : ∀ process, after.submitted process ⊆ before.submitted process)
      (tasks : after.tasks = before.tasks) : Moves before label after
  | starts {process : Process} {startup : Startup Content} {running : ServerProcess tools}
      {after : Deployment tools Process Task} (free : before.processes process = none)
      (db : after.db = before.db)
      (processes : after.processes = Function.update before.processes process (some running))
      (submitted : after.submitted = before.submitted) (tasks : after.tasks = before.tasks) :
      Moves before (.start process startup) after
  | stops {process : Process} {after : Deployment tools Process Task}
      (db : after.db = before.db)
      (processes : after.processes = Function.update before.processes process none)
      (submitted : after.submitted = Function.update before.submitted process [])
      (tasks : ∀ task entry, after.tasks task = some entry →
        before.tasks task = some entry ∧ entry.process ≠ process) :
      Moves before (.stop process) after
  | submits {process : Process} {upload : Upload} {documentId runId : UUID}
      {running : ServerProcess tools} {after : Deployment tools Process Task}
      (present : before.processes process = some running)
      (fresh : before.db.runs runId = none)
      (accepted : submitDocument running.verified upload documentId runId before.db =
        .ok after.db)
      (processes : after.processes = before.processes)
      (submitted : after.submitted =
        Function.update before.submitted process (runId :: before.submitted process))
      (tasks : after.tasks = before.tasks) :
      Moves before (.submit process upload documentId runId) after
  | hands {label : DeploymentStep Content Process Task} {process : Process} {task : Task}
      {runId : UUID} {running : ServerProcess tools} {after : Deployment tools Process Task}
      (noCall : ∀ task label', label ≠ .call task label')
      (present : before.processes process = some running)
      (own : running.startup.kind ≠ .worker → runId ∈ before.submitted process)
      (db : after.db = before.db) (processes : after.processes = before.processes)
      (submitted : ∀ process, after.submitted process ⊆ before.submitted process)
      (tasks : after.tasks =
        Function.update before.tasks task (some ⟨process, runId, .started⟩)) :
      Moves before label after
  | calls {task : Task} {label : CallStep} {entry : ProcessTask Process} {call : Call}
      {after : Deployment tools Process Task} (present : before.tasks task = some entry)
      (taken : Call.step entry.runId before.db entry.call label = some (after.db, call))
      (processes : after.processes = before.processes)
      (submitted : after.submitted = before.submitted)
      (tasks : after.tasks =
        Function.update before.tasks task (some { entry with call := call })) :
      Moves before (.call task label) after
  | releases {task : Task} {after : Deployment tools Process Task} (db : after.db = before.db)
      (processes : after.processes = before.processes)
      (submitted : after.submitted = before.submitted)
      (tasks : after.tasks = Function.update before.tasks task none) :
      Moves before (.release task) after

variable {before after : Deployment tools Process Task}
  {label : DeploymentStep Content Process Task}

omit [DecidableEq Task] in
theorem submitted_setSubmitted_erase (deployment : Deployment tools Process Task)
    (process other : Process) (runId : UUID) :
    (deployment.setSubmitted process ((deployment.submitted process).erase runId)).submitted
      other ⊆ deployment.submitted other := by
  by_cases same : other = process
  · subst same
    simpa [setSubmitted] using List.erase_subset
  · simp [setSubmitted, same]

theorem moves_of_step (taken : step before label = some after) : Moves before label after := by
  cases label with
  | start process startup =>
      rw [step] at taken
      split at taken
      · next free =>
          split at taken
          · cases taken
            exact .quiet (by simp) rfl rfl (fun _ => List.Subset.refl _) rfl
          · cases taken
            exact .starts (by simpa using free) rfl rfl rfl rfl
      · cases taken
  | stop process =>
      cases taken
      refine .stops rfl rfl rfl ?_
      intro task entry found
      rcases Option.filter_eq_some_iff.mp found with ⟨present, other⟩
      exact ⟨present, by simpa using other⟩
  | submit process upload documentId runId =>
      rw [step] at taken
      split at taken
      · cases taken
      · next running present =>
          split at taken
          · next fresh =>
              split at taken
              · cases taken
                exact .quiet (by simp) rfl rfl (fun _ => List.Subset.refl _) rfl
              · next db accepted =>
                  cases taken
                  exact .submits present fresh.2.2 accepted rfl rfl rfl
          · cases taken
  | push process runId reply =>
      rw [step] at taken
      split at taken
      · cases taken
        refine .quiet (by simp) rfl rfl ?_ rfl
        intro other
        exact submitted_setSubmitted_erase before process other runId
      · cases taken
  | background process task runId =>
      rw [step] at taken
      split at taken
      · next ready =>
          cases taken
          rcases Option.map_eq_some_iff.mp ready.1 with ⟨running, present, _⟩
          refine .hands (by simp) present (fun _ => ready.2.1) rfl rfl ?_ rfl
          intro other
          exact submitted_setSubmitted_erase before process other runId
      · cases taken
  | dequeue process task reply =>
      rw [step] at taken
      split at taken
      · next ready =>
          rcases Option.map_eq_some_iff.mp ready.1 with ⟨running, present, worker⟩
          rcases Option.map_eq_some_iff.mp taken with ⟨⟨outcome, rest⟩, _, rfl⟩
          rcases outcome with error | _ | runId
          · exact .quiet (by simp) rfl rfl (fun _ => List.Subset.refl _) rfl
          · exact .quiet (by simp) rfl rfl (fun _ => List.Subset.refl _) rfl
          · exact .hands (by simp) present (fun api => absurd worker api) rfl rfl
              (fun _ => List.Subset.refl _) rfl
      · cases taken
  | call task label =>
      rw [step] at taken
      split at taken
      · cases taken
      · next entry present =>
          rcases Option.map_eq_some_iff.mp taken with ⟨⟨db, call⟩, stepped, rfl⟩
          exact .calls present stepped rfl rfl rfl
  | release task =>
      rw [step] at taken
      split at taken
      · cases taken
      · split at taken
        · cases taken
          exact .releases rfl rfl rfl rfl
        · cases taken

/-! ## What every step keeps -/

/-- The run's row has this hash. -/
def Recorded (deployment : Deployment tools Process Task) (runId : UUID) (hash : Text) : Prop :=
  (deployment.db.runs runId).map ValidationRun.machineHash = some hash

/-- The process of the task is running, and the run carries the hash that it recorded, if it
is an API process. -/
def Owned (deployment : Deployment tools Process Task) (entry : ProcessTask Process) : Prop :=
  ∃ running, deployment.processes entry.process = some running ∧
    (running.startup.kind ≠ .worker → deployment.Recorded entry.runId running.recordedHash)

/-- The runs that an API process has in hand carry the hash that its gate recorded; tasks and
submitted runs belong to running processes. -/
structure Consistent (deployment : Deployment tools Process Task) : Prop where
  idle : ∀ process, deployment.processes process = none → deployment.submitted process = []
  submitted : ∀ process running, deployment.processes process = some running →
    ∀ runId ∈ deployment.submitted process, deployment.Recorded runId running.recordedHash
  tasks : ∀ task entry, deployment.tasks task = some entry → deployment.Owned entry

omit [DecidableEq Process] [DecidableEq Task] in
theorem Fresh.consistent (fresh : Fresh before) : Consistent before where
  idle := fun process _ => fresh.submitted process
  submitted := fun process _ found => by cases (fresh.processes process).symm.trans found
  tasks := fun task _ found => by cases (fresh.tasks task).symm.trans found

omit [DecidableEq Process] [DecidableEq Task] in
theorem recorded_of_runs {runId : UUID} {hash : Text} (recorded : before.Recorded runId hash)
    (same : (after.db.runs runId).map ValidationRun.machineHash =
      (before.db.runs runId).map ValidationRun.machineHash) : after.Recorded runId hash :=
  same.trans recorded

/-- No step changes a hash that is recorded. -/
theorem Moves.recorded (moves : Moves before label after) {runId : UUID} {hash : Text}
    (recorded : before.Recorded runId hash) : after.Recorded runId hash := by
  refine recorded_of_runs recorded ?_
  cases moves with
  | quiet noCall db processes submitted tasks => rw [db]
  | starts free db processes submitted tasks => rw [db]
  | stops db processes submitted tasks => rw [db]
  | @submits _ _ _ other running _ present fresh accepted processes submitted tasks =>
      have differ : runId ≠ other := by
        rintro rfl
        rw [Recorded, fresh] at recorded
        cases recorded
      rcases runs_submitted accepted with ⟨run, runs, _⟩
      rw [runs, Function.update_of_ne differ]
  | hands noCall present own db processes submitted tasks => rw [db]
  | calls present taken processes submitted tasks =>
      exact (Call.moves_of_step taken).machineHash runId
  | releases db processes submitted tasks => rw [db]

theorem Moves.owned (moves : Moves before label after) {entry : ProcessTask Process}
    (owned : before.Owned entry)
    (same : after.processes entry.process = before.processes entry.process) :
    after.Owned entry := by
  rcases owned with ⟨running, present, known⟩
  exact ⟨running, same.trans present, fun api => moves.recorded (known api)⟩

/-- While no process starts or stops, only the new tasks are to be looked at. -/
theorem Consistent.ofSame (consistent : Consistent before) (moves : Moves before label after)
    (processes : after.processes = before.processes)
    (submitted : ∀ process, after.submitted process ⊆ before.submitted process)
    (tasks : ∀ task entry, after.tasks task = some entry → before.Owned entry) :
    Consistent after where
  idle := by
    intro process free
    rw [processes] at free
    exact List.subset_nil.mp (consistent.idle process free ▸ submitted process)
  submitted := by
    intro process running present runId member
    rw [processes] at present
    exact moves.recorded (consistent.submitted process running present runId
      (submitted process member))
  tasks := by
    intro task entry found
    exact moves.owned (tasks task entry found) (by rw [processes])

theorem Consistent.starts (consistent : Consistent before) (moves : Moves before label after)
    {process : Process} {running : ServerProcess tools} (free : before.processes process = none)
    (processes : after.processes = Function.update before.processes process (some running))
    (submitted : after.submitted = before.submitted) (tasks : after.tasks = before.tasks) :
    Consistent after where
  idle := by
    intro other gone
    rw [submitted]
    refine consistent.idle other ?_
    rw [processes] at gone
    by_cases same : other = process
    · subst same
      exact free
    · rwa [Function.update_of_ne same] at gone
  submitted := by
    intro other found present runId member
    rw [submitted] at member
    rw [processes] at present
    by_cases same : other = process
    · subst same
      rw [consistent.idle other free] at member
      cases member
    · rw [Function.update_of_ne same] at present
      exact moves.recorded (consistent.submitted other found present runId member)
  tasks := by
    intro task entry found
    rw [tasks] at found
    have owned := consistent.tasks task entry found
    have differ : entry.process ≠ process := by
      intro same
      rcases owned with ⟨other, present, _⟩
      rw [same, free] at present
      cases present
    refine moves.owned owned ?_
    rw [processes, Function.update_of_ne differ]

theorem Consistent.stops (consistent : Consistent before) (moves : Moves before label after)
    {process : Process}
    (processes : after.processes = Function.update before.processes process none)
    (submitted : after.submitted = Function.update before.submitted process [])
    (tasks : ∀ task entry, after.tasks task = some entry →
      before.tasks task = some entry ∧ entry.process ≠ process) : Consistent after where
  idle := by
    intro other gone
    rw [submitted]
    by_cases same : other = process
    · simp [same]
    · rw [processes, Function.update_of_ne same] at gone
      rw [Function.update_of_ne same]
      exact consistent.idle other gone
  submitted := by
    intro other running present runId member
    rw [processes] at present
    rw [submitted] at member
    by_cases same : other = process
    · simp [same] at present
    · rw [Function.update_of_ne same] at present member
      exact moves.recorded (consistent.submitted other running present runId member)
  tasks := by
    intro task entry found
    rcases tasks task entry found with ⟨was, differ⟩
    refine moves.owned (consistent.tasks task entry was) ?_
    rw [processes, Function.update_of_ne differ]

/-- A run that a process submits carries the hash that the process has recorded. -/
theorem Consistent.submits (consistent : Consistent before) (moves : Moves before label after)
    {process : Process} {upload : Upload} {documentId runId : UUID}
    {running : ServerProcess tools} (present : before.processes process = some running)
    (accepted : submitDocument running.verified upload documentId runId before.db = .ok after.db)
    (processes : after.processes = before.processes)
    (submitted : after.submitted =
      Function.update before.submitted process (runId :: before.submitted process))
    (tasks : after.tasks = before.tasks) : Consistent after where
  idle := by
    intro other gone
    rw [processes] at gone
    have differ : other ≠ process := by
      rintro rfl
      cases gone.symm.trans present
    rw [submitted, Function.update_of_ne differ]
    exact consistent.idle other gone
  submitted := by
    intro other found same id member
    rw [processes] at same
    rw [submitted] at member
    by_cases own : other = process
    · subst own
      obtain rfl : running = found := Option.some.inj (present.symm.trans same)
      rw [Function.update_self] at member
      rcases List.mem_cons.mp member with rfl | earlier
      · rcases runs_submitted accepted with ⟨run, runs, hash⟩
        rw [Recorded, runs, Function.update_self, Option.map_some, hash]
        rfl
      · exact moves.recorded (consistent.submitted other running same id earlier)
    · rw [Function.update_of_ne own] at member
      exact moves.recorded (consistent.submitted other found same id member)
  tasks := by
    intro task entry found
    rw [tasks] at found
    exact moves.owned (consistent.tasks task entry found) (by rw [processes])

theorem Consistent.step (consistent : Consistent before) (moves : Moves before label after) :
    Consistent after := by
  have moved := moves
  cases moves with
  | quiet noCall db processes submitted tasks =>
      refine consistent.ofSame moved processes submitted ?_
      intro task entry found
      rw [tasks] at found
      exact consistent.tasks task entry found
  | starts free db processes submitted tasks =>
      exact consistent.starts moved free processes submitted tasks
  | stops db processes submitted tasks => exact consistent.stops moved processes submitted tasks
  | submits present fresh accepted processes submitted tasks =>
      exact consistent.submits moved present accepted processes submitted tasks
  | @hands _ process task runId running after noCall present own db processes submitted tasks =>
      refine consistent.ofSame moved processes submitted ?_
      intro other entry found
      rw [tasks] at found
      by_cases same : other = task
      · subst same
        rw [Function.update_self] at found
        cases found
        refine ⟨running, present, ?_⟩
        intro api
        exact consistent.submitted process running present runId (own api)
      · rw [Function.update_of_ne same] at found
        exact consistent.tasks other entry found
  | @calls task _ entry call after present taken processes submitted tasks =>
      refine consistent.ofSame moved processes (fun process => by rw [submitted]; simp) ?_
      intro other next found
      rw [tasks] at found
      by_cases same : other = task
      · subst same
        rw [Function.update_self] at found
        cases found
        exact consistent.tasks other entry present
      · rw [Function.update_of_ne same] at found
        exact consistent.tasks other next found
  | @releases task after db processes submitted tasks =>
      refine consistent.ofSame moved processes (fun process => by rw [submitted]; simp) ?_
      intro other next found
      rw [tasks] at found
      by_cases same : other = task
      · simp [same] at found
      · rw [Function.update_of_ne same] at found
        exact consistent.tasks other next found

/-! ## Who drives -/

/-- A task that drives the machine of its process did so before the step, or claims its run
with it. -/
theorem Moves.drives (moves : Moves before label after) (consistent : Consistent before)
    {task : Task} {runId : UUID} {running : ServerProcess tools}
    (drives : after.Drives task runId running) :
    before.Drives task runId running ∨ label = .call task .commitClaim ∧
      ∃ entry, before.tasks task = some entry ∧
        before.processes entry.process = some running := by
  rcases drives with ⟨process, found, present⟩
  cases moves with
  | quiet noCall db processes submitted tasks =>
      rw [tasks] at found
      rw [processes] at present
      exact .inl ⟨process, found, present⟩
  | @starts started _ _ _ free db processes submitted tasks =>
      rw [tasks] at found
      rcases consistent.tasks task _ found with ⟨other, was, _⟩
      have differ : process ≠ started := by
        rintro rfl
        cases free.symm.trans was
      rw [processes, Function.update_of_ne differ] at present
      exact .inl ⟨process, found, present⟩
  | stops db processes submitted tasks =>
      rcases tasks task _ found with ⟨was, differ⟩
      rw [processes, Function.update_of_ne differ] at present
      exact .inl ⟨process, was, present⟩
  | submits was fresh accepted processes submitted tasks =>
      rw [tasks] at found
      rw [processes] at present
      exact .inl ⟨process, found, present⟩
  | @hands _ _ other _ _ _ noCall was own db processes submitted tasks =>
      rw [tasks] at found
      rw [processes] at present
      by_cases same : task = other
      · subst same
        rw [Function.update_self] at found
        cases found
      · rw [Function.update_of_ne same] at found
        exact .inl ⟨process, found, present⟩
  | @calls other _ entry call _ was taken processes submitted tasks =>
      rw [tasks] at found
      rw [processes] at present
      by_cases same : task = other
      · subst same
        rw [Function.update_self] at found
        rcases entry with ⟨own, id, earlier⟩
        cases found
        rcases Call.driving_of_step taken rfl with rfl | rfl
        · exact .inr ⟨rfl, _, was, present⟩
        · exact .inl ⟨_, was, present⟩
      · rw [Function.update_of_ne same] at found
        exact .inl ⟨process, found, present⟩
  | @releases other _ db processes submitted tasks =>
      rw [tasks] at found
      rw [processes] at present
      by_cases same : task = other
      · simp [same] at found
      · rw [Function.update_of_ne same] at found
        exact .inl ⟨process, found, present⟩

/-- Every machine that is driven is one that the start-up of its process covers. -/
def OnlyCovered (deployment : Deployment tools Process Task) : Prop :=
  ∀ task runId running, deployment.Drives task runId running → running.startup.Covers tools

theorem OnlyCovered.step (covered : OnlyCovered before) (consistent : Consistent before)
    (moves : Moves before label after) (claims : CoveredClaim before label) :
    OnlyCovered after := by
  intro task runId running drives
  rcases moves.drives consistent drives with earlier | ⟨rfl, entry, found, present⟩
  · exact covered task runId running earlier
  · exact claims entry running found present

omit [DecidableEq Process] [DecidableEq Task] in
theorem OnlyCovered.onlyVerified (covered : OnlyCovered before)
    (consistent : Consistent before) : OnlyVerified before := by
  intro task runId running drives
  have covers := covered task runId running drives
  rcases running.covers_iff.mpr covers with ⟨accepted, hash⟩
  refine ⟨accepted, ?_⟩
  rcases drives with ⟨process, found, present⟩
  rcases consistent.tasks task _ found with ⟨other, was, recorded⟩
  obtain rfl : running = other := Option.some.inj (present.symm.trans was)
  rcases Option.map_eq_some_iff.mp (recorded covers.1) with ⟨run, row, same⟩
  exact ⟨run, row, same.trans hash⟩

/-- A claim after which only verified machines are driven is made by a process whose start-up
covers its machine. -/
theorem OnlyVerified.coveredClaim (verified : OnlyVerified after) (consistent : Consistent before)
    (moves : Moves before label after) : CoveredClaim before label := by
  have moved := moves
  cases moves with
  | @calls task label entry call after present taken processes submitted tasks =>
      cases label with
      | commitClaim =>
          intro entry' running present' started
          obtain rfl : entry = entry' := Option.some.inj (present.symm.trans present')
          have driving := Call.driving_of_claim taken
          have drives : after.Drives task entry.runId running := by
            refine ⟨entry.process, ?_, by rwa [processes]⟩
            rw [tasks, Function.update_self, driving]
          rcases verified task entry.runId running drives with ⟨accepted, run, row, hash⟩
          rcases consistent.tasks task entry present with ⟨other, was, recorded⟩
          obtain rfl : running = other := Option.some.inj (started.symm.trans was)
          have known := moved.recorded (recorded accepted.api)
          refine running.covers_iff.mp ⟨accepted, ?_⟩
          rw [Recorded, row, Option.map_some, Option.some.injEq] at known
          exact known.symm.trans hash
      | _ => trivial
  | quiet noCall db processes submitted tasks =>
      cases label with
      | call task label => exact absurd rfl (noCall task label)
      | _ => trivial
  | hands noCall present own db processes submitted tasks =>
      cases label with
      | call task label => exact absurd rfl (noCall task label)
      | _ => trivial
  | _ => trivial

/-- Only the verified machine runs in the executions in which every claim is made by a process
whose start-up covers its machine. -/
theorem onlyVerified_iff {start final : Deployment tools Process Task}
    {labels : List (DeploymentStep Content Process Task)}
    (fresh : (system Process Task tools).initial start) :
    (system Process Task tools).Execution (fun _ _ after => OnlyVerified after) start labels
        final ↔
      (system Process Task tools).Execution (fun before label _ => CoveredClaim before label)
        start labels final := by
  have consistent : Consistent start := Fresh.consistent fresh
  constructor
  · intro execution
    refine (execution.transfer Consistent ?_ consistent).2
    intro before label after consistent taken verified
    have moves := moves_of_step taken
    exact ⟨consistent.step moves, verified.coveredClaim consistent moves⟩
  · intro execution
    have idle : OnlyCovered start := by
      rintro task runId running ⟨process, found, _⟩
      cases (Fresh.tasks fresh task).symm.trans found
    refine (execution.transfer (fun state => Consistent state ∧ OnlyCovered state) ?_
      ⟨consistent, idle⟩).2
    rintro before label after ⟨consistent, covered⟩ taken claims
    have moves := moves_of_step taken
    have covered := covered.step consistent moves claims
    exact ⟨⟨consistent.step moves, covered⟩, covered.onlyVerified (consistent.step moves)⟩

end Model

section Closed

attribute [local instance] Interpreter.ascii

/-- Two contents of `contract_validation.orca.md`: the published one, and an edited one with
the unreachable state `limbo` before its transitions. -/
inductive MachineFile where
  | published
  | edited

/-- The digest of the file. -/
def MachineFile.sha256 : MachineFile → Text
  | .published => "522a0253fc8d2e1489b5ea508a00f9b6627c04772d0826521070bf5a3e6a1d80".toList
  | .edited => "3ac54522f7330211e78c5920ccbba27c0a79c9e2bba89b2fc186b2b1f46e7318".toList

theorem MachineFile.hexadecimal (file : MachineFile) :
    ∀ digit ∈ file.sha256, digit ∈ "0123456789abcdef".toList := by
  cases file with
  | published => exact Text.forall_of_all (by decide)
  | edited => exact Text.forall_of_all (by decide)

/-- A verifier that accepts the published file only. -/
def sampleTools : MachineTools MachineFile Unit where
  parseOrcaMd := fun _ => .ok ⟨⟩
  orcaVerify
    | .published => .ok ⟨0, "valid".toList, []⟩
    | .edited => .ok ⟨1, [], "state 'limbo' is unreachable".toList⟩
  sha256 := MachineFile.sha256
  hexadecimal := MachineFile.hexadecimal

/-- A directory with this one machine file. -/
def sampleDirectory (file : MachineFile) : Directory MachineFile :=
  ⟨[(contractFile, file)], by simp⟩

/-- A start at which the package holds this file. -/
def sampleStartup (kind : ProcessKind) (file : MachineFile) : Startup MachineFile where
  kind := kind
  machinesDirName := "machines".toList
  machinesDir := sampleDirectory .published
  packageName := "/app/machines".toList
  package := sampleDirectory file

/-- An empty database and no process. -/
def freshDeployment : Deployment sampleTools ℕ Unit where
  db := ⟨fun _ => none, fun _ => none, fun _ => none, fun _ => none⟩
  queue := []
  processes := fun _ => none
  submitted := fun _ => []
  tasks := fun _ => none

theorem fresh_freshDeployment : Fresh freshDeployment :=
  ⟨fun _ => rfl, rfl, fun _ => rfl, fun _ => rfl, fun _ => rfl⟩

/-- An API process submits a run that a worker with the edited machine validates. -/
def workerRun : List (DeploymentStep MachineFile ℕ Unit) :=
  [.start 0 (sampleStartup (.api true) .published), .start 1 (sampleStartup .worker .edited),
    .submit 0 Service.sampleUpload "document".toList "run".toList, .push 0 "run".toList .done,
    .dequeue 1 () .item, .call () .readRun, .call () .readDocument, .call () .commitClaim]

/-- An API process validates a run in the background. -/
def backgroundRun : List (DeploymentStep MachineFile ℕ Unit) :=
  [.start 0 (sampleStartup (.api false) .published),
    .submit 0 Service.sampleUpload "document".toList "run".toList,
    .background 0 () "run".toList, .call () .readRun, .call () .readDocument,
    .call () .commitClaim]

theorem onlyVerified_backgroundRun : ∃ final,
    (system ℕ Unit sampleTools).Executes freshDeployment backgroundRun final ∧
      ((system ℕ Unit sampleTools).Execution (fun _ _ after => OnlyVerified after)
          freshDeployment backgroundRun final ↔
        (system ℕ Unit sampleTools).Execution (fun before label _ => CoveredClaim before label)
          freshDeployment backgroundRun final) := by
  have runs : ((system ℕ Unit sampleTools).execute freshDeployment backgroundRun).isSome =
      true := by decide +kernel
  rcases Option.isSome_iff_exists.mp runs with ⟨final, executed⟩
  exact ⟨final, executes_of_execute executed, onlyVerified_iff fresh_freshDeployment⟩

/-- The process of the task, the run, and the kind of the process, if the task drives. -/
def driver (deployment : Deployment sampleTools ℕ Unit) : Option (ℕ × UUID × ProcessKind) :=
  (deployment.tasks ()).bind fun entry => match entry.call with
    | .driving => (deployment.kind entry.process).map (entry.process, entry.runId, ·)
    | _ => none

theorem drives_of_driver {deployment : Deployment sampleTools ℕ Unit} {process : ℕ}
    {runId : UUID} {kind : ProcessKind}
    (driven : driver deployment = some (process, runId, kind)) :
    ∃ running, deployment.Drives () runId running ∧ running.startup.kind = kind := by
  rcases Option.bind_eq_some_iff.mp driven with ⟨⟨own, id, call⟩, found, named⟩
  cases call with
  | driving =>
      rcases Option.map_eq_some_iff.mp named with ⟨started, known, same⟩
      obtain ⟨rfl, rfl, rfl⟩ : own = process ∧ id = runId ∧ started = kind := by simpa using same
      rcases Option.map_eq_some_iff.mp known with ⟨running, present, rfl⟩
      exact ⟨running, ⟨own, found, present⟩, rfl⟩
  | _ => cases named

/-- The worker drives a machine that nobody has verified. -/
theorem not_onlyVerified_workerRun : Fresh freshDeployment ∧ ∃ final,
    (system ℕ Unit sampleTools).Executes freshDeployment workerRun final ∧
      ¬OnlyVerified final := by
  have runs : ((system ℕ Unit sampleTools).execute freshDeployment workerRun).bind driver =
      some (1, "run".toList, .worker) := by decide +kernel
  rcases Option.bind_eq_some_iff.mp runs with ⟨final, executed, driven⟩
  refine ⟨fresh_freshDeployment, final, executes_of_execute executed, ?_⟩
  intro verified
  rcases drives_of_driver driven with ⟨running, drives, worker⟩
  exact (verified () _ running drives).1.api worker

end Closed

end Deployment

end OrcaValidator
