import OrcaValidator.Api.Documents
import OrcaValidator.Library.Transition
import OrcaValidator.Pipeline.Call
import OrcaValidator.Queue

/-!
# The service in Redis mode

Any number of requests, the list of run ids and any number of worker loops, one step at a
time.  A request commits the rows of a run and pushes the run's id afterwards; a worker
takes a permit, pops an id and hands it to a task that calls `run_validation`.  No process
stops, the database does not fail and no call of `run_validation` raises, but the Redis client
may.

A queued run is orphaned when nothing in the system knows of it any more.  The executions
in which none is are exactly those in which every push and every pop is delivered.
-/

namespace OrcaValidator

open Library System

/-- The three places in which the loop of a worker waits. -/
inductive LoopPhase where
  | acquiring
  | dequeuing
  | sleeping
  deriving DecidableEq

/-- The loop of a worker, with the permits of its semaphore. -/
structure WorkerLoop where
  permits : ℕ
  phase : LoopPhase

/-- A task: whose it is, and how far its call of `run_validation` has come. -/
structure RunTask (Worker : Type) where
  worker : Worker
  runId : UUID
  call : Call

/-- The database, the list of run ids, the requests that are pushing, and the workers. -/
structure Service (Worker Task : Type) where
  db : Database ContractState
  /-- The Redis list, the head first. -/
  queue : List UUID
  /-- The runs whose rows are committed and whose id is not pushed yet. -/
  pushing : List UUID
  loops : Worker → WorkerLoop
  tasks : Task → Option (RunTask Worker)

/-- The steps of requests, worker loops and tasks. -/
inductive ServiceStep (Worker Task : Type) where
  | submit (upload : Upload) (documentId runId : UUID)
  | push (runId : UUID) (reply : PushReply)
  | acquire (worker : Worker)
  | dequeue (worker : Worker) (task : Task) (reply : PopReply)
  | wake (worker : Worker)
  | call (task : Task) (label : CallStep)
  | release (task : Task)

/-- The server stores the id of a push, and pops no id that the worker does not get. -/
def ServiceStep.Delivered {Worker Task : Type} : ServiceStep Worker Task → Prop
  | .push _ reply => reply.stored = true
  | .dequeue _ _ reply => reply.lost = false
  | _ => True

/-- The call has returned. -/
def Call.ended : Call → Bool
  | .returned | .finished => true
  | _ => false

/-- The statement fails. -/
def CallStep.fails : CallStep → Bool
  | .fail => true
  | _ => false

namespace Service

section Model

variable {Worker Task : Type} [DecidableEq Worker] [DecidableEq Task]

/-- Where the loop of the worker is now. -/
def setLoop (service : Service Worker Task) (worker : Worker) (loop : WorkerLoop) :
    Service Worker Task :=
  { service with loops := Function.update service.loops worker loop }

/-- What the task does now, or none when it is over. -/
def setTask (service : Service Worker Task) (task : Task) (entry : Option (RunTask Worker)) :
    Service Worker Task :=
  { service with tasks := Function.update service.tasks task entry }

/-- `sem.release()`. -/
def releasePermit (service : Service Worker Task) (worker : Worker) : Service Worker Task :=
  service.setLoop worker
    { service.loops worker with permits := (service.loops worker).permits + 1 }

/-- The loop of `worker` goes on with what `dequeue` returned or raised. -/
def afterDequeue (service : Service Worker Task) (worker : Worker) (task : Task) :
    Except PyException (Option UUID) → Service Worker Task
  | .ok (some runId) => (service.setTask task (some ⟨worker, runId, .started⟩)).setLoop worker
      { service.loops worker with phase := .acquiring }
  | .ok none => service.setLoop worker ⟨(service.loops worker).permits + 1, .acquiring⟩
  | .error _ => service.setLoop worker ⟨(service.loops worker).permits + 1, .sleeping⟩

variable [Interpreter]

/-- One step of the service; `verified` is `VERIFIED_MACHINES`.  No process stops here, and no
statement of a call fails: a `.call` that fails is no step. -/
def step (verified : Dict Text Text) (service : Service Worker Task) :
    ServiceStep Worker Task → Option (Service Worker Task)
  | .submit upload documentId runId =>
      if service.db.documents documentId = none ∧ service.db.runs runId = none then
        match submitDocument verified upload documentId runId service.db with
        | .error _ => some service
        | .ok db => some { service with db := db, pushing := runId :: service.pushing }
      else none
  | .push runId reply =>
      if runId ∈ service.pushing then
        some { service with
          pushing := service.pushing.erase runId
          queue := (enqueue runId reply service.queue).2 }
      else none
  | .acquire worker =>
      if (service.loops worker).phase = .acquiring ∧ 0 < (service.loops worker).permits then
        some (service.setLoop worker ⟨(service.loops worker).permits - 1, .dequeuing⟩)
      else none
  | .dequeue worker task reply =>
      if (service.loops worker).phase = .dequeuing ∧ (service.tasks task).isNone then
        (OrcaValidator.dequeue reply service.queue).map fun (outcome, queue) =>
          { service with queue := queue }.afterDequeue worker task outcome
      else none
  | .wake worker =>
      if (service.loops worker).phase = .sleeping then
        some (service.setLoop worker { service.loops worker with phase := .acquiring })
      else none
  | .call task label =>
      match service.tasks task with
      | none => none
      | some entry =>
          if label.fails then none
          else (Call.step entry.runId service.db entry.call label).map fun (db, call) =>
            { service with db := db }.setTask task (some { entry with call := call })
  | .release task =>
      match service.tasks task with
      | none => none
      | some entry =>
          if entry.call.ended then some ((service.setTask task none).releasePermit entry.worker)
          else none

/-- A service in which nothing is under way: the list holds the queued runs, each once. -/
structure Idle (concurrency : ℕ) (service : Service Worker Task) : Prop where
  pushing : service.pushing = []
  loops : ∀ worker, service.loops worker = ⟨concurrency, .acquiring⟩
  tasks : ∀ task, service.tasks task = none
  nodup : service.queue.Nodup
  queue : ∀ id, id ∈ service.queue ↔
    ∃ run, service.db.runs id = some run ∧ run.status = .queued
  documents : ∀ id run, service.db.runs id = some run →
    (service.db.documents run.documentId).isSome

/-- The service with `concurrency` permits for each worker. -/
def system (verified : Dict Text Text) (concurrency : ℕ) :
    System (Service Worker Task) (ServiceStep Worker Task) where
  initial := Idle concurrency
  step := step verified

/-- The id is in the list, or about to be pushed, or in the hands of a task that has not
claimed it yet. -/
def Accounted (service : Service Worker Task) (id : UUID) : Prop :=
  id ∈ service.queue ∨ id ∈ service.pushing ∨
    ∃ task entry, service.tasks task = some entry ∧ entry.runId = id ∧ entry.call.Pending

/-- No queued run is forgotten. -/
def NoOrphan (service : Service Worker Task) : Prop :=
  ∀ id run, service.db.runs id = some run → run.status = .queued → service.Accounted id

/-! ## What a step does -/

/-- What a step does to the database, the list, the open pushes and the tasks. -/
inductive Moves (verified : Dict Text Text) (before : Service Worker Task) :
    ServiceStep Worker Task → Service Worker Task → Prop
  | quiet {label : ServiceStep Worker Task} {after : Service Worker Task}
      (delivered : label.Delivered) (db : after.db = before.db)
      (queue : after.queue = before.queue) (pushing : after.pushing = before.pushing)
      (tasks : after.tasks = before.tasks) : Moves verified before label after
  | submits {upload : Upload} {documentId runId : UUID} {after : Service Worker Task}
      (freshDocument : before.db.documents documentId = none)
      (freshRun : before.db.runs runId = none)
      (accepted : submitDocument verified upload documentId runId before.db = .ok after.db)
      (queue : after.queue = before.queue) (pushing : after.pushing = runId :: before.pushing)
      (tasks : after.tasks = before.tasks) :
      Moves verified before (.submit upload documentId runId) after
  | pushes {runId : UUID} {reply : PushReply} {after : Service Worker Task}
      (submitted : runId ∈ before.pushing) (db : after.db = before.db)
      (queue : after.queue = if reply.stored then runId :: before.queue else before.queue)
      (pushing : after.pushing = before.pushing.erase runId)
      (tasks : after.tasks = before.tasks) : Moves verified before (.push runId reply) after
  | hands {worker : Worker} {task : Task} {reply : PopReply} {runId : UUID}
      {after : Service Worker Task} (delivered : reply.lost = false)
      (free : before.tasks task = none) (db : after.db = before.db)
      (queue : before.queue = after.queue ++ [runId]) (pushing : after.pushing = before.pushing)
      (tasks : after.tasks =
        Function.update before.tasks task (some ⟨worker, runId, .started⟩)) :
      Moves verified before (.dequeue worker task reply) after
  | loses {worker : Worker} {task : Task} {reply : PopReply} {runId : UUID}
      {after : Service Worker Task} (lost : reply.lost = true) (db : after.db = before.db)
      (queue : before.queue = after.queue ++ [runId]) (pushing : after.pushing = before.pushing)
      (tasks : after.tasks = before.tasks) :
      Moves verified before (.dequeue worker task reply) after
  | calls {task : Task} {label : CallStep} {entry : RunTask Worker} {call : Call}
      {after : Service Worker Task} (running : before.tasks task = some entry)
      (noFail : label ≠ .fail)
      (taken : Call.step entry.runId before.db entry.call label = some (after.db, call))
      (queue : after.queue = before.queue) (pushing : after.pushing = before.pushing)
      (tasks : after.tasks =
        Function.update before.tasks task (some { entry with call := call })) :
      Moves verified before (.call task label) after
  | releases {task : Task} {entry : RunTask Worker} {after : Service Worker Task}
      (running : before.tasks task = some entry) (ended : ¬entry.call.Pending)
      (db : after.db = before.db) (queue : after.queue = before.queue)
      (pushing : after.pushing = before.pushing)
      (tasks : after.tasks = Function.update before.tasks task none) :
      Moves verified before (.release task) after

variable {verified : Dict Text Text} {before after : Service Worker Task}
  {label : ServiceStep Worker Task}

omit [Interpreter] in
theorem not_pending_of_ended {call : Call} (ended : call.ended = true) : ¬call.Pending := by
  cases call <;> simp [Call.ended, Call.Pending] at ended ⊢

omit [Interpreter] in
/-- Without an id the loop changes nothing but itself. -/
theorem afterDequeue_of_nothing (service : Service Worker Task) (worker : Worker) (task : Task)
    {outcome : Except PyException (Option UUID)}
    (nothing : ∀ runId, outcome ≠ .ok (some runId)) :
    (service.afterDequeue worker task outcome).db = service.db ∧
      (service.afterDequeue worker task outcome).queue = service.queue ∧
      (service.afterDequeue worker task outcome).pushing = service.pushing ∧
      (service.afterDequeue worker task outcome).tasks = service.tasks := by
  rcases outcome with error | _ | runId
  · exact ⟨rfl, rfl, rfl, rfl⟩
  · exact ⟨rfl, rfl, rfl, rfl⟩
  · exact absurd rfl (nothing runId)

theorem moves_of_step (taken : step verified before label = some after) :
    Moves verified before label after := by
  cases label with
  | submit upload documentId runId =>
      rw [step] at taken
      split at taken
      · next fresh =>
          split at taken
          · cases taken
            exact .quiet trivial rfl rfl rfl rfl
          · next accepted =>
              cases taken
              exact .submits fresh.1 fresh.2 accepted rfl rfl rfl
      · cases taken
  | push runId reply =>
      rw [step] at taken
      split at taken
      · next submitted =>
          cases taken
          exact .pushes submitted rfl rfl rfl rfl
      · cases taken
  | acquire worker =>
      rw [step] at taken
      split at taken
      · cases taken
        exact .quiet trivial rfl rfl rfl rfl
      · cases taken
  | dequeue worker task reply =>
      rw [step] at taken
      split at taken
      · next ready =>
          rcases Option.map_eq_some_iff.mp taken with ⟨⟨outcome, rest⟩, dequeued, rfl⟩
          rcases dequeue_cases dequeued with ⟨runId, delivered, rfl, queue⟩ |
            ⟨nothing, ⟨delivered, rfl⟩ | ⟨lost, runId, queue⟩⟩
          · exact .hands delivered (by simpa using ready.2) rfl queue rfl rfl
          · rcases afterDequeue_of_nothing before worker task nothing with
              ⟨db, queue, pushing, tasks⟩
            exact .quiet delivered db queue pushing tasks
          · rcases afterDequeue_of_nothing { before with queue := rest } worker task nothing with
              ⟨db, queue', pushing, tasks⟩
            exact .loses lost db (queue.trans (congrArg (· ++ [runId]) queue'.symm)) pushing
              tasks
      · cases taken
  | wake worker =>
      rw [step] at taken
      split at taken
      · cases taken
        exact .quiet trivial rfl rfl rfl rfl
      · cases taken
  | call task label =>
      rw [step] at taken
      split at taken
      · cases taken
      · next entry running =>
          split at taken
          · cases taken
          · next works =>
              rcases Option.map_eq_some_iff.mp taken with ⟨⟨db, call⟩, stepped, rfl⟩
              refine .calls running ?_ stepped rfl rfl rfl
              rintro rfl
              exact works rfl
  | release task =>
      rw [step] at taken
      split at taken
      · cases taken
      · next entry running =>
          split at taken
          · next ended =>
              cases taken
              exact .releases running (not_pending_of_ended ended) rfl rfl rfl rfl
          · cases taken

/-! ## What every step keeps -/

/-- The ids that wait for a worker. -/
def waiting (service : Service Worker Task) : List UUID := service.pushing ++ service.queue

/-- The ids on their way are those of queued runs, each once and in the hands of no task; no
document of a run is missing. -/
structure Consistent (service : Service Worker Task) : Prop where
  nodup : service.waiting.Nodup
  queued : ∀ id ∈ service.waiting, ∃ run, service.db.runs id = some run ∧ run.status = .queued
  untaken : ∀ id ∈ service.waiting, ∀ task entry, service.tasks task = some entry →
    entry.runId ≠ id
  known : ∀ task entry, service.tasks task = some entry → (service.db.runs entry.runId).isSome
  documents : ∀ id run, service.db.runs id = some run →
    (service.db.documents run.documentId).isSome
  read : ∀ task entry, service.tasks task = some entry → ∀ run claimable,
    entry.call = .readRun run claimable → (service.db.documents run.documentId).isSome

omit [Interpreter] [DecidableEq Worker] [DecidableEq Task] in
theorem Idle.consistent {concurrency : ℕ} (idle : Idle concurrency before) :
    Consistent before where
  nodup := by simpa [waiting, idle.pushing] using idle.nodup
  queued := fun id member => (idle.queue id).mp (by simpa [waiting, idle.pushing] using member)
  untaken := fun _ _ task entry found => by simp [idle.tasks task] at found
  known := fun task entry found => by simp [idle.tasks task] at found
  documents := idle.documents
  read := fun task entry found => by simp [idle.tasks task] at found

omit [Interpreter] [DecidableEq Worker] [DecidableEq Task] in
/-- A step that writes no row, starts no task and puts no id on its way. -/
theorem Consistent.of_subset (consistent : Consistent before) (db : after.db = before.db)
    (nodup : after.waiting.Nodup) (subset : after.waiting ⊆ before.waiting)
    (tasks : ∀ task entry, after.tasks task = some entry → before.tasks task = some entry) :
    Consistent after where
  nodup := nodup
  queued := fun id member => db ▸ consistent.queued id (subset member)
  untaken := fun id member task entry found =>
    consistent.untaken id (subset member) task entry (tasks task entry found)
  known := fun task entry found => db ▸ consistent.known task entry (tasks task entry found)
  documents := db ▸ consistent.documents
  read := fun task entry found => db ▸ consistent.read task entry (tasks task entry found)

omit [Interpreter] [DecidableEq Worker] [DecidableEq Task] in
theorem waiting_congr (pushing : after.pushing = before.pushing)
    (queue : after.queue = before.queue) : after.waiting = before.waiting := by
  rw [waiting, waiting, pushing, queue]

omit [Interpreter] [DecidableEq Worker] [DecidableEq Task] in
theorem waiting_push {runId : UUID} {stored : Bool} (submitted : runId ∈ before.pushing)
    (queue : after.queue = if stored then runId :: before.queue else before.queue)
    (pushing : after.pushing = before.pushing.erase runId) :
    (if stored then after.waiting else runId :: after.waiting).Perm before.waiting := by
  have back : (runId :: before.pushing.erase runId).Perm before.pushing :=
    (List.perm_cons_erase submitted).symm
  cases stored with
  | true =>
      simp only [waiting, queue, pushing, if_true]
      exact List.perm_middle.trans (back.append_right before.queue)
  | false =>
      simp only [waiting, queue, pushing, Bool.false_eq_true, if_false]
      exact back.append_right before.queue

omit [Interpreter] [DecidableEq Worker] [DecidableEq Task] in
theorem waiting_pop {runId : UUID} (queue : before.queue = after.queue ++ [runId])
    (pushing : after.pushing = before.pushing) :
    before.waiting = after.waiting ++ [runId] := by
  rw [waiting, waiting, pushing, queue, List.append_assoc]

omit [Interpreter] [DecidableEq Worker] [DecidableEq Task] in
theorem Consistent.submits (consistent : Consistent before) {documentId runId : UUID}
    {document : Document} {run : ValidationRun} (freshRun : before.db.runs runId = none)
    (queued : run.status = .queued) (own : run.documentId = documentId)
    (db : after.db = (before.db.setDocument documentId document).setRun runId run)
    (queue : after.queue = before.queue) (pushing : after.pushing = runId :: before.pushing)
    (tasks : after.tasks = before.tasks) : Consistent after := by
  have waits : after.waiting = runId :: before.waiting := by
    rw [waiting, waiting, queue, pushing, List.cons_append]
  have keepsRun {id : UUID} (differ : id ≠ runId) : after.db.runs id = before.db.runs id := by
    simp [db, differ]
  have ne_of_run {id : UUID} {row : ValidationRun} (present : before.db.runs id = some row) :
      id ≠ runId := by
    rintro rfl
    simp [freshRun] at present
  have keepsDocument {id : UUID} (present : (before.db.documents id).isSome) :
      (after.db.documents id).isSome := by
    by_cases same : id = documentId <;> simp [db, same, present]
  refine ⟨?_, ?_, ?_, ?_, ?_, ?_⟩
  · rw [waits, List.nodup_cons]
    refine ⟨fun member => ?_, consistent.nodup⟩
    rcases consistent.queued runId member with ⟨row, present, _⟩
    exact ne_of_run present rfl
  · intro id member
    rw [waits] at member
    rcases List.mem_cons.mp member with rfl | earlier
    · exact ⟨run, by simp [db], queued⟩
    · rcases consistent.queued id earlier with ⟨row, present, status⟩
      exact ⟨row, by rw [keepsRun (ne_of_run present), present], status⟩
  · intro id member task entry found
    rw [waits] at member
    rw [tasks] at found
    rcases List.mem_cons.mp member with rfl | earlier
    · rcases Option.isSome_iff_exists.mp (consistent.known task entry found) with ⟨row, present⟩
      exact ne_of_run present
    · exact consistent.untaken id earlier task entry found
  · intro task entry found
    rw [tasks] at found
    have present := consistent.known task entry found
    rcases Option.isSome_iff_exists.mp present with ⟨row, found'⟩
    rwa [keepsRun (ne_of_run found')]
  · intro id row present
    by_cases same : id = runId
    · subst same
      obtain rfl : run = row := by simpa [db] using present
      simp [db, own]
    · rw [keepsRun same] at present
      exact keepsDocument (consistent.documents id row present)
  · intro task entry found row claimable at_read
    rw [tasks] at found
    exact keepsDocument (consistent.read task entry found row claimable at_read)

omit [Interpreter] [DecidableEq Worker] in
theorem Consistent.hands (consistent : Consistent before) {worker : Worker} {task : Task}
    {runId : UUID} (db : after.db = before.db) (queue : before.queue = after.queue ++ [runId])
    (pushing : after.pushing = before.pushing)
    (tasks : after.tasks =
      Function.update before.tasks task (some ⟨worker, runId, .started⟩)) : Consistent after := by
  have waits := waiting_pop queue pushing
  have nodup := consistent.nodup
  rw [waits] at nodup
  have earlier {id : UUID} (member : id ∈ after.waiting) : id ∈ before.waiting := by
    rw [waits]
    exact List.mem_append_left _ member
  have source {other : Task} {found : RunTask Worker}
      (present : after.tasks other = some found) :
      before.tasks other = some found ∨ found = ⟨worker, runId, .started⟩ := by
    rw [tasks] at present
    by_cases same : other = task
    · subst same
      exact .inr (Option.some.inj (by simpa using present)).symm
    · exact .inl (by rwa [Function.update_of_ne same] at present)
  refine ⟨nodup.of_append_left, ?_, ?_, ?_, db ▸ consistent.documents, ?_⟩
  · exact fun id member => db ▸ consistent.queued id (earlier member)
  · intro id member other found present
    rcases source present with old | rfl
    · exact consistent.untaken id (earlier member) other found old
    · rintro rfl
      exact List.disjoint_of_nodup_append nodup member (by simp)
  · intro other found present
    rw [db]
    rcases source present with old | rfl
    · exact consistent.known other found old
    · rcases consistent.queued runId (by simp [waits]) with ⟨run, there, _⟩
      simp [there]
  · intro other found present run claimable at_read
    rw [db]
    rcases source present with old | rfl
    · exact consistent.read other found old run claimable at_read
    · cases at_read

omit [DecidableEq Worker] in
theorem Consistent.calls (consistent : Consistent before) {task : Task} {label : CallStep}
    {entry : RunTask Worker} {call : Call} (running : before.tasks task = some entry)
    (taken : Call.step entry.runId before.db entry.call label = some (after.db, call))
    (queue : after.queue = before.queue) (pushing : after.pushing = before.pushing)
    (tasks : after.tasks = Function.update before.tasks task (some { entry with call := call })) :
    Consistent after := by
  have moves := Call.moves_of_step taken
  have kept := moves.rowsKept
  have waits := waiting_congr pushing queue
  have source {other : Task} {found : RunTask Worker}
      (present : after.tasks other = some found) :
      ∃ old, before.tasks other = some old ∧ old.runId = found.runId ∧
        (old.call = found.call ∨ other = task ∧ found = { entry with call := call }) := by
    rw [tasks] at present
    by_cases same : other = task
    · subst same
      obtain rfl := Option.some.inj (by simpa using present)
      exact ⟨entry, running, rfl, .inr ⟨rfl, rfl⟩⟩
    · rw [Function.update_of_ne same] at present
      exact ⟨found, present, rfl, .inl rfl⟩
  have documents : ∀ id run, after.db.runs id = some run →
      (after.db.documents run.documentId).isSome := by
    intro id run present
    have documentId := kept.runs id
    rw [present] at documentId
    rcases Option.map_eq_some_iff.mp documentId.symm with ⟨row, found, same⟩
    rw [← same]
    exact kept.documents _ (consistent.documents id row found)
  refine ⟨waits ▸ consistent.nodup, ?_, ?_, ?_, documents, ?_⟩
  · intro id member
    rw [waits] at member
    have own : id ≠ entry.runId := (consistent.untaken id member task entry running).symm
    rw [moves.runs_of_ne own]
    exact consistent.queued id member
  · intro id member other found present
    rw [waits] at member
    rcases source present with ⟨old, present', same, _⟩
    rw [← same]
    exact consistent.untaken id member other old present'
  · intro other found present
    rcases source present with ⟨old, present', same, _⟩
    have there := consistent.known other old present'
    rw [same] at there
    rwa [← Option.isSome_map, kept.runs, Option.isSome_map]
  · intro other found present run claimable at_read
    rcases source present with ⟨old, present', same, unchanged | ⟨_, rfl⟩⟩
    · exact kept.documents _
        (consistent.read other old present' run claimable (unchanged.trans at_read))
    · obtain rfl : call = .readRun run claimable := at_read
      have there := Call.runs_of_readRun taken
      exact kept.documents _ (consistent.documents entry.runId run there)

theorem Consistent.step (consistent : Consistent before)
    (taken : step verified before label = some after) : Consistent after := by
  cases moves_of_step taken with
  | quiet delivered db queue pushing tasks =>
      have waits := waiting_congr pushing queue
      exact consistent.of_subset db (waits ▸ consistent.nodup) (waits ▸ List.Subset.refl _)
        fun _ _ found => tasks ▸ found
  | submits freshDocument freshRun accepted queue pushing tasks =>
      rcases exists_submitted accepted with ⟨machineId, _, db⟩
      refine consistent.submits freshRun ?_ ?_ db queue pushing tasks <;> rfl
  | @pushes runId reply _ submitted db queue pushing tasks =>
      have perm := waiting_push submitted queue pushing
      have nodup := perm.nodup_iff.mpr consistent.nodup
      refine consistent.of_subset db ?_ ?_ fun _ _ found => tasks ▸ found
      · cases stored : reply.stored with
        | true => simpa [stored] using nodup
        | false => simpa [stored] using (by simpa [stored] using nodup : _ ∧ _).2
      · intro id member
        refine perm.subset ?_
        cases stored : reply.stored with
        | true => simpa [stored] using member
        | false => simpa [stored] using Or.inr member
  | hands delivered free db queue pushing tasks => exact consistent.hands db queue pushing tasks
  | loses lost db queue pushing tasks =>
      have waits := waiting_pop queue pushing
      refine consistent.of_subset db ?_ ?_ fun _ _ found => tasks ▸ found
      · have nodup := consistent.nodup
        rw [waits] at nodup
        exact nodup.of_append_left
      · rw [waits]
        exact List.subset_append_left _ _
  | calls running noFail taken queue pushing tasks =>
      exact consistent.calls running taken queue pushing tasks
  | @releases task _ _ running ended db queue pushing tasks =>
      have waits := waiting_congr pushing queue
      refine consistent.of_subset db (waits ▸ consistent.nodup) (waits ▸ List.Subset.refl _) ?_
      intro other found present
      rw [tasks] at present
      by_cases same : other = task
      · simp [same] at present
      · rwa [Function.update_of_ne same] at present

/-! ## Delivered steps orphan no run -/

omit [Interpreter] [DecidableEq Worker] [DecidableEq Task] in
theorem accounted_iff {service : Service Worker Task} {id : UUID} :
    service.Accounted id ↔ id ∈ service.waiting ∨
      ∃ task entry, service.tasks task = some entry ∧ entry.runId = id ∧ entry.call.Pending := by
  simp only [Accounted, waiting, List.mem_append]
  tauto

omit [Interpreter] [DecidableEq Worker] [DecidableEq Task] in
theorem Idle.noOrphan {concurrency : ℕ} (idle : Idle concurrency before) : NoOrphan before :=
  fun id run present queued => .inl ((idle.queue id).mpr ⟨run, present, queued⟩)

omit [DecidableEq Worker] in
/-- A step of a task accounts for the runs that are queued after it. -/
theorem NoOrphan.calls (noOrphan : NoOrphan before) (consistent : Consistent before)
    {task : Task} {label : CallStep} {entry : RunTask Worker} {call : Call}
    (running : before.tasks task = some entry) (noFail : label ≠ .fail)
    (taken : Call.step entry.runId before.db entry.call label = some (after.db, call))
    (queue : after.queue = before.queue) (pushing : after.pushing = before.pushing)
    (tasks : after.tasks = Function.update before.tasks task (some { entry with call := call })) :
    NoOrphan after := by
  intro id run found queued
  rcases (Call.moves_of_step taken).queued found queued with ⟨row, present, status, unclaimed⟩
  rw [accounted_iff, waiting_congr pushing queue]
  rcases accounted_iff.mp (noOrphan id row present status) with
    member | ⟨other, holder, held, rfl, pending⟩
  · exact .inl member
  · refine .inr ⟨other, ?_⟩
    rw [tasks]
    by_cases same : other = task
    · subst same
      rw [running] at held
      cases held
      refine ⟨{ entry with call := call }, Function.update_self .., rfl, ?_⟩
      exact Call.pending_of_step taken pending noFail (unclaimed rfl) present
        (by rw [status]; decide) fun read readable at_read =>
          consistent.read other entry running read readable at_read
    · exact ⟨holder, by rw [Function.update_of_ne same, held], rfl, pending⟩

/-- A delivered step orphans no run. -/
theorem NoOrphan.step (noOrphan : NoOrphan before) (consistent : Consistent before)
    (taken : step verified before label = some after) (delivered : label.Delivered) :
    NoOrphan after := by
  cases moves_of_step taken with
  | quiet _ db queue pushing tasks =>
      intro id run present queued
      rw [accounted_iff, waiting_congr pushing queue, tasks]
      exact accounted_iff.mp (noOrphan id run (db ▸ present) queued)
  | @submits upload documentId runId _ freshDocument freshRun accepted queue pushing tasks =>
      rcases exists_submitted accepted with ⟨machineId, _, db⟩
      intro id run present queued
      by_cases same : id = runId
      · exact .inr (.inl (by simp [pushing, same]))
      · rw [db, Database.runs_setRun, Function.update_of_ne same] at present
        have before := noOrphan id run present queued
        rw [Accounted, queue, pushing, tasks]
        exact before.imp_right (Or.imp_left (List.mem_cons_of_mem runId))
  | @pushes runId reply _ submitted db queue pushing tasks =>
      have perm := waiting_push submitted queue pushing
      have stored : reply.stored = true := delivered
      rw [if_pos stored] at perm
      intro id run present queued
      rw [accounted_iff, perm.mem_iff, tasks]
      exact accounted_iff.mp (noOrphan id run (db ▸ present) queued)
  | @hands worker task _ runId _ _ free db queue pushing tasks =>
      intro id run present queued
      rw [accounted_iff, tasks]
      rcases accounted_iff.mp (noOrphan id run (db ▸ present) queued) with
        member | ⟨other, entry, held, own, pending⟩
      · rw [waiting_pop queue pushing, List.mem_append, List.mem_singleton] at member
        refine member.imp_right ?_
        rintro rfl
        exact ⟨task, _, Function.update_self .., rfl, trivial⟩
      · have differ : other ≠ task := by
          rintro rfl
          rw [free] at held
          cases held
        exact .inr ⟨other, entry, by rw [Function.update_of_ne differ, held], own, pending⟩
  | loses lost db queue pushing tasks =>
      rw [ServiceStep.Delivered, lost] at delivered
      cases delivered
  | calls running noFail taken queue pushing tasks =>
      exact noOrphan.calls consistent running noFail taken queue pushing tasks
  | @releases task entry _ running ended db queue pushing tasks =>
      intro id run present queued
      rw [accounted_iff, waiting_congr pushing queue, tasks]
      refine (accounted_iff.mp (noOrphan id run (db ▸ present) queued)).imp_right ?_
      rintro ⟨other, holder, held, own, pending⟩
      have differ : other ≠ task := by
        rintro rfl
        rw [running] at held
        cases held
        exact ended pending
      exact ⟨other, holder, by rw [Function.update_of_ne differ, held], own, pending⟩

/-! ## A step that is not delivered orphans a run -/

omit [Interpreter] [DecidableEq Worker] [DecidableEq Task] in
/-- An id that is no longer on its way and in the hands of no task is that of an orphan. -/
theorem Consistent.not_noOrphan (consistent : Consistent before) {id : UUID}
    (member : id ∈ before.waiting) (gone : id ∉ after.waiting) (db : after.db = before.db)
    (tasks : after.tasks = before.tasks) : ¬NoOrphan after := by
  intro noOrphan
  rcases consistent.queued id member with ⟨run, present, queued⟩
  rcases accounted_iff.mp (noOrphan id run (db ▸ present) queued) with
    there | ⟨task, entry, held, own, _⟩
  · exact gone there
  · exact consistent.untaken id member task entry (tasks ▸ held) own

theorem Consistent.delivered (consistent : Consistent before)
    (taken : Service.step verified before label = some after) (noOrphan : NoOrphan after) :
    label.Delivered := by
  cases moves_of_step taken with
  | quiet delivered db queue pushing tasks => exact delivered
  | submits freshDocument freshRun accepted queue pushing tasks => trivial
  | @pushes runId reply _ submitted db queue pushing tasks =>
      have perm := waiting_push submitted queue pushing
      by_contra dropped
      rw [ServiceStep.Delivered, Bool.not_eq_true] at dropped
      rw [dropped, if_neg (by simp)] at perm
      have nodup := perm.nodup_iff.mpr consistent.nodup
      exact consistent.not_noOrphan (perm.subset (by simp)) (List.nodup_cons.mp nodup).1 db tasks
        noOrphan
  | hands delivered free db queue pushing tasks => exact delivered
  | @loses worker task reply runId _ lost db queue pushing tasks =>
      have waits := waiting_pop queue pushing
      have nodup := consistent.nodup
      rw [waits] at nodup
      have popped : runId ∈ before.waiting := by simp [waits]
      have gone : runId ∉ after.waiting := fun member =>
        List.disjoint_of_nodup_append nodup member (List.mem_singleton_self runId)
      exact absurd noOrphan (consistent.not_noOrphan popped gone db tasks)
  | calls running noFail taken queue pushing tasks => trivial
  | releases running ended db queue pushing tasks => trivial

/-- The executions in which no queued run is ever orphaned are those in which every push and
every pop is delivered. -/
theorem noOrphan_iff {concurrency : ℕ} {start final : Service Worker Task}
    {labels : List (ServiceStep Worker Task)}
    (idle : (system verified concurrency).initial start) :
    (system verified concurrency).Execution (fun _ _ after => NoOrphan after) start labels final ↔
      (system verified concurrency).Execution (fun _ label _ => label.Delivered) start labels
        final := by
  have consistent : Consistent start := Idle.consistent idle
  constructor
  · intro execution
    refine (execution.transfer Consistent ?_ consistent).2
    exact fun consistent taken noOrphan =>
      ⟨consistent.step taken, consistent.delivered taken noOrphan⟩
  · intro execution
    refine (execution.transfer (fun service => Consistent service ∧ NoOrphan service) ?_
      ⟨consistent, Idle.noOrphan idle⟩).2
    rintro before label after ⟨consistent, noOrphan⟩ taken delivered
    have next := noOrphan.step consistent taken delivered
    exact ⟨⟨consistent.step taken, next⟩, next⟩

end Model

/-! ## Two lost ids -/

section Closed

attribute [local instance] Interpreter.ascii

/-- An empty database and one worker with one permit. -/
def sampleService : Service Unit ℕ where
  db := ⟨fun _ => none, fun _ => none, fun _ => none, fun _ => none⟩
  queue := []
  pushing := []
  loops := fun _ => ⟨1, .acquiring⟩
  tasks := fun _ => none

/-- A contract of one byte. -/
def sampleUpload : Upload where
  docType := "contract".toList
  temperature := 0
  data := [65]
  subject := "subject".toList
  blobRef := "upload.txt".toList

/-- A request whose push the server does not carry out. -/
def failedPush : List (ServiceStep Unit ℕ) :=
  [.submit sampleUpload "document".toList "run".toList,
    .push "run".toList (.raised ⟨"ConnectionError".toList, []⟩ false)]

/-- A pop that times out on the client after the server has popped the id. -/
def lostPop : List (ServiceStep Unit ℕ) :=
  [.submit sampleUpload "document".toList "run".toList, .push "run".toList .done, .acquire (),
    .dequeue () 0 (.timedOut true)]

theorem idle_sampleService : Idle 1 sampleService := by
  refine ⟨rfl, fun _ => rfl, fun _ => rfl, List.nodup_nil, fun id => ?_, ?_⟩
  · exact iff_of_false List.not_mem_nil (by rintro ⟨run, ⟨⟩, _⟩)
  · rintro id run ⟨⟩

theorem noOrphan_lostPop : ∃ final,
    (system ∅ 1).Executes sampleService lostPop final ∧
      ((system ∅ 1).Execution (fun _ _ after => NoOrphan after) sampleService lostPop final ↔
        (system ∅ 1).Execution (fun _ label _ => label.Delivered) sampleService lostPop final) :=
  ⟨_, executes_of_execute rfl, noOrphan_iff idle_sampleService⟩

/-- A failing push and a lost pop each orphan a run. -/
theorem orphan_failedPush_lostPop :
    Idle 1 sampleService ∧
      (∃ final, (system ∅ 1).Executes sampleService failedPush final ∧ ¬NoOrphan final) ∧
      ∃ final, (system ∅ 1).Executes sampleService lostPop final ∧ ¬NoOrphan final := by
  refine ⟨idle_sampleService, ⟨_, executes_of_execute rfl, ?_⟩, _, executes_of_execute rfl, ?_⟩
  · intro noOrphan
    rcases noOrphan "run".toList _ rfl rfl with ⟨⟨⟩⟩ | ⟨⟨⟩⟩ | ⟨task, entry, ⟨⟩, _⟩
  · intro noOrphan
    rcases noOrphan "run".toList _ rfl rfl with ⟨⟨⟩⟩ | ⟨⟨⟩⟩ | ⟨task, entry, ⟨⟩, _⟩

end Closed

end Service

end OrcaValidator
