import OrcaValidator.Pipeline.Worker

/-!
# One worker process

The loop of `main` and the tasks that it creates, between the calls of `enqueue` that other
processes make.  A task is created when an id is dequeued and begins later: the event loop
begins tasks in the order in which they were created, and any task that has begun may be the
next one to finish.

The permit that the loop takes is given back by the branch for an error, by the branch for
an empty list or by the task.  What has been enqueued, dequeued and started is recorded in
the state.
-/

namespace OrcaValidator

open Library System

/-- A worker with its tasks, and the list that it pops from. -/
structure WorkerProcess where
  loop : WorkerLoop
  /-- The tasks that have not begun, the oldest first. -/
  scheduled : List UUID
  /-- The tasks inside `run_validation`. -/
  running : List UUID
  /-- The Redis list, the head first. -/
  queue : List UUID
  enqueued : List UUID
  dequeued : List UUID
  started : List UUID

/-- The steps of the worker and of those who push ids. -/
inductive ProcessStep where
  | enqueue (runId : UUID) (reply : PushReply)
  | acquire
  | dequeue (reply : PopReply)
  | wake
  /-- The oldest task that has not begun calls `run_validation`. -/
  | start
  /-- The call of `run_validation` returns or raises. -/
  | finish (runId : UUID) (outcome : Except PyException Unit)

/-- The pop takes no id that the loop does not get. -/
def ProcessStep.Delivered : ProcessStep → Prop
  | .dequeue reply => reply.lost = false
  | _ => True

/-- A task begins. -/
def ProcessStep.starts : ProcessStep → Bool
  | .start => true
  | _ => false

namespace WorkerProcess

/-- The run tasks that have not finished. -/
def unfinished (process : WorkerProcess) : ℕ :=
  process.scheduled.length + process.running.length

/-- `sem.release()`. -/
def releasePermit (process : WorkerProcess) : WorkerProcess :=
  { process with loop := { process.loop with permits := process.loop.permits + 1 } }

/-- Where the loop is now. -/
def setPhase (process : WorkerProcess) (phase : LoopPhase) : WorkerProcess :=
  { process with loop := { process.loop with phase := phase } }

/-- `asyncio.create_task(_run_one(run_id, sem))`. -/
def createTask (process : WorkerProcess) (runId : UUID) : WorkerProcess :=
  { process with
    scheduled := process.scheduled ++ [runId]
    dequeued := process.dequeued ++ [runId] }

/-- The loop goes on with what `dequeue` returned or raised. -/
def afterDequeue (process : WorkerProcess) : Except PyException (Option UUID) → WorkerProcess
  | .ok (some runId) => (process.createTask runId).setPhase .acquiring
  | .ok none => process.releasePermit.setPhase .acquiring
  | .error _ => process.releasePermit.setPhase .sleeping

/-- What follows `run_validation` in `_run_one`: the error is logged, if there is one, and
the permit is released either way. -/
def afterRun (process : WorkerProcess) : Except PyException Unit → WorkerProcess
  | .ok _ => process.releasePermit
  | .error _ => process.releasePermit

/-- One step.  The loop is suspended at its three `await`s, and tasks go on in between. -/
def step (process : WorkerProcess) : ProcessStep → Option WorkerProcess
  | .enqueue runId reply => some { process with
      queue := (OrcaValidator.enqueue runId reply process.queue).2
      enqueued := if reply.stored then process.enqueued ++ [runId] else process.enqueued }
  | .acquire =>
      if process.loop.phase = .acquiring ∧ 0 < process.loop.permits then
        some { process with loop := ⟨process.loop.permits - 1, .dequeuing⟩ }
      else none
  | .dequeue reply =>
      if process.loop.phase = .dequeuing then
        (OrcaValidator.dequeue reply process.queue).map fun (outcome, queue) =>
          { process with queue := queue }.afterDequeue outcome
      else none
  | .wake => if process.loop.phase = .sleeping then some (process.setPhase .acquiring) else none
  | .start =>
      match process.scheduled with
      | [] => none
      | runId :: scheduled => some { process with
          scheduled := scheduled
          running := process.running ++ [runId]
          started := process.started ++ [runId] }
  | .finish runId outcome =>
      if runId ∈ process.running then
        some ({ process with running := process.running.erase runId }.afterRun outcome)
      else none

/-- The process begins with all its permits, before a list that others may have filled. -/
structure Fresh (concurrency : ℕ) (process : WorkerProcess) : Prop where
  loop : process.loop = ⟨concurrency, .acquiring⟩
  scheduled : process.scheduled = []
  running : process.running = []
  enqueued : process.enqueued = process.queue.reverse
  dequeued : process.dequeued = []
  started : process.started = []

/-- `main` with `WORKER_CONCURRENCY`. -/
def system (concurrency : ℕ) : System WorkerProcess ProcessStep where
  initial := Fresh concurrency
  step := step

/-- What each step does, and when it is possible. -/
inductive Moves (before : WorkerProcess) : ProcessStep → WorkerProcess → Prop
  | enqueue (runId : UUID) (reply : PushReply) :
      Moves before (.enqueue runId reply) { before with
        queue := (OrcaValidator.enqueue runId reply before.queue).2
        enqueued := if reply.stored then before.enqueued ++ [runId] else before.enqueued }
  | acquire (acquiring : before.loop.phase = .acquiring) (free : 0 < before.loop.permits) :
      Moves before .acquire { before with loop := ⟨before.loop.permits - 1, .dequeuing⟩ }
  | dequeue {reply : PopReply} {outcome : Except PyException (Option UUID)} {rest : List UUID}
      (dequeuing : before.loop.phase = .dequeuing)
      (popped : OrcaValidator.dequeue reply before.queue = some (outcome, rest)) :
      Moves before (.dequeue reply) ({ before with queue := rest }.afterDequeue outcome)
  | wake (sleeping : before.loop.phase = .sleeping) :
      Moves before .wake (before.setPhase .acquiring)
  | start {runId : UUID} {scheduled : List UUID} (oldest : before.scheduled = runId :: scheduled) :
      Moves before .start { before with
        scheduled := scheduled
        running := before.running ++ [runId]
        started := before.started ++ [runId] }
  | finish {runId : UUID} (outcome : Except PyException Unit) (running : runId ∈ before.running) :
      Moves before (.finish runId outcome)
        ({ before with running := before.running.erase runId }.afterRun outcome)

theorem moves_of_step {before after : WorkerProcess} {label : ProcessStep}
    (taken : before.step label = some after) : before.Moves label after := by
  cases label with
  | enqueue runId reply =>
      cases taken
      exact .enqueue runId reply
  | acquire =>
      rw [step] at taken
      split at taken
      · next ready =>
          cases taken
          exact .acquire ready.1 ready.2
      · cases taken
  | dequeue reply =>
      rw [step] at taken
      split at taken
      · next dequeuing =>
          rcases Option.map_eq_some_iff.mp taken with ⟨⟨outcome, rest⟩, popped, rfl⟩
          exact .dequeue dequeuing popped
      · cases taken
  | wake =>
      rw [step] at taken
      split at taken
      · next sleeping =>
          cases taken
          exact .wake sleeping
      · cases taken
  | start =>
      rw [step] at taken
      split at taken
      · cases taken
      · next runId scheduled oldest =>
          cases taken
          exact .start oldest
  | finish runId outcome =>
      rw [step] at taken
      split at taken
      · next running =>
          cases taken
          exact .finish outcome running
      · cases taken

/-! ## What the steps keep -/

/-- The permit that the loop itself holds. -/
def held (process : WorkerProcess) : ℕ :=
  match process.loop.phase with
  | .dequeuing => 1
  | _ => 0

/-- What every execution keeps: no permit is lost, tasks begin in the order in which their runs
were popped, and runs are popped in the order in which they were pushed. -/
structure Invariant (concurrency : ℕ) (process : WorkerProcess) : Prop where
  permits : process.loop.permits + process.held + process.unfinished = concurrency
  taken : process.dequeued = process.started ++ process.scheduled
  order : (process.dequeued ++ process.queue.reverse).Sublist process.enqueued

/-- Nothing that was enqueued is missing. -/
def Complete (process : WorkerProcess) : Prop :=
  process.dequeued ++ process.queue.reverse = process.enqueued

variable {concurrency : ℕ} {before after : WorkerProcess} {label : ProcessStep}

theorem Fresh.invariant (fresh : Fresh concurrency before) : Invariant concurrency before where
  permits := by simp [fresh.loop, held, unfinished, fresh.scheduled, fresh.running]
  taken := by simp [fresh.dequeued, fresh.started, fresh.scheduled]
  order := by simp [fresh.dequeued, fresh.enqueued]

theorem Fresh.complete (fresh : Fresh concurrency before) : before.Complete := by
  simp [Complete, fresh.dequeued, fresh.enqueued]

/-- The branches after a pop: the id becomes a task, or the permit is free again. -/
theorem permits_afterDequeue (process : WorkerProcess)
    (outcome : Except PyException (Option UUID)) :
    (process.afterDequeue outcome).loop.permits + (process.afterDequeue outcome).held +
        (process.afterDequeue outcome).unfinished =
      process.loop.permits + 1 + process.unfinished := by
  rcases outcome with error | _ | runId
  · simp [afterDequeue, releasePermit, setPhase, held, unfinished]
  · simp [afterDequeue, releasePermit, setPhase, held, unfinished]
  · simp only [afterDequeue, createTask, setPhase, held, unfinished, List.length_append,
      List.length_singleton]
    omega

theorem records_afterDequeue_of_nothing (process : WorkerProcess)
    {outcome : Except PyException (Option UUID)} (nothing : ∀ runId, outcome ≠ .ok (some runId)) :
    (process.afterDequeue outcome).scheduled = process.scheduled ∧
      (process.afterDequeue outcome).queue = process.queue ∧
      (process.afterDequeue outcome).enqueued = process.enqueued ∧
      (process.afterDequeue outcome).dequeued = process.dequeued ∧
      (process.afterDequeue outcome).started = process.started := by
  rcases outcome with error | _ | runId
  · exact ⟨rfl, rfl, rfl, rfl, rfl⟩
  · exact ⟨rfl, rfl, rfl, rfl, rfl⟩
  · exact absurd rfl (nothing runId)

/-- Every move keeps the invariant. -/
theorem Invariant.moves (invariant : Invariant concurrency before)
    (moves : before.Moves label after) : Invariant concurrency after := by
  have permits := invariant.permits
  have order := invariant.order
  cases moves with
  | enqueue runId reply =>
      refine ⟨permits, invariant.taken, ?_⟩
      by_cases stored : reply.stored
      · have grown := order.append (List.Sublist.refl [runId])
        simpa [OrcaValidator.enqueue, stored] using grown
      · simpa [OrcaValidator.enqueue, stored] using order
  | acquire acquiring free =>
      refine ⟨?_, invariant.taken, order⟩
      simp only [held, acquiring, unfinished] at permits ⊢
      omega
  | @dequeue reply outcome rest dequeuing popped =>
      simp only [held, dequeuing] at permits
      refine ⟨(permits_afterDequeue _ outcome).trans permits, ?_, ?_⟩
      · rcases dequeue_cases popped with ⟨runId, delivered, rfl, queue⟩ | ⟨nothing, lost⟩
        · simp [afterDequeue, createTask, setPhase, invariant.taken]
        · have records := records_afterDequeue_of_nothing { before with queue := rest } nothing
          rw [records.1, records.2.2.2.1, records.2.2.2.2]
          exact invariant.taken
      · rcases dequeue_cases popped with ⟨runId, delivered, rfl, queue⟩ | ⟨nothing, lost⟩
        · simpa [afterDequeue, createTask, setPhase, queue] using order
        · have records := records_afterDequeue_of_nothing { before with queue := rest } nothing
          rw [records.2.1, records.2.2.1, records.2.2.2.1]
          rcases lost with ⟨delivered, rfl⟩ | ⟨lost, runId, queue⟩
          · exact order
          · -- the lost id is left out of the order
            rw [queue, List.reverse_append] at order
            exact ((List.sublist_append_right [runId] rest.reverse).append_left _).trans order
  | wake sleeping =>
      refine ⟨?_, invariant.taken, order⟩
      simpa [held, sleeping, setPhase, unfinished] using permits
  | start oldest =>
      refine ⟨?_, ?_, order⟩
      · simp only [unfinished, oldest, held, List.length_cons, List.length_append,
          List.length_nil] at permits ⊢
        omega
      · simp [invariant.taken, oldest]
  | finish outcome running =>
      have fewer := List.length_erase_of_mem running
      have some := List.length_pos_of_mem running
      cases outcome with
      | ok _ =>
          refine ⟨?_, invariant.taken, order⟩
          simp only [afterRun, releasePermit, held, unfinished, fewer] at permits ⊢
          omega
      | error _ =>
          refine ⟨?_, invariant.taken, order⟩
          simp only [afterRun, releasePermit, held, unfinished, fewer] at permits ⊢
          omega

/-- Nothing goes missing while every pop is delivered. -/
theorem Complete.moves (complete : before.Complete) (moves : before.Moves label after)
    (delivered : label.Delivered) : after.Complete := by
  unfold Complete at complete
  cases moves with
  | enqueue runId reply =>
      by_cases stored : reply.stored
      · simp [Complete, OrcaValidator.enqueue, stored, ← complete]
      · simp [Complete, OrcaValidator.enqueue, stored, complete]
  | acquire _ _ => exact complete
  | dequeue _ popped =>
      rcases dequeue_cases popped with ⟨runId, _, rfl, queue⟩ | ⟨nothing, ⟨_, rfl⟩ | ⟨lost, _⟩⟩
      · simpa [Complete, afterDequeue, createTask, setPhase, queue] using complete
      · have records := records_afterDequeue_of_nothing before nothing
        rw [Complete, records.2.1, records.2.2.1, records.2.2.2.1]
        exact complete
      · rw [ProcessStep.Delivered, lost] at delivered
        cases delivered
  | wake _ => exact complete
  | start _ => exact complete
  | finish outcome _ =>
      cases outcome with
      | ok _ => exact complete
      | error _ => exact complete

/-- What a move adds to the records. -/
theorem Moves.records (moves : before.Moves label after) :
    before.dequeued <+: after.dequeued ∧
      after.started.length = before.started.length + label.starts.toNat := by
  cases moves with
  | enqueue _ _ => exact ⟨List.prefix_rfl, rfl⟩
  | acquire _ _ => exact ⟨List.prefix_rfl, rfl⟩
  | @dequeue _ outcome _ _ _ =>
      rcases outcome with error | _ | runId
      · exact ⟨List.prefix_rfl, rfl⟩
      · exact ⟨List.prefix_rfl, rfl⟩
      · exact ⟨List.prefix_append before.dequeued [runId], rfl⟩
  | wake _ => exact ⟨List.prefix_rfl, rfl⟩
  | start _ => exact ⟨List.prefix_rfl, List.length_append⟩
  | finish outcome _ =>
      cases outcome with
      | ok _ => exact ⟨List.prefix_rfl, rfl⟩
      | error _ => exact ⟨List.prefix_rfl, rfl⟩

/-! ## Executions -/

variable {start reached final : WorkerProcess} {labels later : List ProcessStep}

theorem records_execution (execution : (system concurrency).Executes reached later final) :
    reached.dequeued <+: final.dequeued ∧
      final.started.length = reached.started.length + later.countP ProcessStep.starts := by
  induction execution with
  | refl state => exact ⟨List.prefix_rfl, rfl⟩
  | @step before next after label labels taken _ rest ih =>
      have first := (moves_of_step taken).records
      refine ⟨first.1.trans ih.1, ?_⟩
      rw [ih.2, first.2, List.countP_cons]
      cases label.starts with
      | false => simp
      | true =>
          simp only [Bool.toNat_true, if_true]
          omega

theorem invariant_of_execution (fresh : Fresh concurrency start)
    (execution : (system concurrency).Executes start labels reached) :
    Invariant concurrency reached := by
  have kept : Invariant concurrency reached ∧ (system concurrency).Executes start labels reached :=
    execution.transfer (Invariant concurrency)
      (fun invariant taken _ => ⟨invariant.moves (moves_of_step taken), trivial⟩) fresh.invariant
  exact kept.1

theorem complete_of_execution (fresh : Fresh concurrency start)
    (execution : (system concurrency).Executes start labels reached)
    (delivered : ∀ label ∈ labels, label.Delivered) : reached.Complete := by
  have kept : reached.Complete ∧ (system concurrency).Executes start labels reached :=
    (execution.restrict delivered).transfer Complete
      (fun complete taken delivered => ⟨complete.moves (moves_of_step taken) delivered, trivial⟩)
      fresh.complete
  exact kept.1

/-- The oldest task can begin, and once as many tasks have begun as were waiting, all that
had been dequeued by then is started. -/
theorem starts_of_execution (fresh : Fresh concurrency start)
    (execution : (system concurrency).Executes start labels reached) :
    (reached.scheduled ≠ [] → ∃ next, reached.step .start = some next) ∧
      ∀ later final, (system concurrency).Executes reached later final →
        reached.scheduled.length ≤ later.countP ProcessStep.starts →
        reached.dequeued <+: final.started := by
  constructor
  · intro waiting
    rcases List.exists_cons_of_ne_nil waiting with ⟨runId, scheduled, oldest⟩
    exact ⟨_, by rw [step, oldest]⟩
  · intro later final further enough
    have invariant := invariant_of_execution fresh execution
    have invariant' := invariant_of_execution fresh (execution.append further)
    have records := records_execution further
    have started : final.started <+: final.dequeued := by
      rw [invariant'.taken]
      exact List.prefix_append _ _
    have length := congrArg List.length invariant.taken
    rw [List.length_append] at length
    apply List.prefix_of_prefix_length_le records.1 started
    omega

/-- At the head of the loop the permits and the unfinished tasks make up the concurrency, no
more runs than that are inside `run_validation`, every dequeued id is started once, and runs
start in the order of their ids in the list: with none left out, unless a pop was lost. -/
theorem concurrency_of_execution (fresh : Fresh concurrency start)
    (execution : (system concurrency).Executes start labels reached) :
    (reached.loop.phase = .acquiring →
        reached.loop.permits + reached.unfinished = concurrency) ∧
      reached.running.length ≤ concurrency ∧
      reached.dequeued = reached.started ++ reached.scheduled ∧
      (reached.scheduled ≠ [] → ∃ next, reached.step .start = some next) ∧
      (∀ later final, (system concurrency).Executes reached later final →
        reached.scheduled.length ≤ later.countP ProcessStep.starts →
        reached.dequeued <+: final.started) ∧
      reached.started.Sublist reached.enqueued ∧
      ((∀ label ∈ labels, label.Delivered) → reached.started <+: reached.enqueued) := by
  have invariant := invariant_of_execution fresh execution
  have starts := starts_of_execution fresh execution
  have permits := invariant.permits
  refine ⟨?_, ?_, invariant.taken, starts.1, starts.2, ?_, ?_⟩
  · intro head
    simpa [held, head] using permits
  · rw [unfinished] at permits
    omega
  · have order := invariant.order
    rw [invariant.taken, List.append_assoc] at order
    exact (List.sublist_append_left _ _).trans order
  · intro delivered
    have complete := complete_of_execution fresh execution delivered
    rw [Complete, invariant.taken, List.append_assoc] at complete
    rw [← complete]
    exact List.prefix_append _ _

section Sample

/-- A worker with two permits and nothing to do. -/
def idle : WorkerProcess := ⟨⟨2, .acquiring⟩, [], [], [], [], [], []⟩

/-- Two runs at once, the first of which fails, and a pop that raises. -/
def shift : List ProcessStep :=
  [.enqueue ['a'] .done, .enqueue ['b'] .done, .acquire, .dequeue .item, .acquire, .start,
    .dequeue .item, .finish ['a'] (.error ⟨"RuntimeError".toList, []⟩), .acquire, .start,
    .dequeue (.raised ⟨"ConnectionError".toList, []⟩ false), .wake]

theorem concurrency_of_execution_shift : ∃ reached, (system 2).execute idle shift = some reached ∧
    reached.loop = ⟨1, .acquiring⟩ ∧ reached.running = [['b']] ∧
    reached.started = [['a'], ['b']] ∧ reached.started <+: reached.enqueued := by
  have executed : ∃ reached, (system 2).execute idle shift = some reached ∧
      reached.loop = ⟨1, .acquiring⟩ ∧ reached.running = [['b']] ∧
      reached.started = [['a'], ['b']] := ⟨_, rfl, rfl, rfl, rfl⟩
  rcases executed with ⟨reached, executed, loop, running, started⟩
  have fresh : Fresh 2 idle := ⟨rfl, rfl, rfl, rfl, rfl, rfl⟩
  have sound := concurrency_of_execution fresh (executes_of_execute executed)
  refine ⟨reached, executed, loop, running, started, sound.2.2.2.2.2.2 ?_⟩
  simp [shift, ProcessStep.Delivered, PopReply.lost]

end Sample

end WorkerProcess

end OrcaValidator
