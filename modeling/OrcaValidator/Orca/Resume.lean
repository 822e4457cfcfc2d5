import OrcaValidator.Orca.Bridge

/-!
# Restarts of the bridge

The calls that are made on one run, in any number, and a restart between two of them: the
registry is lost and the run is resumed with an empty context.

All that the calls depend on is the registered machine and the saved snapshot of the run.
On a storage that does not fail the bridge is a function of these two, and a restart goes
unnoticed if the snapshot is what the registered machine is.  The machine runs ahead of it:
a context that a call merges into a machine is saved only with the next taken transition.
-/

namespace OrcaValidator

open Library Effect OrcaBridge

/-- The calls of the bridge about one run. -/
inductive BridgeCall where
  | getOrCreate (context : Context)
  | send (event : ContractEvent) (payload context : Context)

/-- The context that a call is given. -/
def BridgeCall.context : BridgeCall → Context
  | .getOrCreate context => context
  | .send _ _ context => context

/-- What the bridge knows of one run. -/
structure RunCell where
  live : Option Machine
  saved : Option (MachineSnapshot ContractState)

/-- The part of the world that the bridge uses for one run. -/
def World.cell (key : Text) (world : World) : RunCell :=
  ⟨world.machines key, world.db.snapshots key⟩

/-- The machine with the values of a context on top of its own. -/
def Machine.merge (machine : Machine) (context : Context) : Machine :=
  { machine with context := machine.context.update context.entries }

/-- The machine has a row for the event, whose action succeeds. -/
def Machine.takes [Interpreter] (machine : Machine) (event : ContractEvent)
    (payload : Context) : Bool :=
  match machine.send event payload with
  | .error _ => false
  | .ok (taken, _) => taken

section Calls

variable [Interpreter] (storage : Storage) (docType entityId : Text)

/-- A call, with the storage and everything else in the world. -/
def BridgeCall.run : BridgeCall → Process Machine
  | .getOrCreate context => OrcaBridge.getOrCreate storage docType entityId context
  | .send event payload context => OrcaBridge.send storage docType entityId event payload context

/-- A fresh bridge resumes the run. -/
def resume : Process Machine := do
  Effect.modify fun world => { world with machines := fun _ => none }
  OrcaBridge.getOrCreate storage docType entityId ∅

/-- After the calls in `done`, a restart changes nothing that later calls return or raise. -/
def RestartTransparent (world : World) (done : List BridgeCall) : Prop :=
  let reached := (trace (done.map (BridgeCall.run storage docType entityId)) world).2
  ∀ later : List BridgeCall,
    (trace (later.map (BridgeCall.run storage docType entityId)) reached).1 =
      (trace (later.map (BridgeCall.run storage docType entityId))
        (resume storage docType entityId reached).2).1

end Calls


/-! ## The bridge on one run -/

namespace RunCell

variable [Interpreter] (docType key : Text)

/-- The machine that a call works on, before its context is merged. -/
def machine? (cell : RunCell) : Option Machine :=
  cell.live.or (cell.saved.map MachineSnapshot.machine)

/-- The machine is kept as the live one. -/
def register (machine : Machine) : Effect RunCell PyException PUnit :=
  Effect.modify fun cell => { cell with live := some machine }

/-- The machine is saved if that is due. -/
def saveIf (due : Bool) (machine : Machine) : Effect RunCell PyException PUnit :=
  Effect.modify fun cell =>
    { cell with saved := if due then some machine.snapshot else cell.saved }

/-- `OrcaBridge.get_or_create` for this run. -/
def getOrCreate (context : Context) : Effect RunCell PyException Machine := do
  let cell ← Effect.read
  match cell.live with
  | some machine =>
      register (machine.merge context)
      return machine.merge context
  | none =>
      if context.entries = [] ∧ cell.saved.isSome = false then
        Effect.raise ⟨"ValueError".toList,
          "Context is required to start a new machine for ".toList ++ key⟩
      else
        Effect.lift (lookupDefinition docType)
        let machine := ((cell.saved.map MachineSnapshot.machine).getD
          ⟨.received, context⟩).merge context
        saveIf (!cell.saved.isSome) machine
        register machine
        return machine

/-- The machine takes the event, and a taken transition is saved. -/
def take (event : ContractEvent) (payload : Context) (machine : Machine) :
    Effect RunCell PyException Machine := do
  let (taken, machine) ← Effect.lift (machine.send event payload)
  register machine
  saveIf taken machine
  return machine

/-- `OrcaBridge.send` for this run. -/
def send (event : ContractEvent) (payload context : Context) :
    Effect RunCell PyException Machine := do
  let machine ← getOrCreate docType key context
  take event payload machine

/-- A call on the cell of its run alone. -/
def run : BridgeCall → Effect RunCell PyException Machine
  | .getOrCreate context => getOrCreate docType key context
  | .send event payload context => send docType key event payload context

/-- The process starts again, and the machine is made from what was saved. -/
def resume : Effect RunCell PyException Machine := do
  Effect.modify fun cell => { cell with live := none }
  getOrCreate docType key ∅

/-- The event is taken by the machine that the call works on. -/
def takes (cell : RunCell) : BridgeCall → Bool
  | .getOrCreate _ => false
  | .send event payload context =>
      cell.machine?.any fun machine => (machine.merge context).takes event payload

/-- The call saves the machine: it is the first one on the run, or its event is taken. -/
def saves (cell : RunCell) (call : BridgeCall) : Bool :=
  cell.saved.isNone || cell.takes call

end RunCell

section Settled

variable [Interpreter] (storage : Storage) (docType entityId : Text)

/-- The items of the contexts that calls merge and do not save, the latest last. -/
def unsaved : List BridgeCall → World → List (Text × Json) → List (Text × Json)
  | [], _, items => items
  | call :: calls, world, items =>
      unsaved calls (call.run storage docType entityId world).2
        (if (world.cell (runKey docType entityId)).saves call then []
          else items ++ call.context.entries)

/-- Whatever has been merged since the last save is what the snapshot holds: for every key,
the last value that was given is the saved one. -/
def Settled (world : World) (done : List BridgeCall) : Prop :=
  let reached := (trace (done.map (BridgeCall.run storage docType entityId)) world).2
  ∀ saved, reached.db.snapshots (runKey docType entityId) = some saved →
    ∀ key value, Dict.find key (unsaved storage docType entityId done world []).reverse =
      some value → saved.context.get? key = some value

end Settled

/-! ## The refinement -/

section Refinement

variable {storage : Storage}

theorem save_eq (commits : storage.Commits) (quiet : ¬storage.Faulty) (key : Text)
    (machine : Machine) (world : World) :
    Process.save storage key machine world = (.ok ⟨⟩,
      { world with persistenceCalls := world.persistenceCalls + 1 }.committed
        (world.db.setSnapshot key machine.snapshot)) := by
  simp only [Process.save, bind_apply, persistenceCall_eq quiet, read_apply, commits _,
    Process.commit, modify_apply]
  rfl

theorem saveIf_refines (commits : storage.Commits) (quiet : ¬storage.Faulty) (due : Bool)
    (key : Text) (machine : Machine) (world : World) :
    Refines (World.cell key) (Process.saveIf storage due key machine)
      (RunCell.saveIf due machine) world := by
  cases due with
  | false => exact Refines.pure _
  | true =>
      have saved := save_eq commits quiet key machine world
      simp [Refines, RunCell.saveIf, Process.saveIf, saved, World.cell, World.committed]

theorem register_refines (key : Text) (machine : Machine) (world : World) :
    Refines (World.cell key) (Process.register key machine) (RunCell.register machine) world := by
  refine Refines.modify ?_
  simp [World.cell]

variable [Interpreter] {docType entityId : Text}

/-- On a storage that does not fail, what a run's calls do is a function of its cell. -/
theorem getOrCreate_refines (commits : storage.Commits) (quiet : ¬storage.Faulty)
    (context : Context) (world : World) :
    Refines (World.cell (runKey docType entityId))
      (OrcaBridge.getOrCreate storage docType entityId context)
      (RunCell.getOrCreate docType (runKey docType entityId) context) world := by
  refine Refines.read ?_
  cases live : world.machines (runKey docType entityId) with
  | some machine =>
      simp only [World.cell, live]
      exact Refines.bind (register_refines _ _ _) fun _ _ _ => Refines.pure _
  | none =>
      simp only [World.cell, live]
      refine Refines.skip (exists_eq quiet _ world) rfl ?_
      split
      · exact Refines.raise _
      · refine Refines.lift fun _ _ => ?_
        refine Refines.skip (loadOrStart_eq quiet _ context _) rfl ?_
        refine Refines.bind (saveIf_refines commits quiet _ _ _ _) fun _ _ _ => ?_
        exact Refines.bind (register_refines _ _ _) fun _ _ _ => Refines.pure _

variable (docType entityId) in
theorem run_refines (commits : storage.Commits) (quiet : ¬storage.Faulty) (call : BridgeCall)
    (world : World) :
    Refines (World.cell (runKey docType entityId)) (call.run storage docType entityId)
      (RunCell.run docType (runKey docType entityId) call) world := by
  cases call with
  | getOrCreate context => exact getOrCreate_refines commits quiet context world
  | send event payload context =>
      refine Refines.bind (getOrCreate_refines commits quiet context world) fun machine _ _ => ?_
      unfold RunCell.take
      refine Refines.lift fun sent _ => ?_
      refine Refines.bind (register_refines _ _ _) fun _ _ _ => ?_
      exact Refines.bind (saveIf_refines commits quiet _ _ _ _) fun _ _ _ => Refines.pure _

variable (docType entityId) in
theorem resume_refines (commits : storage.Commits) (quiet : ¬storage.Faulty) (world : World) :
    Refines (World.cell (runKey docType entityId)) (resume storage docType entityId)
      (RunCell.resume docType (runKey docType entityId)) world :=
  Refines.bind (Refines.modify rfl) fun _ after _ => getOrCreate_refines commits quiet ∅ after

end Refinement

/-! ## How far the machine is ahead of its snapshot -/

section Ahead

variable [Interpreter] {docType key : Text}

/-- The registered machine is the saved one after the items, or there is neither. -/
inductive Ahead (docType : Text) (items : List (Text × Json)) : RunCell → Prop
  | untouched : Ahead docType items ⟨none, none⟩
  | ahead (saved : MachineSnapshot ContractState) (known : docType ∈ machineDefs) :
      Ahead docType items ⟨some ⟨saved.state, saved.context.update items⟩, some saved⟩

/-- What the first call on a run does. -/
theorem getOrCreate_untouched (docType key : Text) (context : Context) :
    (∃ error, RunCell.getOrCreate docType key context ⟨none, none⟩ =
        (.error error, ⟨none, none⟩)) ∨
      ∃ machine, docType ∈ machineDefs ∧
        RunCell.getOrCreate docType key context ⟨none, none⟩ =
          (.ok machine, ⟨some machine, some machine.snapshot⟩) := by
  unfold RunCell.getOrCreate
  simp only [bind_apply, read_apply]
  by_cases empty : context.entries = []
  · left
    exact ⟨_, by rw [if_pos ⟨empty, rfl⟩, raise_apply]⟩
  · rw [if_neg fun both => empty both.1]
    by_cases known : docType ∈ machineDefs
    · right
      rw [lookupDefinition, if_pos known]
      exact ⟨Machine.merge ⟨.received, context⟩ context, known, rfl⟩
    · left
      rw [lookupDefinition, if_neg known]
      exact ⟨_, rfl⟩

theorem send_eq_of_not_taken {machine after : Machine} {event : ContractEvent}
    {payload : Context} (sent : machine.send event payload = .ok (false, after)) :
    after = machine := by
  unfold Machine.send at sent
  split at sent
  · next row found =>
      rcases ok_of_bind sent with ⟨context, _, ⟨⟩⟩
  · cases sent
    rfl

namespace Ahead

variable {items : List (Text × Json)} {cell : RunCell}

theorem take {saved : MachineSnapshot ContractState} {machine : Machine}
    (ahead : Ahead docType items ⟨some machine, some saved⟩) (event : ContractEvent)
    (payload : Context) :
    Ahead docType (if machine.takes event payload then [] else items)
      (RunCell.take event payload machine ⟨some machine, some saved⟩).2 := by
  have known : docType ∈ machineDefs := by
    cases ahead with
    | ahead saved known => exact known
  unfold RunCell.take Machine.takes
  rw [bind_apply]
  cases sent : machine.send event payload with
  | error reason => exact ahead
  | ok result =>
      rcases result with ⟨taken, after⟩
      cases taken with
      | false =>
          obtain rfl := send_eq_of_not_taken sent
          exact ahead
      | true => exact .ahead after.snapshot known

omit [Interpreter] in
theorem merge {saved : MachineSnapshot ContractState} {machine : Machine}
    (ahead : Ahead docType items ⟨some machine, some saved⟩) (context : Context) :
    Ahead docType (items ++ context.entries) ⟨some (machine.merge context), some saved⟩ := by
  cases ahead with
  | ahead saved known =>
      rw [Machine.merge, ← Dict.update_append]
      exact .ahead saved known

/-- A call that saves leaves nothing unsaved, and any other adds its context. -/
theorem run (ahead : Ahead docType items cell) (call : BridgeCall) :
    Ahead docType (if cell.saves call then [] else items ++ call.context.entries)
      (RunCell.run docType key call cell).2 := by
  cases ahead with
  | untouched =>
      rw [RunCell.saves, Option.isNone_none, Bool.true_or, if_pos rfl]
      cases call with
      | getOrCreate context =>
          rw [RunCell.run]
          rcases getOrCreate_untouched docType key context with
            ⟨error, raised⟩ | ⟨machine, known, made⟩
          · rw [raised]
            exact .untouched
          · rw [made]
            exact .ahead machine.snapshot known
      | send event payload context =>
          rw [RunCell.run, RunCell.send, bind_apply]
          rcases getOrCreate_untouched docType key context with
            ⟨error, raised⟩ | ⟨machine, known, made⟩
          · rw [raised]
            exact .untouched
          · rw [made]
            have created : Ahead docType [] ⟨some machine, some machine.snapshot⟩ :=
              .ahead machine.snapshot known
            simpa using created.take event payload
  | ahead saved known =>
      have start : Ahead docType items
          ⟨some ⟨saved.state, saved.context.update items⟩, some saved⟩ := .ahead saved known
      have merged := start.merge call.context
      cases call with
      | getOrCreate context => exact merged
      | send event payload context => exact merged.take event payload

end Ahead

variable {storage : Storage} {entityId : Text}

theorem ahead_of_calls (commits : storage.Commits) (quiet : ¬storage.Faulty)
    {items : List (Text × Json)} {world : World}
    (ahead : Ahead docType items (world.cell (runKey docType entityId)))
    (calls : List BridgeCall) :
    Ahead docType (unsaved storage docType entityId calls world items)
      ((trace (calls.map (BridgeCall.run storage docType entityId)) world).2.cell
        (runKey docType entityId)) := by
  induction calls generalizing world items with
  | nil => exact ahead
  | cons call calls ih =>
      apply ih
      rw [(run_refines docType entityId commits quiet call world).2]
      exact ahead.run call

/-- A resumed machine is the saved one. -/
theorem resume_ahead (saved : MachineSnapshot ContractState) (known : docType ∈ machineDefs)
    (live : Option Machine) :
    (RunCell.resume docType key ⟨live, some saved⟩).2 = ⟨some saved.machine, some saved⟩ := by
  simp only [RunCell.resume, RunCell.getOrCreate, bind_apply, modify_apply, read_apply,
    Option.isSome_some, Bool.true_eq_false, and_false, if_false, lookupDefinition, if_pos known]
  rfl

end Ahead

/-! ## The restart -/

section Restart

variable [Interpreter] {storage : Storage} {docType entityId : Text}

theorem resume_untouched (docType key : Text) :
    (RunCell.resume docType key ⟨none, none⟩).2 = ⟨none, none⟩ := by
  simp only [RunCell.resume, RunCell.getOrCreate, bind_apply, modify_apply, read_apply]
  rw [if_pos ⟨rfl, rfl⟩]
  rfl

/-- Calls that find the same cell end alike. -/
theorem trace_eq_of_cell_eq (commits : storage.Commits) (quiet : ¬storage.Faulty)
    {left right : World} (same : left.cell (runKey docType entityId) =
      right.cell (runKey docType entityId)) (calls : List BridgeCall) :
    (trace (calls.map (BridgeCall.run storage docType entityId)) left).1 =
      (trace (calls.map (BridgeCall.run storage docType entityId)) right).1 := by
  have refines := run_refines docType entityId commits quiet
  rw [(trace_refines refines calls left).1, (trace_refines refines calls right).1, same]

/-- A restart of a run's bridge goes unnoticed if and only if the contexts merged since the
last save leave the saved context as it is. -/
theorem restartTransparent_iff (commits : storage.Commits) (quiet : ¬storage.Faulty)
    {world : World} (unregistered : world.machines (runKey docType entityId) = none)
    (fresh : world.db.snapshots (runKey docType entityId) = none) (done : List BridgeCall) :
    RestartTransparent storage docType entityId world done ↔
      Settled storage docType entityId world done := by
  have start : Ahead docType [] (world.cell (runKey docType entityId)) := by
    rw [World.cell, unregistered, fresh]
    exact .untouched
  have ahead := ahead_of_calls commits quiet start done
  unfold RestartTransparent Settled
  dsimp only
  generalize (trace (done.map (BridgeCall.run storage docType entityId)) world).2 = reached
    at ahead ⊢
  generalize unsaved storage docType entityId done world [] = items at ahead ⊢
  have resumed := (resume_refines docType entityId commits quiet reached).2
  have snapshots : reached.db.snapshots (runKey docType entityId) =
    (reached.cell (runKey docType entityId)).saved := rfl
  rw [snapshots]
  generalize found : reached.cell (runKey docType entityId) = cell at ahead resumed ⊢
  cases ahead with
  | untouched =>
      rw [resume_untouched] at resumed
      refine iff_of_true (fun later => ?_) fun saved found => by cases found
      exact trace_eq_of_cell_eq commits quiet (found.trans resumed.symm) later
  | ahead saved known =>
      rw [resume_ahead saved known] at resumed
      constructor
      · rintro transparent _ ⟨⟩
        have observed := transparent [.getOrCreate ∅]
        have refines := run_refines docType entityId commits quiet (.getOrCreate ∅)
        simp only [List.map_cons, List.map_nil, trace, List.cons.injEq, and_true,
          (refines _).1, found, resumed] at observed
        have context := congrArg Machine.context (Except.ok.inj observed)
        exact Dict.update_eq_self_iff.mp context
      · intro settled later
        have same : saved.context.update items = saved.context :=
          Dict.update_eq_self_iff.mpr (settled saved rfl)
        rw [same] at found
        exact trace_eq_of_cell_eq commits quiet (found.trans resumed.symm) later

end Restart

section Sample

attribute [local instance] Interpreter.ascii

/-- Nothing stored and nothing in memory. -/
def emptyWorld : World where
  db := ⟨fun _ => none, fun _ => none, fun _ => none, fun _ => none⟩
  machines := fun _ => none
  locals := ⟨.null, [], .null, ∅, [], []⟩
  persistenceCalls := 0
  history := []

/-- A run whose extraction misses one field. -/
def extractedCalls : List BridgeCall :=
  [.getOrCreate (Dict.ofList [("owner".toList, .str "o".toList)]),
    .send .extracted (Dict.ofList [("missing_fields".toList, .arr [.str "term".toList]),
      ("missing_count".toList, .int 1)]) ∅]

theorem restartTransparent_extracted :
    RestartTransparent Storage.reliable "contract".toList "r".toList emptyWorld
      extractedCalls := by
  refine (restartTransparent_iff Storage.commits_reliable Storage.not_faulty_reliable rfl rfl
    extractedCalls).mpr ?_
  intro saved _ key value found
  cases found

/-- A context that is merged after the extraction and lost. -/
def waivedCalls : List BridgeCall :=
  extractedCalls ++ [.getOrCreate (Dict.ofList [("missing_count".toList, .int 0)])]

/-- What the calls show of the verdict. -/
def verdicts (results : List (Except PyException Machine)) : List (Option Json) :=
  results.map fun result =>
    match result with
    | .error _ => none
    | .ok machine => machine.context.get? "verdict".toList

/-- A restart loses the context that was merged after the last save, and with it the verdict. -/
theorem not_restartTransparent_waived :
    ¬RestartTransparent Storage.reliable "contract".toList "r".toList emptyWorld
      waivedCalls := by
  intro transparent
  have evaluated := congrArg verdicts (transparent [.send .evaluate ∅ ∅])
  exact absurd evaluated (by decide +kernel)

end Sample

end OrcaValidator
