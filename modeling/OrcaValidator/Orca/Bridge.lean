import OrcaValidator.Library.Effect
import OrcaValidator.Models
import OrcaValidator.Orca.ContractValidation

/-!
# The bridge

The process-level registry of running machines, over the snapshots that the
persistence adapter keeps in the database.  A machine is restored from its snapshot
when there is one and started otherwise; a taken transition saves a new snapshot.

The state of a process is what its `async` calls share: the database, the registry,
and the local variables of the running call that an exception handler can still see.
-/

namespace OrcaValidator

open Library

/-- The local variables of `run_validation` that outlive its driving section. -/
structure Locals where
  verdict : Json
  finalState : Text
  reasons : Json
  fields : Dict Text Bool
  docText : Text
  documentType : Text

/-- The database and what a process holds in memory. -/
structure World where
  db : Database ContractState
  /-- `OrcaBridge._machines`, lost when the process stops. -/
  machines : Text → Option Machine
  locals : Locals
  /-- How often the persistence adapter has been called. -/
  persistenceCalls : Nat
  /-- The contents of the database after each commit of the process, latest first. -/
  history : List (Database ContractState)

/-- A committed transaction is the database, and the latest entry of its history. -/
def World.committed (world : World) (after : Database ContractState) : World :=
  { world with db := after, history := after :: world.history }

/-- The code of a process that can raise. -/
abbrev Process := Effect World PyException

/-- What is stored of a machine. -/
def Machine.snapshot (machine : Machine) : MachineSnapshot ContractState :=
  ⟨machine.state, machine.context⟩

/-- The machine that is resumed from a snapshot. -/
def MachineSnapshot.machine (snapshot : MachineSnapshot ContractState) : Machine :=
  ⟨snapshot.state, snapshot.context⟩

/-- What the outside world answers to one process: which calls of the persistence adapter
raise, and which database contents fail to commit. -/
structure Storage where
  persistenceFault : Nat → Option PyException
  commitFault : Database ContractState → Option PyException

/-- Some call of the persistence adapter raises. -/
def Storage.Faulty (storage : Storage) : Prop :=
  ∃ call error, storage.persistenceFault call = some error

/-- No commit fails. -/
def Storage.Commits (storage : Storage) : Prop := ∀ db, storage.commitFault db = none

theorem Storage.not_commits_of_fault {storage : Storage} {db : Database ContractState}
    {reason : PyException} (fault : storage.commitFault db = some reason) :
    ¬storage.Commits := by
  intro commits
  simp [commits db] at fault

/-- Something that the persistence adapter does may raise. -/
def Storage.Fails (storage : Storage) : Prop := storage.Faulty ∨ ¬storage.Commits

theorem Storage.not_fails {storage : Storage} (commits : storage.Commits)
    (quiet : ¬storage.Faulty) : ¬storage.Fails := by
  rintro (faulty | failing)
  · exact quiet faulty
  · exact failing commits

/-- A database that never fails. -/
def Storage.reliable : Storage where
  persistenceFault := fun _ => none
  commitFault := fun _ => none

theorem Storage.not_faulty_reliable : ¬Storage.reliable.Faulty := by
  rintro ⟨call, error, fault⟩
  cases fault

theorem Storage.commits_reliable : Storage.reliable.Commits := fun _ => rfl

namespace Process

/-- Commit a transaction that turns the contents of the database into `after`.  A failed
commit is rolled back. -/
def commit (fault : Option PyException) (after : Database ContractState) : Process PUnit :=
  match fault with
  | some error => Effect.raise error
  | none => Effect.modify fun world =>
      { world with db := after, history := after :: world.history }

/-- A call of the persistence adapter, which may fail each time. -/
def persistenceCall (storage : Storage) : Process PUnit := do
  let world ← Effect.read
  Effect.modify fun world => { world with persistenceCalls := world.persistenceCalls + 1 }
  match storage.persistenceFault world.persistenceCalls with
  | some error => Effect.raise error
  | none => pure ⟨⟩

/-- `PostgresMachinePersistence.load`. -/
def load (storage : Storage) (key : Text) :
    Process (Option (MachineSnapshot ContractState)) := do
  persistenceCall storage
  let world ← Effect.read
  return world.db.snapshots key

/-- `PostgresMachinePersistence.exists`. -/
def «exists» (storage : Storage) (key : Text) : Process Bool := do
  let snapshot ← load storage key
  return snapshot.isSome

/-- `PostgresMachinePersistence.save`. -/
def save (storage : Storage) (key : Text) (machine : Machine) : Process PUnit := do
  persistenceCall storage
  let world ← Effect.read
  let after := world.db.setSnapshot key ⟨machine.state, machine.context⟩
  commit (storage.commitFault after) after

/-- A save that only happens when it is due. -/
def saveIf (storage : Storage) (due : Bool) (key : Text) (machine : Machine) :
    Process PUnit :=
  if due then save storage key machine else pure ⟨⟩

/-- The machine is kept in the memory of the process. -/
def register (key : Text) (machine : Machine) : Process PUnit :=
  Effect.modify fun world =>
    { world with machines := Function.update world.machines key (some machine) }

end Process

theorem ensures_commit {fault : Option PyException} {after : Database ContractState}
    {world : World} {returned : PUnit → World → Prop} {raised : PyException → World → Prop}
    (ok : fault = none → returned ⟨⟩ (world.committed after))
    (error : ∀ reason, fault = some reason → raised reason world) :
    Effect.Ensures (Process.commit fault after) world returned raised := by
  cases fault with
  | none => exact Effect.Ensures.modify (ok rfl)
  | some reason => exact Effect.Ensures.raise (error reason rfl)

namespace OrcaBridge

variable [Interpreter] (storage : Storage)

/-- The key of a machine in the registry and in `machine_snapshots`. -/
def runKey (docType entityId : Text) : Text := docType ++ ":".toList ++ entityId

/-- The document types that have a machine.  The keys of `MACHINE_DEFS`. -/
def machineDefs : List Text := ["contract".toList]

/-- The definition of a document type's machine, or the `KeyError`. -/
def lookupDefinition (docType : Text) : Except PyException PUnit :=
  if docType ∈ machineDefs then .ok ⟨⟩
  else .error ⟨"KeyError".toList, Interpreter.repr (.str docType)⟩

/-- `OrcaMachine.load_or_start`: the saved state and context if there are any, else the
initial state with the context the machine was made with. -/
def loadOrStart (key : Text) (context : Context) : Process Machine := do
  let snapshot ← Process.load storage key
  match snapshot with
  | some snapshot => return ⟨snapshot.state, snapshot.context⟩
  | none => return ⟨.received, context⟩

/-- `OrcaBridge.get_or_create`. -/
def getOrCreate (docType entityId : Text) (context : Context) : Process Machine := do
  let key := runKey docType entityId
  let world ← Effect.read
  match world.machines key with
  | some machine =>
      let machine := { machine with context := machine.context.update context.entries }
      Process.register key machine
      return machine
  | none =>
      let existed ← Process.exists storage key
      if context.entries = [] ∧ existed = false then
        Effect.raise ⟨"ValueError".toList,
          "Context is required to start a new machine for ".toList ++ key⟩
      else
        Effect.lift (lookupDefinition docType)
        let machine ← loadOrStart storage key context
        let machine := { machine with context := machine.context.update context.entries }
        Process.saveIf storage (!existed) key machine
        Process.register key machine
        return machine

/-- `OrcaBridge.send`: the machine takes the event, and a taken transition is saved. -/
def send (docType entityId : Text) (event : ContractEvent) (payload : Context)
    (context : Context := ∅) : Process Machine := do
  let machine ← getOrCreate storage docType entityId context
  let (taken, machine) ← Effect.lift (machine.send event payload)
  Process.register (runKey docType entityId) machine
  Process.saveIf storage taken (runKey docType entityId) machine
  return machine

/-! ## What the bridge leaves alone -/

/-- An invariant of a process that neither the registry, nor the number of adapter calls,
nor a saved snapshot can break. -/
structure KeptByBridge (invariant : World → Prop) : Prop where
  machines : ∀ world machines, invariant world → invariant { world with machines := machines }
  persistenceCalls : ∀ world calls, invariant world →
    invariant { world with persistenceCalls := calls }
  snapshot : ∀ world key row, invariant world → invariant { world with
    db := world.db.setSnapshot key row
    history := world.db.setSnapshot key row :: world.history }

section Kept

open Effect

variable {invariant : World → Prop} (kept : KeptByBridge invariant)
include kept

omit [Interpreter] in
theorem preserves_persistenceCall : Preserves invariant (Process.persistenceCall storage) := by
  refine Preserves.bind Preserves.read ?_
  intro world
  refine Preserves.bind (Preserves.modify fun world => kept.persistenceCalls world _) fun _ => ?_
  cases storage.persistenceFault world.persistenceCalls with
  | some error => exact Preserves.raise error
  | none => exact Preserves.pure _

omit [Interpreter] in
theorem preserves_load (key : Text) : Preserves invariant (Process.load storage key) :=
  Preserves.bind (preserves_persistenceCall storage kept) fun _ =>
    Preserves.bind Preserves.read fun _ => Preserves.pure _

omit [Interpreter] in
theorem preserves_save (key : Text) (machine : Machine) :
    Preserves invariant (Process.save storage key machine) := by
  intro world holds
  have called := preserves_persistenceCall storage kept world holds
  unfold Process.save
  rw [Effect.bind_apply]
  rcases ended : Process.persistenceCall storage world with ⟨value | value, after⟩ <;>
    rw [ended] at called
  · exact called
  · change invariant (Process.commit (storage.commitFault
      (after.db.setSnapshot key ⟨machine.state, machine.context⟩)) _ after).2
    cases storage.commitFault (after.db.setSnapshot key ⟨machine.state, machine.context⟩) with
    | none => exact kept.snapshot after _ _ called
    | some error => exact called

omit [Interpreter] in
theorem preserves_saveIf (due : Bool) (key : Text) (machine : Machine) :
    Preserves invariant (Process.saveIf storage due key machine) :=
  Preserves.ite (fun _ => preserves_save storage kept key machine) fun _ => Preserves.pure _

omit [Interpreter] in
theorem preserves_register (key : Text) (machine : Machine) :
    Preserves invariant (Process.register key machine) :=
  Preserves.modify fun world => kept.machines world _

theorem preserves_getOrCreate (docType entityId : Text) (context : Context) :
    Preserves invariant (getOrCreate storage docType entityId context) := by
  refine Preserves.bind Preserves.read ?_
  intro world
  dsimp only
  cases world.machines (runKey docType entityId) with
  | some machine =>
      exact Preserves.bind (preserves_register kept _ _) fun _ => Preserves.pure _
  | none =>
      refine Preserves.bind (Preserves.bind (preserves_load storage kept _)
        fun _ => Preserves.pure _) fun existed => ?_
      refine Preserves.ite (fun _ => Preserves.raise _) fun _ => ?_
      refine Preserves.bind (Preserves.lift _) ?_
      intro _
      have started : Preserves invariant
          (loadOrStart storage (runKey docType entityId) context) := by
        refine Preserves.bind (preserves_load storage kept _) ?_
        intro snapshot
        cases snapshot <;> exact Preserves.pure _
      refine Preserves.bind started ?_
      intro machine
      refine Preserves.bind (preserves_saveIf storage kept _ _ _) ?_
      intro _
      exact Preserves.bind (preserves_register kept _ _) fun _ => Preserves.pure _

theorem preserves_send (docType entityId : Text) (event : ContractEvent)
    (payload context : Context) :
    Preserves invariant (send storage docType entityId event payload context) := by
  refine Preserves.bind (preserves_getOrCreate storage kept _ _ _) ?_
  intro machine
  refine Preserves.bind (Preserves.lift _) ?_
  intro sent
  refine Preserves.bind (preserves_register kept _ _) ?_
  intro _
  exact Preserves.bind (preserves_saveIf storage kept _ _ _) fun _ => Preserves.pure _

end Kept

/-! ## What the bridge does -/

section Spec

open Effect

variable {storage : Storage}

omit [Interpreter] in
theorem persistenceCall_eq (quiet : ¬storage.Faulty) (world : World) :
    Process.persistenceCall storage world =
      (.ok ⟨⟩, { world with persistenceCalls := world.persistenceCalls + 1 }) := by
  have answers : storage.persistenceFault world.persistenceCalls = none := by
    cases fault : storage.persistenceFault world.persistenceCalls with
    | none => rfl
    | some error => exact absurd ⟨_, error, fault⟩ quiet
  simp only [Process.persistenceCall, bind_apply, read_apply, modify_apply, answers,
    pure_apply]

omit [Interpreter] in
theorem load_eq (quiet : ¬storage.Faulty) (key : Text) (world : World) :
    Process.load storage key world = (.ok (world.db.snapshots key),
      { world with persistenceCalls := world.persistenceCalls + 1 }) := by
  simp only [Process.load, bind_apply, persistenceCall_eq quiet, read_apply, pure_apply]

omit [Interpreter] in
theorem exists_eq (quiet : ¬storage.Faulty) (key : Text) (world : World) :
    Process.exists storage key world = (.ok (world.db.snapshots key).isSome,
      { world with persistenceCalls := world.persistenceCalls + 1 }) := by
  simp only [Process.exists, bind_apply, load_eq quiet, pure_apply]

omit [Interpreter] in
theorem loadOrStart_eq (quiet : ¬storage.Faulty) (key : Text) (context : Context)
    (world : World) :
    loadOrStart storage key context world =
      (.ok (((world.db.snapshots key).map MachineSnapshot.machine).getD ⟨.received, context⟩),
        { world with persistenceCalls := world.persistenceCalls + 1 }) := by
  simp only [loadOrStart, bind_apply, load_eq quiet]
  cases world.db.snapshots key <;> rfl

variable {world : World}

omit [Interpreter] in
theorem ensures_persistenceCall {returned : PUnit → World → Prop}
    {raised : PyException → World → Prop}
    (ok : returned ⟨⟩ { world with persistenceCalls := world.persistenceCalls + 1 })
    (error : storage.Fails → ∀ reason after, raised reason after) :
    Ensures (Process.persistenceCall storage) world returned raised := by
  refine Ensures.bind (Ensures.read (Ensures.bind (Ensures.modify ?_)))
  cases fault : storage.persistenceFault world.persistenceCalls with
  | some reason => exact Ensures.raise (error (.inl ⟨_, reason, fault⟩) _ _)
  | none => exact Ensures.pure ok

omit [Interpreter] in
theorem ensures_load {key : Text}
    {returned : Option (MachineSnapshot ContractState) → World → Prop}
    {raised : PyException → World → Prop}
    (ok : returned (world.db.snapshots key)
      { world with persistenceCalls := world.persistenceCalls + 1 })
    (error : storage.Fails → ∀ reason after, raised reason after) :
    Ensures (Process.load storage key) world returned raised :=
  Ensures.bind (ensures_persistenceCall
    (Ensures.bind (Ensures.read (Ensures.pure ok))) error)

omit [Interpreter] in
/-- A save touches neither the registry nor the local variables. -/
theorem ensures_saveIf {due : Bool} {key : Text} {machine : Machine}
    {returned : PUnit → World → Prop} {raised : PyException → World → Prop}
    (ok : ∀ after : World, after.machines = world.machines → returned ⟨⟩ after)
    (error : storage.Fails → ∀ reason after, raised reason after) :
    Ensures (Process.saveIf storage due key machine) world returned raised := by
  cases due with
  | false => exact Ensures.pure (ok world rfl)
  | true =>
      refine Ensures.bind (ensures_persistenceCall (Ensures.bind (Ensures.read ?_)) error)
      refine ensures_commit (fun _ => ok _ rfl) fun reason fault => ?_
      exact error (.inr (Storage.not_commits_of_fault fault)) reason _

/-- A run without a machine and without a snapshot gets a machine in its initial state. -/
theorem ensures_getOrCreate (storage : Storage) {docType entityId : Text} {context : Context}
    (nonempty : context.entries ≠ [])
    (unregistered : world.machines (runKey docType entityId) = none)
    (unsaved : world.db.snapshots (runKey docType entityId) = none) :
    Ensures (getOrCreate storage docType entityId context) world
      (fun machine after => docType ∈ machineDefs ∧ machine.state = .received ∧
        after.machines (runKey docType entityId) = some machine)
      (fun _ _ => storage.Fails ∨ docType ∉ machineDefs) := by
  have fails : storage.Fails → ∀ (_ : PyException) (_ : World),
      storage.Fails ∨ docType ∉ machineDefs := fun fails _ _ => .inl fails
  refine Ensures.bind (Ensures.read ?_)
  simp only [unregistered]
  refine Ensures.bind (Ensures.bind (ensures_load (Ensures.pure ?_) fails))
  simp only [unsaved, Option.isSome_none, nonempty, false_and, if_false]
  refine Ensures.bind (Ensures.lift (fun _ known => ?_) fun _ unknown => ?_)
  · have supported : docType ∈ machineDefs := by
      by_contra unsupported
      simp [lookupDefinition, unsupported] at known
    refine Ensures.bind (Ensures.bind (ensures_load ?_ fails))
    simp only [unsaved]
    refine Ensures.pure (Ensures.bind (ensures_saveIf (fun after _ => ?_) fails))
    refine Ensures.bind (Ensures.modify (Ensures.pure ⟨supported, rfl, ?_⟩))
    exact Function.update_self _ _ _
  · right
    intro supported
    simp [lookupDefinition, supported] at unknown

omit [Interpreter] in
theorem keptByBridge_locals (locals : Locals) :
    KeptByBridge fun world => world.locals = locals where
  machines := fun _ _ holds => holds
  persistenceCalls := fun _ _ holds => holds
  snapshot := fun _ _ _ holds => holds

theorem ensures_send {docType entityId : Text} {machine sent : Machine} {taken : Bool}
    {event : ContractEvent} {payload : Context}
    (registered : world.machines (runKey docType entityId) = some machine)
    (takes : machine.send event payload = .ok (taken, sent)) :
    Ensures (send storage docType entityId event payload) world
      (fun result after => result = sent ∧
        after.machines (runKey docType entityId) = some sent ∧ after.locals = world.locals)
      (fun _ _ => storage.Fails) := by
  have moved : Ensures (send storage docType entityId event payload) world
      (fun result after => result = sent ∧
        after.machines (runKey docType entityId) = some sent)
      (fun _ _ => storage.Fails) := by
    refine Ensures.bind (Ensures.bind (Ensures.read ?_))
    simp only [registered]
    refine Ensures.bind (Ensures.modify (Ensures.pure ?_))
    refine Ensures.bind (Ensures.lift (fun result took => ?_) fun reason failed => ?_)
    · obtain rfl : (taken, sent) = result := Except.ok.inj (takes.symm.trans took)
      refine Ensures.bind (Ensures.modify (Ensures.bind (ensures_saveIf (fun after kept => ?_)
        fun fails _ _ => fails)))
      refine Ensures.pure ⟨rfl, ?_⟩
      rw [kept]
      exact Function.update_self _ _ _
    · exact absurd (takes.symm.trans failed) (by simp)
  refine (moved.and (Ensures.ofPreserves (preserves_send storage
    (keptByBridge_locals world.locals) docType entityId event payload ∅) rfl)).weaken ?_ ?_
  · rintro result after ⟨⟨same, kept⟩, locals⟩
    exact ⟨same, kept, locals⟩
  · rintro reason after ⟨fails, _⟩
    exact fails

end Spec

end OrcaBridge

end OrcaValidator
