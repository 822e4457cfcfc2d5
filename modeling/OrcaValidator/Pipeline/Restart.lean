import OrcaValidator.Pipeline.Verdict

/-!
# Restarts

A process can stop anywhere in a run; what it leaves is what it had committed, and the
database only changes when it commits.  The commits of a call are its claim, the
snapshots of its machine and the result, so up to the last of them a crash leaves the
run `running`, which is what a second call returns from at once.
-/

namespace OrcaValidator

open Library Effect OrcaBridge

section Restart

variable [Interpreter]

/-- What a call of `run_validation` that nothing interrupts leaves. -/
def uninterrupted (env : Environment) (storage : Storage) (runId : UUID) (world : World) :
    World :=
  (runValidation env storage runId { world with history := [] }).2

/-- What the process can leave in the database when it stops during the call, after its first
commit. -/
def crashes (env : Environment) (storage : Storage) (runId : UUID) (world : World) :
    List (Database ContractState) :=
  (uninterrupted env storage runId world).history

/-- A second call, in a process that knows no machine and over a storage that does not fail,
finishes the run with the verdict of the uninterrupted call. -/
def Survives (env : Environment) (storage : Storage) (runId : UUID) (world : World)
    (crash : Database ContractState) : Prop :=
  ∀ (storage' : Storage) (fresh : World), storage'.Commits → ¬storage'.Faulty →
    fresh.db = crash → (∀ key, fresh.machines key = none) →
      ∃ run result expected,
        (runValidation env storage' runId fresh).2.db.runs runId = some run ∧
        run.status.Terminal ∧
        (runValidation env storage' runId fresh).2.db.results runId = some result ∧
        (uninterrupted env storage runId world).db.results runId = some expected ∧
        result.verdict = expected.verdict

variable {env : Environment} {storage : Storage} {runId : UUID} {world : World}
  {run : ValidationRun} {document : Document}

/-! ## The commits of a call -/

/-- Every commit so far left the rows as the claim did. -/
structure OnlyClaimed (claimedDb : Database ContractState) (world : World) : Prop where
  now : claimedDb.SameRows world.db
  before : ∀ crash ∈ world.history, claimedDb.SameRows crash

omit [Interpreter] in
theorem keptByDrive_onlyClaimed (claimedDb : Database ContractState) :
    KeptByDrive (OnlyClaimed claimedDb) where
  machines := fun _ _ holds => ⟨holds.now, holds.before⟩
  persistenceCalls := fun _ _ holds => ⟨holds.now, holds.before⟩
  locals := fun _ _ holds => ⟨holds.now, holds.before⟩
  snapshot := by
    intro world key row holds
    have now : claimedDb.SameRows (world.db.setSnapshot key row) :=
      ⟨holds.now.documents, holds.now.runs, holds.now.results⟩
    refine ⟨now, ?_⟩
    intro crash mem
    rcases List.mem_cons.mp mem with rfl | earlier
    · exact now
    · exact holds.before crash earlier

/-- A crash leaves the rows as the claim did, or as the finished call does. -/
def CrashesWhere (runId : UUID) (run : ValidationRun) (document : Document)
    (claimedDb : Database ContractState) (after : World) : Prop :=
  ∀ crash ∈ after.history, claimedDb.SameRows crash ∨
    crash = after.db ∧ ∃ result, Finished runId run document result crash

theorem OnlyClaimed.crashesWhere {claimedDb : Database ContractState}
    (only : OnlyClaimed claimedDb world) : CrashesWhere runId run document claimedDb world :=
  fun crash mem => .inl (only.before crash mem)

/-- Where a call for a queued run can be interrupted. -/
theorem ensures_crashes (queued : Queued world runId run document)
    (fresh : world.history = []) :
    Ensures (runValidation env storage runId) world
      (fun _ after => CrashesWhere runId run document
        (claimRows runId run.documentId world.db) after)
      (fun _ after => CrashesWhere runId run document
        (claimRows runId run.documentId world.db) after) := by
  refine Ensures.bind ((ensures_claim queued).weaken ?_ ?_)
  · rintro _ _ ⟨rfl, rfl⟩
    let claimedWorld := world.committed (claimRows runId run.documentId world.db)
    have only : OnlyClaimed claimedWorld.db claimedWorld := by
      refine ⟨.refl _, ?_⟩
      intro crash mem
      rw [show claimedWorld.history = [claimedWorld.db] from congrArg _ fresh,
        List.mem_singleton] at mem
      exact mem ▸ .refl _
    have decides := ensures_decideOutcome env storage (claimedOf run document) claimedWorld
      queued.unregistered queued.unsaved
    have frame := Ensures.ofPreserves (preserves_decideOutcome
      (keptByDrive_onlyClaimed claimedWorld.db) env storage runId (claimedOf run document)) only
    refine Ensures.bind ((decides.and frame).weaken ?_ fun _ _ absurd => absurd.1.elim)
    rintro _ after ⟨decided, only⟩
    rcases decided.exists_reasons with ⟨reasons, listed⟩
    refine (queued.ensures_store only.now listed).weaken ?_ ?_
    · rintro _ _ ⟨db, rfl, finished⟩ crash mem
      rcases List.mem_cons.mp mem with rfl | earlier
      · exact .inr ⟨rfl, _, finished⟩
      · exact .inl (only.before crash earlier)
    · rintro _ _ ⟨_, rfl⟩
      exact only.crashesWhere
  · rintro _ _ ⟨_, rfl⟩ crash mem
    rw [fresh] at mem
    cases mem

theorem crashes_where (queued : Queued world runId run document)
    {crash : Database ContractState} (crashed : crash ∈ crashes env storage runId world) :
    (claimRows runId run.documentId world.db).SameRows crash ∨
      crash = (uninterrupted env storage runId world).db ∧
        ∃ result, Finished runId run document result crash := by
  have queued' : Queued { world with history := [] } runId run document :=
    ⟨queued.runRow, queued.status, queued.documentRow, queued.unregistered, queued.unsaved,
      queued.noResult⟩
  exact (ensures_crashes queued' rfl).after crash crashed

/-! ## The second call -/

theorem runValidation_of_not_claimable (present : world.db.runs runId = some run)
    (unclaimable : ¬run.status.Claimable) :
    runValidation env storage runId world = (.ok ⟨⟩, world) := by
  have unclaimed : claim storage runId world = (.ok none, world) := by
    rw [claim, bind_apply]
    simp only [read_apply, present, unclaimable, if_false, pure_apply]
  rw [runValidation, bind_apply, unclaimed]
  rfl

/-- A crash that leaves the rows as the claim did leaves the run `running` for good. -/
theorem not_survives_of_sameRows (queued : Queued world runId run document)
    {crash : Database ContractState}
    (same : (claimRows runId run.documentId world.db).SameRows crash) :
    ¬Survives env storage runId world crash := by
  intro survives
  have present : crash.runs runId = some { run with status := .running } := by
    rw [← same.runs]
    simp [claimRows, queued.runRow]
  rcases survives Storage.reliable { sampleWorld with db := crash } Storage.commits_reliable
    Storage.not_faulty_reliable rfl (fun _ => rfl) with ⟨row, _, _, found, terminal, _⟩
  rw [runValidation_of_not_claimable present (by simp [Status.Claimable])] at found
  rw [present] at found
  cases found
  exact terminal.elim (by simp) (by simp)

theorem survives_of_finished {crash : Database ContractState} {result : ValidationResult}
    (last : crash = (uninterrupted env storage runId world).db)
    (finished : Finished runId run document result crash) :
    Survives env storage runId world crash := by
  rintro storage' fresh _ _ rfl _
  have terminal := terminal_finalStatus result.verdict
  rw [runValidation_of_not_claimable finished.runRow terminal.not_claimable]
  exact ⟨_, result, result, finished.runRow, terminal, finished.resultRow,
    last ▸ finished.resultRow, rfl⟩

/-- A run is resumed after a crash exactly if there was nothing left to do. -/
theorem survives_iff (queued : Queued world runId run document)
    {crash : Database ContractState} (crashed : crash ∈ crashes env storage runId world) :
    Survives env storage runId world crash ↔ crash.results runId ≠ none := by
  rcases crashes_where queued crashed with same | ⟨last, result, finished⟩
  · refine iff_of_false (not_survives_of_sameRows queued same) ?_
    simpa [← same.results, claimRows] using queued.noResult
  · exact iff_of_true (survives_of_finished last finished) (by simp [finished.resultRow])

end Restart

/-! ## The submitted contract -/

section Closed

attribute [local instance] Interpreter.ascii

/-- A process that stops right after the claim leaves a run that is never finished. -/
theorem not_survives_claim : ∃ crash ∈ crashes
    (replyEnvironment "A lease.".toList "no answer".toList) Storage.reliable sampleRunId
      sampleWorld,
    ¬Survives (replyEnvironment "A lease.".toList "no answer".toList) Storage.reliable
      sampleRunId sampleWorld crash := by
  refine ⟨claimRows sampleRunId sampleRun.documentId sampleWorld.db, ?_, ?_⟩
  · exact List.mem_of_getLast? rfl
  · exact not_survives_of_sameRows queued_sampleWorld (.refl _)

theorem survives_claim_iff : Survives (replyEnvironment "A lease.".toList "no answer".toList)
      Storage.reliable sampleRunId sampleWorld
      (claimRows sampleRunId sampleRun.documentId sampleWorld.db) ↔
    (claimRows sampleRunId sampleRun.documentId sampleWorld.db).results sampleRunId ≠ none :=
  survives_iff queued_sampleWorld (List.mem_of_getLast? rfl)

end Closed

end OrcaValidator
