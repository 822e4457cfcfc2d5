import OrcaValidator.DocumentFsm.Verify
import OrcaValidator.Pipeline.Verdict

/-!
# The machine of the document in the result

A result carries the machine that its document expresses, with what the verifier said about it.
Whatever becomes of the calls on the way, a result only says `verified` of a machine that the
language model gave for the text that was read, and of whose copy the verifier has said so.
-/

namespace OrcaValidator

open Library Effect

section DocumentMachine

variable [Interpreter] {Circumstance : Type}

/-- `result.document_fsm["verified"] is True`. -/
def ValidationResult.ShowsVerified (result : ValidationResult) : Prop :=
  result.documentFsm.get "verified".toList = .ok (some (.bool true))

/-- What stands behind a result that shows a verified machine. -/
structure MachineEarned (env : Environment) (verifier : Verifying.DocumentVerifier Circumstance)
    (claimed : Claimed) (result : ValidationResult) (parsed : OCRResult) (orcaMd : Text)
    (circumstance : Circumstance) (process : CompletedProcess) : Prop where
  enabled : env.llmEnabled
  decided : result.verdict = verdictPass ∨ result.verdict = verdictFail
  analysed : result.analysisStatus = "done".toList
  reads : env.parseDocument claimed.blobRef = .ok parsed
  readable : parsed.ok = true
  extracted : env.extractStateMachine parsed.rawText claimed.temperature = .ok orcaMd
  describes : DescribesStates orcaMd
  verified : verifier circumstance (normalizeForVerification orcaMd) = .ok process
  returncode : process.returncode = 0
  shown : result.documentFsm = verificationEnded orcaMd process

variable {env : Environment} {verifier : Verifying.DocumentVerifier Circumstance}
  {storage : Storage} {claimed : Claimed} {locals : Locals}

omit [Interpreter] in
theorem get_documentFsm (orcaMd : Text) (mermaid : Option Text) (verified : Bool) (report : Text) :
    (documentFsm orcaMd mermaid verified report).get "verified".toList =
      .ok (some (.bool verified)) := rfl

/-- Of the results of `verify_and_compile`, only that of a verifier that has accepted the copy
says so. -/
theorem Earned.accepted {orcaMd : Text} {fsm : Json} (earned : Earned verifier orcaMd (.ok fsm))
    (shows : fsm.get "verified".toList = .ok (some (.bool true))) :
    DescribesStates orcaMd ∧ ∃ circumstance process,
      verifier circumstance (normalizeForVerification orcaMd) = .ok process ∧
        process.returncode = 0 ∧ fsm = verificationEnded orcaMd process := by
  cases earned with
  | noMachine undescribed =>
      rw [noStateMachine, get_documentFsm] at shows
      cases shows
  | failed error describes =>
      rw [verificationFailed, get_documentFsm] at shows
      cases shows
  | ended circumstance process describes ran =>
      rw [verificationEnded, get_documentFsm] at shows
      have accepted : decide (process.returncode = 0) = true := by simpa using shows
      exact ⟨describes, circumstance, process, ran, of_decide_eq_true accepted, rfl⟩

theorem exists_of_extractFsm {text : Text} {temperature : ℚ}
    (earned : ∀ orcaMd, Earned verifier orcaMd (env.verifyAndCompile orcaMd))
    (shows : (extractFsm env text temperature).get "verified".toList = .ok (some (.bool true))) :
    ∃ orcaMd, env.extractStateMachine text temperature = .ok orcaMd ∧ DescribesStates orcaMd ∧
      ∃ circumstance process,
        verifier circumstance (normalizeForVerification orcaMd) = .ok process ∧
          process.returncode = 0 ∧
          extractFsm env text temperature = verificationEnded orcaMd process := by
  have failed : ∀ report, (failedFsm report).get "verified".toList ≠ .ok (some (.bool true)) := by
    intro report shows
    cases shows
  unfold extractFsm at shows ⊢
  cases answered : env.extractStateMachine text temperature >>= env.verifyAndCompile with
  | error error =>
      rw [answered] at shows
      dsimp only at shows
      split at shows <;> exact absurd shows (failed _)
  | ok fsm =>
      rw [answered] at shows
      rcases ok_of_bind answered with ⟨orcaMd, extracted, compiled⟩
      have answer := earned orcaMd
      rw [compiled] at answer
      rcases answer.accepted shows with ⟨describes, circumstance, process, ran, zero, same⟩
      exact ⟨orcaMd, extracted, describes, circumstance, process, ran, zero, same⟩

omit [Interpreter] in
/-- The assisted layer shows a verified machine only at the end of a whole analysis. -/
theorem assist_of_shows {temperature : ℚ}
    (shows : (assist env temperature locals).documentFsm.get "verified".toList =
      .ok (some (.bool true))) :
    (locals.docText ≠ [] ∧ locals.verdict ≠ verdictError ∧ env.llmEnabled) ∧
      (assist env temperature locals).analysisStatus = "done".toList ∧
      (assist env temperature locals).documentFsm = extractFsm env locals.docText temperature := by
  have nothing : (Json.obj []).get "verified".toList ≠ .ok (some (.bool true)) := by
    intro shows
    cases shows
  have failed : ∀ error analysis, (failedAnalysis error analysis).documentFsm.get
      "verified".toList ≠ .ok (some (.bool true)) := by
    intro error analysis
    unfold failedAnalysis
    split <;> exact nothing
  unfold assist at shows ⊢
  split at shows
  · next assisted =>
      split at shows
      · exact absurd shows (failed _ _)
      · next analysis analysed =>
          split at shows
          · exact absurd shows (failed _ _)
          · next revised revises =>
              refine ⟨assisted, ?_, ?_⟩ <;> rw [if_pos assisted]
  · exact absurd shows nothing

theorem MachineEarned.of_decided {reasons : List Json}
    (earned : ∀ orcaMd, Earned verifier orcaMd (env.verifyAndCompile orcaMd))
    (decided : Decided env storage claimed locals)
    (shows : (resultRow locals reasons
      (assist env claimed.temperature locals)).ShowsVerified) :
    ∃ parsed orcaMd circumstance process, MachineEarned env verifier claimed
      (resultRow locals reasons (assist env claimed.temperature locals)) parsed orcaMd
      circumstance process := by
  rcases assist_of_shows shows with ⟨⟨read, unfailed, enabled⟩, analysed, fsm⟩
  have shown : (extractFsm env locals.docText claimed.temperature).get "verified".toList =
      .ok (some (.bool true)) := by
    rw [← fsm]
    exact shows
  rcases exists_of_extractFsm earned shown with
    ⟨orcaMd, extracted, describes, circumstance, process, ran, zero, same⟩
  cases decided with
  | raised cause reason outcome =>
      exact absurd (congrArg Prod.fst outcome) unfailed
  | unreadable result parsed unreadable reason outcome =>
      exact absurd (congrArg Prod.fst outcome) unfailed
  | extracted result documentType extraction extracts docText kind fields outcome =>
      rw [docText] at extracted
      have verdict : locals.verdict = verdictPass ∨ locals.verdict = verdictFail := by
        have same : locals.verdict = (fieldsOutcome extraction.fields).1 :=
          congrArg Prod.fst outcome
        rw [same, fieldsOutcome]
        split
        · exact .inl rfl
        · exact .inr rfl
      exact ⟨result, orcaMd, circumstance, process, enabled, verdict, analysed, extracts.parsed,
        extracts.ok, extracted, describes, ran, zero, fsm.trans same⟩

/-- Whatever the parser, the language model and the verifier do, the result of a run shows a
verified machine only if the verifier has accepted the copy of the very machine that the result
shows, and the model has given this machine for the text that was read. -/
theorem machineEarned_of_runValidation {world : World} {runId : UUID} {run : ValidationRun}
    {document : Document} {result : ValidationResult}
    (queued : Queued world runId run document)
    (earned : ∀ orcaMd, Earned verifier orcaMd (env.verifyAndCompile orcaMd))
    (stored : (runValidation env storage runId world).2.db.results runId = some result)
    (shows : result.ShowsVerified) :
    ∃ parsed orcaMd circumstance process, MachineEarned env verifier (claimedOf run document)
      result parsed orcaMd circumstance process := by
  have ends := ensures_runValidation env storage queued
  have decides : ∃ locals reasons, Decided env storage (claimedOf run document) locals ∧
      result = resultRow locals reasons (assist env run.temperature locals) := by
    unfold Ensures at ends
    rcases ran : runValidation env storage runId world with ⟨outcome | outcome, after⟩
    · rw [ran] at ends stored
      cases stored.symm.trans ends.2
    · rw [ran] at ends stored
      rcases ends with ⟨locals, reasons, listed, decided, finished⟩
      exact ⟨locals, reasons, decided, Option.some.inj (stored.symm.trans finished.resultRow)⟩
  rcases decides with ⟨locals, reasons, decided, rfl⟩
  exact MachineEarned.of_decided earned decided shows

end DocumentMachine

section Sample

attribute [local instance] Interpreter.ascii

/-- An environment in which every document is a lease of one state. -/
def leaseEnvironment : Environment :=
  { replyEnvironment "A lease.".toList "no answer".toList with
    analyzeContract := fun _ _ => .ok (.obj [])
    reviseContract := fun text _ _ => .ok text
    extractStateMachine := fun _ _ => .ok oneState
    verifyAndCompile := fun orcaMd => .ok (
      if DescribesStates orcaMd then verificationEnded orcaMd ⟨0, "verified".toList, []⟩
      else noStateMachine orcaMd) }

theorem machineEarned_of_runValidation_lease : ∃ result parsed orcaMd circumstance process,
    (runValidation leaseEnvironment Storage.reliable sampleRunId sampleWorld).2.db.results
      sampleRunId = some result ∧
    MachineEarned leaseEnvironment sampleVerifier (claimedOf sampleRun sampleDocument) result
      parsed orcaMd circumstance process := by
  have earned : ∀ orcaMd, Earned sampleVerifier orcaMd
      (leaseEnvironment.verifyAndCompile orcaMd) := by
    intro orcaMd
    change Earned sampleVerifier orcaMd (.ok (if DescribesStates orcaMd then _ else _))
    by_cases describes : DescribesStates orcaMd
    · rw [if_pos describes]
      exact .ended true _ describes rfl
    · rw [if_neg describes]
      exact .noMachine describes
  have stored : ∃ result, (runValidation leaseEnvironment Storage.reliable sampleRunId
      sampleWorld).2.db.results sampleRunId = some result ∧ result.ShowsVerified :=
    ⟨_, rfl, rfl⟩
  rcases stored with ⟨result, stored, shows⟩
  rcases machineEarned_of_runValidation queued_sampleWorld earned stored shows with
    ⟨parsed, orcaMd, circumstance, process, earned⟩
  exact ⟨result, parsed, orcaMd, circumstance, process, stored, earned⟩

end Sample

end OrcaValidator
