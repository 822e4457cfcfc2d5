import OrcaValidator.Llm.Conversation
import OrcaValidator.Pipeline.Outcome

/-!
# A run as a conversation

`run_validation` with the language model asked question by question, each of its replies
depending on all that the run has asked before.  To everything but the model this is the run
of an environment that answers so, and of the model it asks a bounded amount, until it is
refused.
-/

namespace OrcaValidator

open Library Effect OrcaBridge Conversation

variable [Interpreter]

/-! ## The run, question by question -/

/-- A run beside what it has asked. -/
abbrev Dialogue := Effect (World × List Prompt) PyException

section

variable (env : Environment) (chat : Chat) (storage : Storage) (runId : UUID) (claimed : Claimed)

/-- What is extracted from a parsed document. -/
def askFields (result : OCRResult) : Effect (List Prompt) PyException (Text × Extraction) :=
  if env.llmEnabled then do
    let content ← askClassification chat result.rawText claimed.temperature
    let extraction ← Effect.lift (classifyAndCheckFields content)
    let documentType := extraction.documentType.getD claimed.docType
    return (documentType, holdToCore documentType extraction result)
  else do
    let extract ← Effect.lift (getExtractor claimed.docType env.extractor)
    return (claimed.docType, extract result)

/-- The body of the first `try` statement, up to the machine's last event. -/
def driveAsking : Dialogue Machine :=
  driveBy onFirst (fun result => onSecond (askFields env chat claimed result)) env storage runId
    claimed

/-- The first `try` statement. -/
def decideAsking : Dialogue PUnit :=
  decideBy onFirst (driveAsking env chat storage runId claimed) claimed

/-- The second `try` statement: the analysis and the redline. -/
def askReview (text : Text) (temperature : ℚ) :
    Effect (List Prompt) PyException Assistance :=
  Effect.catching
    (do
      let analysis ← askAnalysis chat text temperature
      Effect.catching
        (do
          let revised ← askRevision chat text temperature analysis
          return {
            analysis := analysis
            revisedMarkdown := some revised
            analysisStatus := "done".toList
            documentFsm := .obj [] })
        (fun error => return failedAnalysis error analysis))
    (fun error => return failedAnalysis error (.obj []))

/-- The third `try` statement: the machine that the document itself expresses. -/
def askDocumentFsm (text : Text) (temperature : ℚ) : Effect (List Prompt) PyException Json :=
  Effect.catching
    (do
      let orcaMd ← askMachine chat text temperature
      Effect.lift (env.verifyAndCompile orcaMd))
    (fun error => return (
      if isBudgetExceeded error then failedFsm "skipped (LLM budget reached)".toList
      else failedFsm ("extraction failed: ".toList ++ error.message)))

/-- The second and the third `try` statement, under their conditions. -/
def askAssistance (temperature : ℚ) (locals : Locals) :
    Effect (List Prompt) PyException Assistance :=
  if locals.docText ≠ [] ∧ locals.verdict ≠ verdictError ∧ env.llmEnabled then do
    let review ← askReview chat locals.docText temperature
    if review.analysisStatus = "done".toList then do
      let fsm ← askDocumentFsm env chat locals.docText temperature
      return { review with documentFsm := fsm }
    else return review
  else
    return {
      analysis := .obj []
      revisedMarkdown := none
      analysisStatus := "skipped".toList
      documentFsm := .obj [] }

/-- The last transaction. -/
def storeAssisted (assistance : Assistance) : Process PUnit :=
  storeResult storage runId fun _ => assistance

/-- `run_validation(run_id)`. -/
def runAsking : Dialogue PUnit := do
  match ← onFirst (claim storage runId) with
  | none => return ⟨⟩
  | some claimed =>
      decideAsking env chat storage runId claimed
      let world ← onFirst Effect.read
      let assistance ← onSecond (askAssistance env chat claimed.temperature world.locals)
      onFirst (storeAssisted storage runId assistance)

/-- The environment whose model answers as `chat` does in the course of a run. -/
def Environment.talking : Environment :=
  { env with
    classifyReply := fun text temperature => (askClassification chat text temperature []).1
    analyzeContract := fun text temperature =>
      (askAnalysis chat text temperature [classifyPrompt text temperature]).1
    reviseContract := fun text analysis temperature =>
      (askRevision chat text temperature analysis
        (askAnalysis chat text temperature [classifyPrompt text temperature]).2).1
    extractStateMachine := fun text temperature =>
      ((do
        let analysis ← askAnalysis chat text temperature
        let _ ← askRevision chat text temperature analysis
        askMachine chat text temperature) [classifyPrompt text temperature]).1 }

end

/-! ## The run of the environment that answers so -/

variable {env : Environment} {chat : Chat} {storage : Storage} {runId : UUID} {claimed : Claimed}

theorem askFields_fst (result : OCRResult) :
    (askFields env chat claimed result []).1 = extractFields (env.talking chat) claimed result := by
  unfold askFields extractFields
  by_cases enabled : env.llmEnabled = true
  · rw [if_pos enabled, if_pos (by exact enabled)]
    simp only [Environment.talking, bind_apply]
    rcases askClassification chat result.rawText claimed.temperature [] with
      ⟨reason | content, asked⟩
    · rfl
    · change _ = classifyAndCheckFields content >>= _
      simp only [lift_apply]
      cases classifyAndCheckFields content with
      | error reason => rfl
      | ok extraction => rfl
  · rw [if_neg enabled, if_neg (by exact enabled)]
    simp only [Environment.talking, bind_apply, lift_apply]
    cases getExtractor claimed.docType env.extractor with
    | error reason => rfl
    | ok extract => rfl

omit [Interpreter] in
theorem failedAnalysis_undone (error : PyException) (analysis : Json) :
    (failedAnalysis error analysis).analysisStatus ≠ "done".toList := by
  have budget : "budget_exceeded".toList ≠ "done".toList := by decide
  have failure : "error".toList ≠ "done".toList := by decide
  unfold failedAnalysis
  split
  · exact budget
  · exact failure

theorem askDocumentFsm_fst {text : Text} {temperature : ℚ} {asked : List Prompt}
    (told : (env.talking chat).extractStateMachine text temperature =
      (askMachine chat text temperature asked).1) :
    (askDocumentFsm env chat text temperature asked).1 =
      .ok (extractFsm (env.talking chat) text temperature) := by
  unfold askDocumentFsm extractFsm
  rw [told, catching_apply, bind_apply]
  rcases askMachine chat text temperature asked with ⟨reason | orcaMd, asked⟩
  · rfl
  · have binds : (Except.ok orcaMd >>= (env.talking chat).verifyAndCompile) =
        env.verifyAndCompile orcaMd := rfl
    rw [binds]
    dsimp only [lift_apply]
    cases env.verifyAndCompile orcaMd with
    | error reason => rfl
    | ok fsm => rfl

theorem extractStateMachine_talking {text : Text} {temperature : ℚ} {analysis : Json}
    {redline : Text} {asked asked' : List Prompt}
    (analysed : askAnalysis chat text temperature [classifyPrompt text temperature] =
      (.ok analysis, asked))
    (revised : askRevision chat text temperature analysis asked = (.ok redline, asked')) :
    (env.talking chat).extractStateMachine text temperature =
      (askMachine chat text temperature asked').1 := by
  simp only [Environment.talking, bind_apply, analysed, revised]

/-- The assisted layer never raises, and asks what the environment has been told. -/
theorem askAssistance_fst {temperature : ℚ} {locals : Locals} {asked : List Prompt}
    (opened : locals.docText ≠ [] → locals.verdict ≠ verdictError → env.llmEnabled →
      asked = [classifyPrompt locals.docText temperature]) :
    (askAssistance env chat temperature locals asked).1 =
      .ok (assist (env.talking chat) temperature locals) := by
  unfold askAssistance assist
  by_cases assisted : locals.docText ≠ [] ∧ locals.verdict ≠ verdictError ∧ env.llmEnabled = true
  · rw [if_pos assisted, if_pos (by exact assisted)]
    obtain rfl := opened assisted.1 assisted.2.1 assisted.2.2
    have analysis_eq : (env.talking chat).analyzeContract locals.docText temperature =
      (askAnalysis chat locals.docText temperature
        [classifyPrompt locals.docText temperature]).1 := rfl
    have revision_eq : ∀ analysis, (env.talking chat).reviseContract locals.docText analysis
        temperature = (askRevision chat locals.docText temperature analysis
          (askAnalysis chat locals.docText temperature
            [classifyPrompt locals.docText temperature]).2).1 := fun _ => rfl
    rw [bind_apply, askReview, catching_apply, bind_apply, analysis_eq]
    rcases analysed : askAnalysis chat locals.docText temperature
      [classifyPrompt locals.docText temperature] with ⟨reason | analysis, asked⟩
    · dsimp only [pure_apply]
      rw [if_neg (failedAnalysis_undone _ _), pure_apply]
    · dsimp only
      rw [revision_eq, analysed, catching_apply, bind_apply]
      rcases revised : askRevision chat locals.docText temperature analysis asked with
        ⟨reason | redline, asked'⟩
      · dsimp only [pure_apply]
        rw [if_neg (failedAnalysis_undone _ _), pure_apply]
      · have told : (env.talking chat).extractStateMachine locals.docText temperature =
            (askMachine chat locals.docText temperature asked').1 :=
          extractStateMachine_talking analysed revised
        have answer := askDocumentFsm_fst told
        dsimp only [pure_apply]
        rw [if_pos rfl, bind_apply]
        rcases found : askDocumentFsm env chat locals.docText temperature asked' with
          ⟨reason | fsm, last⟩
        · rw [found] at answer
          cases answer
        · rw [found] at answer
          rw [Except.ok.inj answer]
          rfl
  · rw [if_neg assisted, if_neg (by exact assisted)]
    rfl

/-! ## What is asked before the verdict -/

/-- What the driving section asks about a text that has been read. -/
def opening (env : Environment) (claimed : Claimed) (text : Text) : List Prompt :=
  if env.llmEnabled then [classifyPrompt text claimed.temperature] else []

/-- No more has been asked than what kind of document the text is. -/
def Opened (env : Environment) (claimed : Claimed) (locals : Locals) (asked : List Prompt) :
    Prop :=
  locals.docText = [] ∧ asked = [] ∨ asked = opening env claimed locals.docText

omit [Interpreter] in
theorem ensures_askClassification (text : Text) (temperature : ℚ) :
    Ensures (askClassification chat text temperature) []
      (fun _ asked => asked = [classifyPrompt text temperature] ∧ Answered chat asked)
      (fun _ asked => asked = [classifyPrompt text temperature] ∧ RefusedLast chat asked) := by
  have asked : Ensures (askClassification chat text temperature) []
      (fun _ after => after = [classifyPrompt text temperature])
      (fun _ after => after = [classifyPrompt text temperature]) := by
    change Ensures (Conversation.put chat (classifyPrompt text temperature)) [] _ _
    unfold Ensures Conversation.put
    split <;> next ended => exact (congrArg Prod.snd ended).symm
  have answers : Costs chat temperature 1 900 (askClassification chat text temperature) :=
    costs_classification
  exact (asked.and (answers [] answered_nil)).weaken (fun _ _ both => ⟨both.1, both.2.2⟩)
    fun _ _ both => ⟨both.1, both.2.2⟩

theorem ensures_askFields (result : OCRResult) :
    Ensures (askFields env chat claimed result) []
      (fun _ asked => asked = opening env claimed result.rawText ∧ Answered chat asked)
      (fun _ asked => asked = opening env claimed result.rawText ∧ RefusedLast chat asked) := by
  unfold askFields opening
  by_cases enabled : env.llmEnabled = true
  · rw [if_pos enabled, if_pos enabled]
    refine Ensures.bind ((ensures_askClassification _ _).weaken ?_ fun _ _ refused => refused)
    intro content asked answered
    refine Ensures.bind (Ensures.lift ?_ fun _ _ => ⟨answered.1, answered.2.refusedLast⟩)
    exact fun extraction _ => Ensures.pure answered
  · rw [if_neg enabled, if_neg enabled]
    refine Ensures.bind (Ensures.lift ?_ fun _ _ => ⟨rfl, answered_nil.refusedLast⟩)
    exact fun extract _ => Ensures.pure ⟨rfl, answered_nil⟩

omit [Interpreter] in
/-- What happens in the world, but for the variables of the run, does not change what is known
of the variables and the questions. -/
theorem ensures_beside {α : Type} {action : Process α}
    (kept : ∀ locals, Preserves (fun world => world.locals = locals) action)
    (property : Locals → List Prompt → Prop) {states : World × List Prompt}
    (holds : property states.1.locals states.2) :
    Ensures (onFirst action) states (fun _ after => property after.1.locals after.2)
      (fun _ after => property after.1.locals after.2) := by
  refine Ensures.onFirst ((Ensures.ofPreserves (kept states.1.locals) rfl).weaken ?_ ?_)
  · intro _ world same
    simpa only [same] using holds
  · intro _ world same
    simpa only [same] using holds

theorem ensures_driveAsking {states : World × List Prompt}
    (unread : states.1.locals.docText = []) (unasked : states.2 = []) :
    Ensures (driveAsking env chat storage runId claimed) states
      (fun _ after => Opened env claimed after.1.locals after.2 ∧ Answered chat after.2)
      (fun _ after => Opened env claimed after.1.locals after.2 ∧ RefusedLast chat after.2) := by
  have created : Ensures (onFirst (getOrCreate storage claimed.docType runId
      (startContext claimed))) states
      (fun _ after => after.1.locals.docText = [] ∧ after.2 = [])
      (fun _ after => after.1.locals.docText = [] ∧ after.2 = []) :=
    ensures_beside (fun locals => preserves_getOrCreate storage (keptByBridge_locals locals) _ _ _)
      (fun locals asked => locals.docText = [] ∧ asked = []) ⟨unread, unasked⟩
  have sent (event : ContractEvent) (payload : Context) {states : World × List Prompt}
      (opened : Opened env claimed states.1.locals states.2 ∧ Answered chat states.2) :
      Ensures (onFirst (send storage claimed.docType runId event payload)) states
        (fun _ after => Opened env claimed after.1.locals after.2 ∧ Answered chat after.2)
        (fun _ after => Opened env claimed after.1.locals after.2 ∧ Answered chat after.2) :=
    ensures_beside
      (fun locals => preserves_send storage (keptByBridge_locals locals) _ _ _ _ _)
      (fun locals asked => Opened env claimed locals asked ∧ Answered chat asked) opened
  have refused {states : World × List Prompt}
      (opened : Opened env claimed states.1.locals states.2 ∧ Answered chat states.2) :
      Opened env claimed states.1.locals states.2 ∧ RefusedLast chat states.2 :=
    ⟨opened.1, opened.2.refusedLast⟩
  have unopened {states : World × List Prompt}
      (nothing : states.1.locals.docText = [] ∧ states.2 = []) :
      Opened env claimed states.1.locals states.2 ∧ Answered chat states.2 :=
    ⟨.inl nothing, by rw [nothing.2]; exact answered_nil⟩
  refine Ensures.bind (created.weaken ?_ fun _ _ nothing => refused (unopened nothing))
  intro machine states nothing
  refine Ensures.bind (Ensures.lift ?_ fun _ _ => refused (unopened nothing))
  intro result parsed
  by_cases readable : result.ok = true
  · rw [if_pos readable]
    refine Ensures.bind (Ensures.onFirst (ensures_assign ?_))
    refine Ensures.bind (Ensures.onSecond ?_)
    dsimp only
    rw [nothing.2]
    refine (ensures_askFields result).weaken ?_ ?_
    · rintro ⟨documentType, extraction⟩ asked ⟨rfl, answered⟩
      refine Ensures.bind (Ensures.onFirst (ensures_assign ?_))
      refine Ensures.bind ((sent .extracted extraction.payload ⟨.inr rfl, answered⟩).weaken ?_
        fun _ _ opened => refused opened)
      intro machine states opened
      exact (sent .evaluate ∅ opened).weaken (fun _ _ opened => opened) fun _ _ opened =>
        refused opened
    · rintro reason asked ⟨rfl, answered⟩
      exact ⟨.inr rfl, answered⟩
  · rw [if_neg readable]
    exact (sent .extractionFailed (failurePayload result) (unopened nothing)).weaken
      (fun _ _ opened => opened) fun _ _ opened => refused opened

/-- Once the outcome is decided, no more has been asked than what kind of document it is; a
refusal of this has become the verdict. -/
theorem ensures_decideAsking (world : World) :
    Ensures (decideAsking env chat storage runId claimed) (world, [])
      (fun _ after => Opened env claimed after.1.locals after.2 ∧ RefusedLast chat after.2 ∧
        (after.1.locals.verdict ≠ verdictError → Answered chat after.2))
      (fun _ _ => False) := by
  refine Ensures.bind (Ensures.onFirst (ensures_assign ?_))
  refine Ensures.catching (Ensures.bind ((ensures_driveAsking rfl rfl).weaken ?_ ?_))
  · intro machine states opened
    exact Ensures.onFirst (ensures_assign ⟨opened.1, opened.2.refusedLast, fun _ => opened.2⟩)
  · intro error states opened
    exact Ensures.onFirst (ensures_assign ⟨opened.1, opened.2, fun unfailed => absurd rfl unfailed⟩)

/-! ## What is asked after the verdict -/

theorem ensures_askReview {text : Text} {temperature : ℚ} {asked : List Prompt}
    (answered : Answered chat asked) :
    Ensures (askReview chat text temperature) asked
      (fun review after => Grows (Prompt.Heated temperature) Prompt.maxTokens 14 54752 asked after ∧
        RefusedLast chat after ∧
        (review.analysisStatus = "done".toList → Answered chat after))
      (fun _ _ => False) := by
  refine Ensures.catching (Ensures.bind ((costs_analysis asked answered).weaken ?_ ?_))
  · rintro analysis middle ⟨analysed, answered⟩
    have revision : Costs chat temperature 13 51552 (do
        let revised ← askRevision chat text temperature analysis
        return ({ analysis := analysis, revisedMarkdown := some revised,
                  analysisStatus := "done".toList, documentFsm := .obj [] } : Assistance)) :=
      (costs_revision analysis).bind fun revised => Asks.pure _
    refine (revision.caught answered).weaken ?_ fun _ _ impossible => impossible.elim
    rintro review after ⟨revised, refused, unhandled⟩
    refine ⟨analysed.trans revised, refused, fun done => unhandled fun error handled => ?_⟩
    exact failedAnalysis_undone error analysis (handled ▸ done)
  · rintro error after ⟨analysed, refused⟩
    exact Ensures.pure ⟨analysed.mono (by omega) (by omega), refused, fun done =>
      absurd done (failedAnalysis_undone error _)⟩

/-- The assisted layer asks fifteen questions at the most, and none after a refusal. -/
theorem ensures_askAssistance {temperature : ℚ} {locals : Locals} {asked : List Prompt}
    (refused : RefusedLast chat asked)
    (answered : locals.verdict ≠ verdictError → Answered chat asked) :
    Ensures (askAssistance env chat temperature locals) asked
      (fun _ after => Grows (Prompt.Heated temperature) Prompt.maxTokens 15 56252 asked after ∧
        RefusedLast chat after ∧ (¬env.llmEnabled → after = asked))
      (fun _ _ => False) := by
  unfold askAssistance
  by_cases assisted : locals.docText ≠ [] ∧ locals.verdict ≠ verdictError ∧ env.llmEnabled = true
  · rw [if_pos assisted]
    refine Ensures.bind ((ensures_askReview (answered assisted.2.1)).weaken ?_ fun _ _ no => no)
    rintro review middle ⟨reviewed, refused, done⟩
    by_cases isDone : review.analysisStatus = "done".toList
    · rw [if_pos isDone]
      have machine : Costs chat temperature 1 1500 (do
          let orcaMd ← askMachine chat locals.docText temperature
          Effect.lift (env.verifyAndCompile orcaMd)) :=
        costs_machine.bind fun orcaMd => .lift _
      refine Ensures.bind ((machine.caught (done isDone)).weaken ?_ fun _ _ no => no)
      rintro fsm after ⟨found, refused, _⟩
      exact Ensures.pure ⟨reviewed.trans found, refused, fun disabled =>
        absurd assisted.2.2 disabled⟩
    · rw [if_neg isDone]
      exact Ensures.pure ⟨reviewed.mono (by omega) (by omega), refused, fun disabled =>
        absurd assisted.2.2 disabled⟩
  · rw [if_neg assisted]
    exact Ensures.pure ⟨.refl asked, refused, fun _ => rfl⟩

/-! ## The whole run -/

theorem refines_driveAsking {states : World × List Prompt} (unasked : states.2 = []) :
    Refines Prod.fst (driveAsking env chat storage runId claimed)
      (drive (env.talking chat) storage runId claimed) states := by
  refine Refines.bind (Refines.onFirst _ _) ?_
  intro _ states' created
  rw [← onFirst_snd created] at unasked
  refine Refines.lift fun result parsed => ?_
  by_cases readable : result.ok = true
  · rw [if_pos readable, if_pos readable]
    refine Refines.bind (Refines.onFirst _ _) ?_
    intro _ states assigned
    rw [← onFirst_snd assigned] at unasked
    refine Refines.bind (Refines.onSecond (by rw [unasked]; exact askFields_fst result)) ?_
    rintro ⟨documentType, extraction⟩ states extracted
    refine Refines.bind (Refines.onFirst _ _) fun _ states _ => ?_
    exact Refines.bind (Refines.onFirst _ _) fun _ states _ => Refines.onFirst _ _
  · rw [if_neg readable, if_neg readable]
    exact Refines.onFirst _ _

theorem refines_decideAsking {states : World × List Prompt} (unasked : states.2 = []) :
    Refines Prod.fst (decideAsking env chat storage runId claimed)
      (decideOutcome (env.talking chat) storage runId claimed) states := by
  refine Refines.bind (Refines.onFirst _ _) ?_
  intro _ states' assigned
  rw [← onFirst_snd assigned] at unasked
  refine Refines.catching ?_ fun error after raised => Refines.onFirst _ _
  exact Refines.bind (refines_driveAsking unasked) fun machine after drove => Refines.onFirst _ _

omit [Interpreter] in
/-- The history on which the assisted layer is entered. -/
theorem Opened.asked_eq {locals : Locals} {asked : List Prompt}
    (opened : Opened env claimed locals asked) (read : locals.docText ≠ [])
    (enabled : env.llmEnabled) : asked = [classifyPrompt locals.docText claimed.temperature] := by
  rcases opened with ⟨unread, _⟩ | asked
  · exact absurd unread read
  · rw [asked, opening, if_pos enabled]

theorem refines_assisting {states : World × List Prompt}
    (opened : Opened env claimed states.1.locals states.2) :
    Refines Prod.fst (do
        let world ← onFirst Effect.read
        let assistance ← onSecond (askAssistance env chat claimed.temperature world.locals)
        onFirst (storeAssisted storage runId assistance))
      (store (env.talking chat) storage runId claimed) states := by
  have answers : (askAssistance env chat claimed.temperature states.1.locals states.2).1 =
      .ok (assist (env.talking chat) claimed.temperature states.1.locals) :=
    askAssistance_fst fun read _ enabled => opened.asked_eq read enabled
  refine Refines.skip rfl rfl (Refines.skip (congrArg (·, _) answers) rfl ?_)
  exact ⟨rfl, rfl⟩

/-- To everything but the model, the run is that of an environment that answers as the model
does. -/
theorem refines_runAsking (world : World) :
    Refines Prod.fst (runAsking env chat storage runId)
      (runValidation (env.talking chat) storage runId) (world, []) := by
  refine Refines.bind (Refines.onFirst _ _) ?_
  intro claimed states claims
  have unasked : states.2 = [] := onFirst_snd claims
  cases claimed with
  | none => exact Refines.pure _
  | some claimed =>
      refine Refines.bind (refines_decideAsking unasked) ?_
      intro _ after decided
      rcases states with ⟨world, asked⟩
      obtain rfl : asked = [] := unasked
      have opened := Ensures.ok (ensures_decideAsking world) (congrArg Prod.fst decided)
      rw [decided] at opened
      exact refines_assisting opened.1

omit [Interpreter] in
/-- Claiming a run reads its temperature, and nothing is claimed but what waits. -/
theorem ensures_claim_temperature (world : World) :
    Ensures (claim storage runId) world
      (fun claimed _ => ∀ chosen ∈ claimed, ∃ run, world.db.runs runId = some run ∧
        run.status.Claimable ∧ chosen.temperature = run.temperature)
      (fun _ _ => True) := by
  refine Ensures.bind (Ensures.read ?_)
  cases found : world.db.runs runId with
  | none => exact Ensures.pure (by simp)
  | some run =>
      dsimp only
      split
      · next claimable =>
          cases world.db.documents run.documentId with
          | none => exact Ensures.raise trivial
          | some document =>
              refine Ensures.bind (ensures_commit (fun _ => Ensures.pure ?_) fun _ _ => trivial)
              rintro chosen ⟨⟩
              exact ⟨run, rfl, claimable, rfl⟩
      · exact Ensures.pure (by simp)

/-- A question of a claimed run, with the model switched on. -/
def Chosen (env : Environment) (temperature : ℚ) (prompt : Prompt) : Prop :=
  env.llmEnabled ∧ prompt.temperature = temperature

omit [Interpreter] in
theorem Opened.grows {locals : Locals} {asked : List Prompt}
    (opened : Opened env claimed locals asked) :
    Grows (Chosen env claimed.temperature) Prompt.maxTokens 1 900 [] asked := by
  rcases opened with ⟨_, rfl⟩ | rfl
  · exact .refl []
  · unfold opening
    split
    · next enabled =>
        exact ⟨[classifyPrompt locals.docText claimed.temperature], rfl, by simp,
          by simp [classifyPrompt], by simp [Chosen, enabled, classifyPrompt]⟩
    · exact .refl []

/-- What a run has asked, and that it has asked nothing after a refusal. -/
def Asked (env : Environment) (chat : Chat) (temperature : ℚ) (asked : List Prompt) : Prop :=
  Grows (Chosen env temperature) Prompt.maxTokens 16 57152 [] asked ∧ RefusedLast chat asked

theorem ensures_claimed (claimed : Claimed) (world : World) :
    Ensures (do
        decideAsking env chat storage runId claimed
        let world ← onFirst Effect.read
        let assistance ← onSecond (askAssistance env chat claimed.temperature world.locals)
        onFirst (storeAssisted storage runId assistance)) (world, [])
      (fun _ after => Asked env chat claimed.temperature after.2)
      (fun _ after => Asked env chat claimed.temperature after.2) := by
  refine Ensures.bind ((ensures_decideAsking world).weaken ?_ fun _ _ no => no.elim)
  rintro _ ⟨world, asked⟩ ⟨opened, refused, answered⟩
  refine Ensures.bind (Ensures.onFirst (Ensures.read (Ensures.bind (Ensures.onSecond ?_))))
  refine (ensures_askAssistance refused answered).weaken ?_ fun _ _ no => no.elim
  rintro assistance after ⟨assisted, refused, silent⟩
  have all : Asked env chat claimed.temperature after := by
    refine ⟨?_, refused⟩
    by_cases enabled : env.llmEnabled = true
    · exact opened.grows.trans (assisted.imp fun prompt heated => ⟨enabled, heated⟩)
    · rw [silent enabled]
      exact opened.grows.mono (by omega) (by omega)
  exact Ensures.onFirst (Ensures.const all)

/-- To everything but the model, a run is that of an environment that answers as the model does
in the course of it; and it asks the model sixteen questions at the most, with a bounded budget
of tokens, all at the temperature that was chosen for the run and none unless the model is
enabled, and nothing more once it has been refused. -/
theorem runAsking_bounded (env : Environment) (chat : Chat) (storage : Storage) (runId : UUID)
    (world : World) :
    ∃ outcome after asked,
      runAsking env chat storage runId (world, []) = (outcome, after, asked) ∧
      runValidation (env.talking chat) storage runId world = (outcome, after) ∧
      asked.length ≤ 16 ∧ (asked.map Prompt.maxTokens).sum ≤ 57152 ∧ RefusedLast chat asked ∧
      ∀ prompt ∈ asked, env.llmEnabled ∧ ∃ run, world.db.runs runId = some run ∧
        run.status.Claimable ∧ prompt.temperature = run.temperature := by
  have asks : Ensures (runAsking env chat storage runId) (world, [])
      (fun _ after => after.2 = [] ∨ ∃ run, world.db.runs runId = some run ∧
        run.status.Claimable ∧ Asked env chat run.temperature after.2)
      (fun _ after => after.2 = [] ∨ ∃ run, world.db.runs runId = some run ∧
        run.status.Claimable ∧ Asked env chat run.temperature after.2) := by
    refine Ensures.bind (Ensures.onFirst ((ensures_claim_temperature world).weaken ?_
      fun _ _ _ => .inl rfl))
    intro claimed middle chosen
    cases claimed with
    | none => exact Ensures.pure (.inl rfl)
    | some claimed =>
        rcases chosen claimed rfl with ⟨run, found, claimable, same⟩
        refine (ensures_claimed claimed middle).weaken ?_ ?_
        · exact fun _ after asked => .inr ⟨run, found, claimable, same ▸ asked⟩
        · exact fun _ after asked => .inr ⟨run, found, claimable, same ▸ asked⟩
  rcases (refines_runAsking world : Refines Prod.fst (runAsking env chat storage runId)
    (runValidation (env.talking chat) storage runId) (world, [])) with ⟨same, shows⟩
  have limited := asks.after
  rcases ran : runAsking env chat storage runId (world, []) with ⟨outcome, after, asked⟩
  rw [ran] at same shows limited
  refine ⟨outcome, after, asked, rfl, Prod.ext same.symm shows.symm, ?_⟩
  rcases limited with rfl | ⟨run, found, claimable, ⟨_, rfl, few, small, all⟩, refused⟩
  · exact ⟨by simp, by simp, answered_nil.refusedLast, by simp⟩
  · exact ⟨few, small, refused, fun prompt isAsked =>
      ⟨(all prompt isAsked).1, run, found, claimable, (all prompt isAsked).2⟩⟩

end OrcaValidator
