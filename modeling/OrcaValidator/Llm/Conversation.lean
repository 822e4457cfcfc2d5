import OrcaValidator.Library.Conversation
import OrcaValidator.Llm.Analyze
import OrcaValidator.Llm.Classify
import OrcaValidator.Llm.ExtractMachine
import OrcaValidator.Llm.Revise

/-!
# What the model is asked

The prompts of `classify_and_check_fields`, `analyze_contract` and `extract_state_machine`,
and these functions with `revise_contract` as the questions they put to the model one after
the other.
-/

namespace OrcaValidator

open Library Conversation

/-! ## The prompts -/

/-- The system prompt of `classify_and_check_fields`. -/
def classifySystem : Text :=
  "You are a document analyst. FIRST identify the KIND of document. THEN list the 3-6 ".toList ++
  "fields or elements that a well-formed document OF THAT KIND should contain — fields ".toList ++
  "that genuinely matter for this kind, NOT generic ones — and whether each is present ".toList ++
  "in the text. Respond with JSON only: \x7b\"document_type\": string (e.g. ".toList ++
  "'employment contract', 'invoice', 'cover letter', 'resume', 'research paper', ".toList ++
  "'privacy policy', 'meeting minutes'), \"required_fields\": [\x7b\"name\": string in ".toList ++
  "snake_case, \"present\": boolean\x7d]\x7d. Examples — contract: parties, ".toList ++
  "effective_date, term, signatures, governing_law; invoice: invoice_number, ".toList ++
  "invoice_date, total_amount, vendor, line_items; resume: contact_info, ".toList ++
  "work_experience, education, skills; letter: date, recipient, sender, signature.".toList

/-- The system prompt of `analyze_contract`. -/
def analyzeSystem : Text :=
  "You are a meticulous document analyst. Analyze the document and respond with JSON ".toList ++
  "only, using exactly these keys: summary (string — a succinct plain-language summary ".toList ++
  "of what the document is and says), aims (string — what the document is trying to ".toList ++
  "achieve), parties (array of strings), key_terms (array of objects \x7bterm, ".toList ++
  "detail\x7d), strengths (array of strings), weaknesses (array of strings), ".toList ++
  "potential_pitfalls (array of strings — risks or ways this could go wrong in ".toList ++
  "practice), issues (array of objects \x7bseverity: one of high|medium|low, issue, ".toList ++
  "recommendation\x7d), missing_or_weak_clauses (array of strings), ".toList ++
  "overall_recommendation (string).".toList

/-- `_FSM_FORMAT`. -/
def fsmFormat : Text := List.intercalate "\n".toList [
  "Express the lifecycle / process the document describes as a state machine in".toList,
  "ORCA Markdown. Follow this format EXACTLY:".toList,
  [],
  "# machine NameInPascalCase".toList,
  [],
  "## events".toList,
  "- EVENT_IN_UPPER_SNAKE".toList,
  [],
  "## state state_in_snake_case [initial]".toList,
  "> a SHORT 2-5 word label for this state (e.g. \"Drafting\", \"Active license\", ".toList ++
    "\"Terminated\")".toList,
  "- ignore: *".toList,
  [],
  "## state terminal_state [final]".toList,
  [],
  "## transitions".toList,
  "| Source | Event | Guard | Target | Action |".toList,
  "|---|---|---|---|---|".toList,
  "| state_in_snake_case | EVENT_IN_UPPER_SNAKE | | terminal_state | |".toList,
  [],
  "HIERARCHY — use ONLY when a phase has its own internal sub-lifecycle:".toList,
  "Make that phase a COMPOSITE state: write the parent as `## state parent` (NO ".toList ++
    "[initial]/[final]) and".toList,
  "nest its child states one heading level deeper as `### state child`, marking ".toList ++
    "exactly ONE child".toList,
  "[initial]. Transitions may target the parent (which enters its initial child) or ".toList ++
    "any child directly.".toList,
  "Example — an \"active\" phase that cycles internally:".toList,
  [],
  "## state active".toList,
  "> Active".toList,
  "- ignore: *".toList,
  [],
  "### state in_good_standing [initial]".toList,
  "> In good standing".toList,
  "- ignore: *".toList,
  [],
  "### state in_dispute".toList,
  "> In dispute".toList,
  "- ignore: *".toList,
  [],
  "To LEAVE a composite for a state OUTSIDE it, put that transition on the PARENT ".toList ++
    "composite, not on a".toList,
  "child — e.g. `| active | TERMINATE | | terminated | |`, which applies to ALL of ".toList ++
    "active's children. A".toList,
  "child may only transition to a sibling inside the same composite. (ORCA does NOT ".toList ++
    "treat a".toList,
  "child→outside transition as reaching the outside state, so an exit written on a ".toList ++
    "child fails".toList,
  "verification with the outside state \"unreachable\".)".toList,
  [],
  "RULES (a verifier will check these):".toList,
  "- The FIRST line MUST be exactly `# machine NameInPascalCase` — include the literal ".toList ++
    "word \"machine\".".toList,
  "- Exactly ONE top-level state marked [initial]; mark every terminal state [final]. ".toList ++
    "Each composite".toList,
  "  has exactly ONE child marked [initial]. A composite parent is NOT marked ".toList ++
    "[initial] or [final].".toList,
  "- Every non-final state (parents and children) needs at least one outgoing ".toList ++
    "transition AND a".toList,
  "  \"- ignore: *\" line.".toList,
  "- Every state must be reachable from the initial state. Nest at most 2 levels deep, ".toList ++
    "and ONLY when".toList,
  "  the document genuinely describes sub-states within a phase — otherwise keep it ".toList ++
    "flat.".toList,
  "- Model the document's REAL stages/lifecycle (e.g. a contract: drafting → effective ".toList ++
    "→ active →".toList,
  "  renewal/termination; an agreement's obligations as conditional transitions).".toList,
  "- Output ONLY the .orca.md document — no preamble, no explanation, no ``` fences.".toList]

/-- What `classify_and_check_fields` asks. -/
def classifyPrompt (text : Text) (temperature : ℚ) : Prompt :=
  ⟨classifySystem, "Document text:\n\n".toList ++ text.take 60000, 900, temperature⟩

/-- What `analyze_contract` asks. -/
def analyzePrompt (text : Text) (temperature : ℚ) : Prompt :=
  ⟨analyzeSystem, "Document text:\n\n".toList ++ text.take 60000, 3200, temperature⟩

/-- What `extract_state_machine` asks. -/
def machinePrompt (text : Text) (temperature : ℚ) : Prompt :=
  ⟨"You are a systems analyst. ".toList ++ fsmFormat,
    "Document:\n\n".toList ++ text.take 40000, 1500, temperature⟩

/-! ## The questions -/

section

variable (chat : Chat) (text : Text) (temperature : ℚ)

/-- The content of the reply that `classify_and_check_fields` reads. -/
def askClassification : Effect (List Prompt) PyException Text :=
  ask chat (classifyPrompt text temperature)

/-- `analyze_contract`. -/
def askAnalysis [Interpreter] : Effect (List Prompt) PyException Json := do
  let content ← ask chat (analyzePrompt text temperature)
  Effect.lift (analyzeContract content)

/-- `extract_state_machine`. -/
def askMachine [Interpreter] : Effect (List Prompt) PyException Text := do
  let content ← ask chat (machinePrompt text temperature)
  return machineOfReply content

/-- `revise_contract`. -/
def askRevision [Interpreter] (analysis : Json) : Effect (List Prompt) PyException Text :=
  reviseSections chat ((splitIntoChunks text chunkChars).getD []) analysis temperature

/-- Chunking always ends. -/
theorem reviseContract_eq [Interpreter] (analysis : Json) :
    reviseContract chat text analysis temperature =
      some (askRevision chat text temperature analysis) := by
  rcases splitIntoChunks_spec text with ⟨chunks, split, _⟩
  rw [reviseContract, askRevision, split]
  rfl

end

/-! ## How much is asked -/

/-- The prompt is sent with this temperature. -/
def Prompt.Heated (temperature : ℚ) (prompt : Prompt) : Prop := prompt.temperature = temperature

variable {chat : Chat} {text : Text} {temperature : ℚ}

/-- At most so many questions of so many tokens together, at this temperature. -/
abbrev Costs {α : Type} (chat : Chat) (temperature : ℚ) (questions tokens : ℕ)
    (action : Effect (List Prompt) PyException α) : Prop :=
  Asks chat (Prompt.Heated temperature) Prompt.maxTokens questions tokens action

theorem costs_ask {prompt : Prompt} (heated : prompt.temperature = temperature) :
    Costs chat temperature 1 prompt.maxTokens (ask chat prompt) := Asks.put heated

theorem costs_classification :
    Costs chat temperature 1 900 (askClassification chat text temperature) := costs_ask rfl

theorem costs_analysis [Interpreter] :
    Costs chat temperature 1 3200 (askAnalysis chat text temperature) :=
  (costs_ask rfl).bind fun content => .lift (analyzeContract content)

theorem costs_machine [Interpreter] :
    Costs chat temperature 1 1500 (askMachine chat text temperature) :=
  (costs_ask rfl).bind fun content => .pure (machineOfReply content)

theorem costs_reviseChunk (chunk : Text) :
    Costs chat temperature 1 4096 (reviseChunk chat temperature chunk) :=
  (costs_ask rfl).bind fun reply => .pure (Text.strip reply)

/-- One question for each chunk. -/
theorem costs_reviseChunks (chunks : List Text) :
    Costs chat temperature chunks.length (4096 * chunks.length)
      (reviseChunks chat temperature chunks) := by
  induction chunks with
  | nil => exact .pure []
  | cons chunk chunks ih =>
      have all := (costs_reviseChunk chunk).bind fun part => ih.bind fun parts =>
        (.pure (part :: parts) : Costs chat temperature 0 0 _)
      refine all.mono ?_ ?_
      · simp [Nat.add_comm]
      · simp [Nat.mul_add, Nat.add_comm]

theorem costs_draftAdditions [Interpreter] (missing : Json) :
    Costs chat temperature 1 2400 (draftAdditions chat missing temperature) := by
  have drafts (items : List Text) : Costs chat temperature 1 2400 (do
      let reply ← ask chat ⟨additionsSystem,
        "Draft additions for:\n- ".toList ++ List.intercalate "\n- ".toList items, 2400,
        temperature⟩
      return Text.strip reply) := (costs_ask rfl).bind fun reply => .pure (Text.strip reply)
  have nothing : Costs chat temperature 1 2400 (pure [] : Effect (List Prompt) PyException Text) :=
    (Asks.pure []).mono (Nat.zero_le _) (Nat.zero_le _)
  refine .ite (fun _ => nothing) fun _ => ?_
  exact ((Asks.lift (missingItems missing)).bind drafts).mono (by simp) (by simp)

/-- At most one question for each of twelve chunks, and one for the additions. -/
theorem costs_revision [Interpreter] (analysis : Json) :
    Costs chat temperature 13 51552 (askRevision chat text temperature analysis) := by
  have few : (((splitIntoChunks text chunkChars).getD []).take maxChunks).length ≤ 12 := by
    rw [List.length_take]
    exact Nat.min_le_left ..
  have all : Costs chat temperature _ _ (reviseChunks chat temperature
    (((splitIntoChunks text chunkChars).getD []).take maxChunks)) := costs_reviseChunks _
  refine Asks.mono (all.bind fun parts => (Asks.lift _).bind fun missing =>
    (costs_draftAdditions _).bind fun additions => Asks.pure _) ?_ ?_
  · omega
  · omega

end OrcaValidator
