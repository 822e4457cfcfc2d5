import Mathlib.Data.List.Infix
import OrcaValidator.Pipeline.Verdict

/-!
# Contract kinds

Which documents a run holds to the core contract fields.  `is_contract_like` looks for its
keywords anywhere in the type, so that a keyword inside another word makes a contract of a
document of some other kind.
-/

namespace OrcaValidator

open Library Regex Effect OrcaBridge

section

variable [Interpreter]

/-- A keyword behind `left` begins a word, or follows the prefix `sub` of one. -/
def OpensWord (left : Text) : Prop :=
  isWordAt left.getLast? = false ∨
    ∃ before, left = before ++ "sub".toList ∧ isWordAt before.getLast? = false

/-- The keyword begins a word of the text, or follows the prefix `sub` of one. -/
def AtWordStart (keyword text : Text) : Prop :=
  ∃ left right, text = left ++ (keyword ++ right) ∧ OpensWord left

/-- The keyword occurs within a word of the text. -/
def InsideWord (keyword text : Text) : Prop :=
  ∃ left right, text = left ++ (keyword ++ right) ∧ ¬OpensWord left

/-- The run checks no core contract field that the classifier left out. -/
def AddsNoCore (fields : Dict Text Bool) (result : ValidationResult) : Prop :=
  ∀ field ∈ contractRequired, fields.get? field = none → result.extractedFields.get? field = none

instance (left : Text) : Decidable (OpensWord left) :=
  decidable_of_iff (isWordAt left.getLast? = false ∨
      ∃ before ∈ left.inits, left = before ++ "sub".toList ∧ isWordAt before.getLast? = false)
    (or_congr_right ⟨fun ⟨before, _, split⟩ => ⟨before, split⟩, fun ⟨before, split⟩ =>
      ⟨before, (List.mem_inits _ _).mpr ⟨_, split.1.symm⟩, split⟩⟩)

instance (keyword text : Text) : Decidable (AtWordStart keyword text) :=
  decidable_of_iff (∃ left ∈ text.inits, left ++ keyword <+: text ∧ OpensWord left) (by
    constructor
    · rintro ⟨left, _, ⟨right, split⟩, opens⟩
      exact ⟨left, right, by rw [← split, List.append_assoc], opens⟩
    · rintro ⟨left, right, rfl, opens⟩
      exact ⟨left, (List.mem_inits _ _).mpr ⟨_, rfl⟩, ⟨right, List.append_assoc _ _ _⟩, opens⟩)

theorem isContractLike_iff {kind : Text} :
    isContractLike kind = true ↔ ∃ keyword ∈ contractLike, keyword <:+: Interpreter.lower kind := by
  simp only [isContractLike, List.any_eq_true, decide_eq_true_eq]

/-- A keyword occurs at the beginning of a word or within one. -/
theorem infix_iff_word {keyword text : Text} :
    keyword <:+: text ↔ AtWordStart keyword text ∨ InsideWord keyword text := by
  constructor
  · rintro ⟨left, right, rfl⟩
    rw [List.append_assoc]
    by_cases opens : OpensWord left
    · exact .inl ⟨left, right, rfl, opens⟩
    · exact .inr ⟨left, right, rfl, opens⟩
  · rintro (⟨left, right, rfl, _⟩ | ⟨left, right, rfl, _⟩) <;>
      exact ⟨left, right, List.append_assoc _ _ _⟩

theorem isContractLike_iff_insideWord {kind : Text}
    (foreign : ∀ keyword ∈ contractLike, ¬AtWordStart keyword (Interpreter.lower kind)) :
    isContractLike kind = true ↔
      ∃ keyword ∈ contractLike, InsideWord keyword (Interpreter.lower kind) := by
  rw [isContractLike_iff]
  constructor
  · rintro ⟨keyword, member, occurs⟩
    exact ⟨keyword, member, (infix_iff_word.mp occurs).resolve_left (foreign keyword member)⟩
  · rintro ⟨keyword, member, inside⟩
    exact ⟨keyword, member, infix_iff_word.mpr (.inr inside)⟩

/-- The core fields are added to the field set of a contract-like document, and to no
other. -/
theorem get?_holdToCore_none_iff {kind : Text} {extraction : Extraction} {parsed : OCRResult} :
    (∀ field ∈ contractRequired, extraction.fields.get? field = none →
        (holdToCore kind extraction parsed).fields.get? field = none) ↔
      isContractLike kind = false ∨
        ∀ field ∈ contractRequired, (extraction.fields.get? field).isSome = true := by
  unfold holdToCore
  cases isContractLike kind with
  | false => simp
  | true =>
      simp only [if_true, Bool.true_eq_false, false_or]
      constructor
      · intro none field member
        by_contra absent
        have dropped := none field member (Option.not_isSome_iff_eq_none.mp absent)
        have filled := isSome_get?_mergeCoreContractFields extraction.fields parsed member
        change (mergeCoreContractFields extraction.fields parsed).get? field = _ at dropped
        rw [dropped] at filled
        cases filled
      · intro all field member absent
        have present := all field member
        rw [absent] at present
        cases present

/-- For a type in which no keyword begins a word, a run adds no core contract field exactly
if no keyword occurs within a word either, or the classifier named all five fields. -/
theorem addsNoCore_iff {env : Environment} {storage : Storage} {world : World} {runId : UUID}
    {run : ValidationRun} {document : Document} {parsed : OCRResult} {content kind : Text}
    {extraction : Extraction} (queued : Queued world runId run document)
    (supported : document.docType ∈ machineDefs) (commits : storage.Commits)
    (quiet : ¬storage.Faulty) (llm : env.llmEnabled = true)
    (parse : env.parseDocument document.blobRef = .ok parsed) (ok : parsed.ok = true)
    (replied : env.classifyReply parsed.rawText run.temperature = .ok content)
    (classified : classifyAndCheckFields content = .ok extraction)
    (typed : extraction.documentType = some kind)
    (foreign : ∀ keyword ∈ contractLike, ¬AtWordStart keyword (Interpreter.lower kind)) :
    ∃ result, (runValidation env storage runId world).2.db.results runId = some result ∧
      (AddsNoCore extraction.fields result ↔
        (∀ keyword ∈ contractLike, ¬InsideWord keyword (Interpreter.lower kind)) ∨
          ∀ field ∈ contractRequired, (extraction.fields.get? field).isSome = true) := by
  have extracted : extractFields env (claimedOf run document) parsed =
      .ok (kind, holdToCore kind extraction parsed) := by
    rw [extractFields_reply (claimedOf run document) llm replied, classified]
    change Except.ok (extraction.documentType.getD _, holdToCore _ extraction parsed) = _
    rw [typed]
    rfl
  rcases result_of_extracts queued commits quiet supported ⟨parse, ok, extracted⟩ with
    ⟨result, stored, _, fields⟩
  refine ⟨result, stored, ?_⟩
  have outside : isContractLike kind = false ↔
      ∀ keyword ∈ contractLike, ¬InsideWord keyword (Interpreter.lower kind) := by
    rw [← Bool.not_eq_true, isContractLike_iff_insideWord foreign]
    simp only [not_exists, not_and]
  rw [AddsNoCore, fields, get?_holdToCore_none_iff, outside]

end

section

attribute [local instance] Interpreter.ascii

/-- An agenda, of which only the date is asked for. -/
def agendaReply : Text :=
  ("\x7b\"document_type\": \"agenda\", \"required_fields\": [" ++
    "\x7b\"name\": \"date\", \"present\": true\x7d]\x7d").toList

/-- The field that the classifier gives for an agenda. -/
def agendaFields : Dict Text Bool := Dict.ofList (keyedEntries [("date".toList, true)])

theorem classify_agenda : classifyAndCheckFields agendaReply =
    .ok (.ofFields (some "agenda".toList) agendaFields) := by
  have proper : ProperReply agendaReply (.str "agenda".toList) [("date".toList, true)] := by
    refine ⟨[("document_type".toList, .str "agenda".toList), ("required_fields".toList, .arr
      [.obj [("name".toList, .str "date".toList), ("present".toList, .bool true)]])],
      [.obj [("name".toList, .str "date".toList), ("present".toList, .bool true)]],
      by decide +kernel, rfl, rfl, ?_⟩
    exact .cons ⟨_, rfl, rfl, rfl⟩ .nil
  exact classify_proper proper

theorem not_atWordStart_agenda :
    ∀ keyword ∈ contractLike, ¬AtWordStart keyword (Interpreter.lower "agenda".toList) := by
  decide +kernel

/-- An agenda is held to the core contract fields, because of the letters n, d, a in it. -/
theorem not_addsNoCore_agenda :
    (∀ keyword ∈ contractLike, ¬AtWordStart keyword (Interpreter.lower "agenda".toList)) ∧
      classifyAndCheckFields agendaReply =
        .ok (.ofFields (some "agenda".toList) agendaFields) ∧
      ∃ result, (runValidation (replyEnvironment "Agenda of May 1.".toList agendaReply)
          Storage.reliable sampleRunId sampleWorld).2.db.results sampleRunId = some result ∧
        ¬AddsNoCore agendaFields result := by
  have stored : ((runValidation (replyEnvironment "Agenda of May 1.".toList agendaReply)
      Storage.reliable sampleRunId sampleWorld).2.db.results sampleRunId).map
        (fun result => result.extractedFields.get? "parties".toList) = some (some false) := by
    decide +kernel
  rcases Option.map_eq_some_iff.mp stored with ⟨result, row, parties⟩
  refine ⟨not_atWordStart_agenda, classify_agenda, result, row, ?_⟩
  intro addsNone
  have absent := addsNone "parties".toList (by decide) (by decide)
  rw [parties] at absent
  cases absent

theorem addsNoCore_iff_agenda :
    ∃ result, (runValidation (replyEnvironment "Agenda of May 1.".toList agendaReply)
        Storage.reliable sampleRunId sampleWorld).2.db.results sampleRunId = some result ∧
      (AddsNoCore agendaFields result ↔
        (∀ keyword ∈ contractLike,
          ¬InsideWord keyword (Interpreter.lower "agenda".toList)) ∨
          ∀ field ∈ contractRequired, (agendaFields.get? field).isSome = true) :=
  addsNoCore_iff queued_sampleWorld (by decide) Storage.commits_reliable
    Storage.not_faulty_reliable rfl rfl (by decide) rfl classify_agenda rfl
    not_atWordStart_agenda

end

end OrcaValidator
