import OrcaValidator.Library.Occurrence
import OrcaValidator.Ocr.Reader

/-!
# Page by page

Whether a contract field is present in a document of pages, as `_read_fitz` joins them, is
decided on the pages one by one.
-/

namespace OrcaValidator

open Library Regex DeterministicContractExtractor

section Pages

variable [Interpreter]

/-- The extractor reports a field of a text as present. -/
def Reports (text field : Text) : Prop :=
  (extract ⟨text, none⟩).fields.get? field = some true

theorem reports_iff {text field : Text} (required : field ∈ contractRequired) :
    Reports text field ↔ present (Interpreter.lower text) field = true := by
  have entry : (extract ⟨text, none⟩).fields.get? field =
      some (present (Interpreter.lower text) field) := by
    rw [Dict.get?_eq_some_iff]
    exact List.mem_map.mpr ⟨field, required, rfl⟩
  rw [Reports, entry, Option.some.injEq]

theorem not_reports {text field : Text} (other : field ∉ contractRequired) :
    ¬Reports text field := by
  intro reported
  rw [Reports, Dict.get?_eq_some_iff] at reported
  rcases List.mem_map.mp reported with ⟨known, required, same⟩
  rw [(Prod.mk.inj same).1] at required
  exact other required

/-! ## Fields -/

theorem admitsEdges_noWord : AdmitsEdges fun char => isWordAt char = false where
  edge := rfl
  space := fun char space => Interpreter.isWord_of_isSpace char space

omit [Interpreter] in
theorem admitsEdges_any : AdmitsEdges fun _ => True := ⟨trivial, fun _ _ => trivial⟩

/-- A phrase of one line, its ends checked on the text. -/
def inlinePhrase (phrase : Text) : Bool :=
  phrase.head?.any (fun char => !Text.isSpace char) &&
    phrase.getLast?.any (fun char => !Text.isSpace char) && !phrase.contains '\n'

omit [Interpreter] in
theorem inline_of_inlinePhrase {phrase : Text} (checked : inlinePhrase phrase = true) :
    Inline phrase := by
  simp only [inlinePhrase, Bool.and_eq_true, Option.any_eq_true, Bool.not_eq_true',
    List.contains_eq_mem, decide_eq_false_iff_not] at checked
  rcases checked with ⟨⟨⟨first, begins, visible⟩, last, ends, solid⟩, oneLine⟩
  refine ⟨?_, ?_, ?_, oneLine⟩
  · rintro rfl
    cases begins
  · intro char here
    rwa [← Option.some.inj (begins.symm.trans here)]
  · intro char here
    rwa [← Option.some.inj (ends.symm.trans here)]

theorem foundInParts_stands {phrases : List Text} (inline : phrases.all inlinePhrase = true) :
    FoundInParts fun text => ∃ phrase ∈ phrases, Stands phrase text :=
  .exists_mem fun phrase member => (inline_of_inlinePhrase
    (List.all_eq_true.mp inline phrase member)).foundInParts admitsEdges_noWord admitsEdges_noWord

theorem foundInParts_starts {stems : List Text} (inline : stems.all inlinePhrase = true) :
    FoundInParts fun text => ∃ stem ∈ stems, Starts stem text := by
  refine FoundInParts.exists_mem fun stem member => ?_
  have inline := inline_of_inlinePhrase (List.all_eq_true.mp inline stem member)
  refine (inline.foundInParts admitsEdges_noWord admitsEdges_any).of_iff fun text => ?_
  simp only [Starts, Occurs, and_true]

omit [Interpreter] in
theorem foundInParts_of_within {phrases : List Text} (inline : phrases.all inlinePhrase = true) :
    FoundInParts fun text => ∃ phrase ∈ phrases, phrase <:+: text := by
  refine FoundInParts.exists_mem fun phrase member => ?_
  have inline := inline_of_inlinePhrase (List.all_eq_true.mp inline phrase member)
  refine (inline.foundInParts admitsEdges_any admitsEdges_any).of_iff fun text => ?_
  simp only [List.IsInfix, Occurs, and_true, List.append_assoc, eq_comm]

theorem foundInParts_present {field : Text} (required : field ∈ contractRequired) :
    FoundInParts fun text => present text field = true := by
  rcases List.mem_cons.mp required with rfl | required
  · exact (foundInParts_stands (by decide)).of_iff fun text => present_parties_iff
  rcases List.mem_cons.mp required with rfl | required
  · exact ((foundInParts_stands (by decide)).or (foundInParts_stands (by decide))).of_iff
      fun text => present_effectiveDate_iff
  rcases List.mem_cons.mp required with rfl | required
  · exact (foundInParts_starts (by decide)).of_iff fun text => present_term_iff
  rcases List.mem_cons.mp required with rfl | required
  · exact ((foundInParts_of_within (by decide)).or (foundInParts_of_within (by decide))).of_iff
      fun text => present_signatures_iff
  · rw [List.mem_singleton.mp required]
    exact ((foundInParts_stands (by decide)).or (foundInParts_stands (by decide))).of_iff
      fun text => present_governingLaw_iff

/-! ## Documents of pages -/

theorem lower_intercalate (lowers : Interpreter.LowersWords) (texts : List Text) :
    Interpreter.lower (List.intercalate "\n\n".toList texts) =
      List.intercalate "\n\n".toList (texts.map Interpreter.lower) := by
  induction texts with
  | nil => exact Interpreter.lower_nil
  | cons text rest ih =>
      cases rest with
      | nil => simp
      | cons next others =>
          have lines := lowers.lower_append_cons [] '\n'
            (List.intercalate "\n\n".toList (next :: others)) (by decide)
          rw [List.nil_append, Interpreter.lower_nil, List.nil_append] at lines
          rw [intercalate_emptyLine, lowers.lower_append_cons text '\n' _ (by decide), lines, ih]
          exact (intercalate_emptyLine _ _ _).symm

/-- The white space around a text is nothing to a field. -/
theorem reports_strip_iff (lowers : Interpreter.LowersWords) {text field : Text} :
    Reports (Text.strip text) field ↔ Reports text field := by
  by_cases required : field ∈ contractRequired
  · have parts := foundInParts_present required
    rcases Text.exists_around_strip text with ⟨lead, trail, before, after, whole⟩
    have lowered : Interpreter.lower text =
        lead ++ Interpreter.lower (Text.strip text) ++ trail := by
      rw [← lowers.lower_lead _ before, ← lowers.lower_trail _ after, ← whole]
    rw [reports_iff required, reports_iff required, lowered, parts.append_trail _ after,
      parts.lead_append _ before]
  · exact iff_of_false (not_reports required) (not_reports required)

theorem reports_joinPages_iff (lowers : Interpreter.LowersWords) (pages : List Text)
    (field : Text) :
    Reports (joinPages pages) field ↔ ∃ page ∈ pages, Reports page field := by
  rw [joinPages, reports_strip_iff lowers]
  by_cases required : field ∈ contractRequired
  · rw [reports_iff required, lower_intercalate lowers,
      (foundInParts_present required).intercalate]
    simp only [reports_iff required, List.mem_map, exists_exists_and_eq_and]
  · refine iff_of_false (not_reports required) ?_
    rintro ⟨page, _, reported⟩
    exact not_reports required reported

theorem missingCount_le {text otherText : Text}
    (kept : ∀ field, Reports text field → Reports otherText field) :
    (extract ⟨otherText, none⟩).missingCount ≤ (extract ⟨text, none⟩).missingCount := by
  change (contractRequired.filter _).length ≤ (contractRequired.filter _).length
  rw [← List.countP_eq_length_filter, ← List.countP_eq_length_filter]
  apply List.countP_mono_left
  intro field required missing
  rw [Bool.not_eq_true', ← Bool.not_eq_true, ← reports_iff required] at missing ⊢
  exact fun reported => missing (kept field reported)

/-- A field is present in the pages exactly if it is present on one of them, so that more
pages take no field away. -/
theorem presence_pageByPage (lowers : Interpreter.LowersWords) :
    (∀ pages field, Reports (joinPages pages) field ↔ ∃ page ∈ pages, Reports page field) ∧
      ∀ pages more, (∀ field, Reports (joinPages pages) field →
          Reports (joinPages (pages ++ more)) field) ∧
        (extract ⟨joinPages (pages ++ more), none⟩).missingCount ≤
          (extract ⟨joinPages pages, none⟩).missingCount := by
  refine ⟨reports_joinPages_iff lowers, fun pages more => ?_⟩
  have kept : ∀ field, Reports (joinPages pages) field →
      Reports (joinPages (pages ++ more)) field := by
    intro field reported
    rcases (reports_joinPages_iff lowers pages field).mp reported with ⟨page, member, onPage⟩
    exact (reports_joinPages_iff lowers _ field).mpr
      ⟨page, List.mem_append_left more member, onPage⟩
  exact ⟨kept, missingCount_le kept⟩

end Pages

section

attribute [local instance] Interpreter.ascii

theorem presence_pageByPage_ascii :
    (∀ pages field, Reports (joinPages pages) field ↔ ∃ page ∈ pages, Reports page field) ∧
      ∀ pages more, (∀ field, Reports (joinPages pages) field →
          Reports (joinPages (pages ++ more)) field) ∧
        (extract ⟨joinPages (pages ++ more), none⟩).missingCount ≤
          (extract ⟨joinPages pages, none⟩).missingCount :=
  presence_pageByPage Interpreter.ascii_lowersWords

end

end OrcaValidator
