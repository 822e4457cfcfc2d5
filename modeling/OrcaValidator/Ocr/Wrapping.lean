import OrcaValidator.Library.Reflow
import OrcaValidator.Ocr.Extract

/-!
# Wrapping

Whether the deterministic extractor depends on where the lines of a document wrap.  A
phrase in one word is found wherever the lines end; a phrase with blanks in it only where
no line ends within it.
-/

namespace OrcaValidator

open Library Regex DeterministicContractExtractor

section

variable [Interpreter]

/-- However the white space of the text is reflowed, the extracted field set, the missing
fields and their number are the same. -/
def StableUnderReflow (blanks : Blanks) (result : OCRResult) : Prop :=
  ∀ text, blanks.Reflow result.rawText text →
    (extract { result with rawText := text }).fields = (extract result).fields ∧
      (extract { result with rawText := text }).missingFields = (extract result).missingFields ∧
      (extract { result with rawText := text }).missingCount = (extract result).missingCount

/-- Where a field is found with every run of white space made one blank, a phrase in one
word says so too. -/
structure OneWordSuffices (blanks : Blanks) (text : Text) : Prop where
  effectiveDate :
    present (Interpreter.lower (blanks.fill ' ' text)) "effective_date".toList = true →
      Stands "dated".toList (Interpreter.lower text)
  signatures : present (Interpreter.lower (blanks.fill ' ' text)) "signatures".toList = true →
    "signature".toList <:+: Interpreter.lower text ∨ "/s/".toList <:+: Interpreter.lower text
  governingLaw :
    present (Interpreter.lower (blanks.fill ' ' text)) "governing_law".toList = true →
      Stands "jurisdiction".toList (Interpreter.lower text)

/-- How a field is detected: by phrases in one word, which no reflow breaks, or by phrases
with blanks in them. -/
structure Detects (blanks : Blanks) (field : Text) (solid spaced : Text → Prop) : Prop where
  present_iff : ∀ text, present text field = true ↔ solid text ∨ spaced text
  keeps : ∀ {text text'}, blanks.Reflow text text' → solid text → solid text'
  fills : ∀ {text}, spaced text → spaced (blanks.fill ' ' text)
  blank : ∀ {text}, spaced text → ' ' ∈ text

namespace Detects

variable {blanks : Blanks} {field : Text} {solid spaced : Text → Prop}

theorem solid_iff (detects : Detects blanks field solid spaced) {text text' : Text}
    (reflow : blanks.Reflow text text') : solid text ↔ solid text' :=
  ⟨detects.keeps reflow, detects.keeps reflow.symm⟩

/-- What is found in a text is found with its runs of white space made one blank. -/
theorem present_fill (detects : Detects blanks field solid spaced)
    (lowers : Interpreter.LowersWords) {text : Text}
    (found : present (Interpreter.lower text) field = true) :
    present (Interpreter.lower (blanks.fill ' ' text)) field = true := by
  rw [blanks.lower_fill lowers blanks.space, detects.present_iff]
  rcases (detects.present_iff _).mp found with oneWord | several
  · exact .inl (detects.keeps (Blanks.reflow_fill blanks.space _) oneWord)
  · exact .inr (detects.fills several)

/-- With every run of white space made a newline, only phrases in one word are found. -/
theorem solid_of_present_newlines (detects : Detects blanks field solid spaced)
    (lowers : Interpreter.LowersWords) {text : Text}
    (found : present (Interpreter.lower (blanks.fill '\n' text)) field = true) :
    solid (Interpreter.lower text) := by
  rw [blanks.lower_fill lowers blanks.newline, detects.present_iff] at found
  rcases found with oneWord | several
  · exact (detects.solid_iff (Blanks.reflow_fill blanks.newline _)).mpr oneWord
  · have same := Blanks.eq_of_mem_fill blanks.space (detects.blank several)
    exact absurd same (by decide)

theorem solid_of_present_fill (detects : Detects blanks field solid spaced)
    (lowers : Interpreter.LowersWords) (never : ∀ text, ¬spaced text) {text : Text}
    (found : present (Interpreter.lower (blanks.fill ' ' text)) field = true) :
    solid (Interpreter.lower text) := by
  rw [blanks.lower_fill lowers blanks.space, detects.present_iff] at found
  have oneWord := found.resolve_right (never _)
  exact (detects.solid_iff (Blanks.reflow_fill blanks.space _)).mpr oneWord

/-- A field is found alike in all reflows of a text exactly if it is found by a phrase in
one word or not even with single blanks. -/
theorem stable_iff (detects : Detects blanks field solid spaced)
    (lowers : Interpreter.LowersWords) (text : Text) :
    (∀ text', blanks.Reflow text text' → present (Interpreter.lower text') field =
        present (Interpreter.lower text) field) ↔
      (present (Interpreter.lower (blanks.fill ' ' text)) field = true →
        solid (Interpreter.lower text)) := by
  constructor
  · intro stable found
    have single := stable _ (Blanks.reflow_fill blanks.space text)
    have broken := stable _ (Blanks.reflow_fill blanks.newline text)
    rw [found] at single
    exact detects.solid_of_present_newlines lowers (broken.trans single.symm)
  · intro oneWord text' reflow
    by_cases holds : solid (Interpreter.lower text)
    · have holds' := detects.keeps (reflow.lower lowers) holds
      rw [(detects.present_iff _).mpr (.inl holds), (detects.present_iff _).mpr (.inl holds')]
    · have absent := mt oneWord holds
      have here := mt (detects.present_fill lowers) absent
      rw [reflow.fill_eq ' '] at absent
      have there := mt (detects.present_fill lowers) absent
      rw [Bool.not_eq_true] at here there
      rw [here, there]

/-- A field that is looked for as whole words. -/
theorem of_stands {oneWord several : List Text}
    (present_iff : ∀ text, present text field = true ↔
      (∃ phrase ∈ oneWord, Stands phrase text) ∨ ∃ phrase ∈ several, Stands phrase text)
    (isSolid : ∀ phrase ∈ oneWord, phrase ≠ [] ∧ phrase.all (fun char => !Text.isSpace char) = true)
    (isSpaced : ∀ phrase ∈ several, Blanks.SingleSpaced phrase ∧ ' ' ∈ phrase) :
    Detects blanks field (fun text => ∃ phrase ∈ oneWord, Stands phrase text)
      (fun text => ∃ phrase ∈ several, Stands phrase text) := by
  refine ⟨present_iff, ?_, ?_, ?_⟩
  · rintro text text' reflow ⟨phrase, member, stands⟩
    exact ⟨phrase, member, reflow.stands (Blanks.solid_of_visible (isSolid phrase member)) stands⟩
  · rintro text ⟨phrase, member, stands⟩
    exact ⟨phrase, member, (isSpaced phrase member).1.spaced.stands_fill stands⟩
  · rintro text ⟨phrase, member, left, right, rfl, _, _⟩
    have blank := (isSpaced phrase member).2
    simp [blank]

theorem parties (blanks : Blanks) : Detects blanks "parties".toList
    (fun text => ∃ phrase ∈ ["between".toList, "party".toList, "parties".toList],
      Stands phrase text)
    (fun text => ∃ phrase ∈ ([] : List Text), Stands phrase text) :=
  of_stands (fun _ => by rw [present_parties_iff]; simp) (by decide) (by decide)

theorem effectiveDate (blanks : Blanks) : Detects blanks "effective_date".toList
    (fun text => ∃ phrase ∈ ["dated".toList], Stands phrase text)
    (fun text => ∃ phrase ∈ ["effective date".toList, "effective as of".toList],
      Stands phrase text) :=
  of_stands (fun _ => present_effectiveDate_iff) (by decide) (by decide)

theorem term (blanks : Blanks) : Detects blanks "term".toList
    (fun text => ∃ stem ∈ ["term".toList, "duration".toList, "expir".toList, "terminat".toList],
      Starts stem text) (fun _ => False) := by
  have isSolid : ∀ stem ∈ ["term".toList, "duration".toList, "expir".toList, "terminat".toList],
      stem ≠ [] ∧ stem.all (fun char => !Text.isSpace char) = true := by decide
  refine ⟨fun text => by rw [present_term_iff, or_false], ?_, False.elim, False.elim⟩
  rintro text text' reflow ⟨stem, member, starts⟩
  exact ⟨stem, member, reflow.starts (Blanks.solid_of_visible (isSolid stem member)) starts⟩

theorem signatures (blanks : Blanks) : Detects blanks "signatures".toList
    (fun text => ∃ phrase ∈ ["signature".toList, "/s/".toList], phrase <:+: text)
    (fun text => ∃ phrase ∈ ["signed by".toList, "in witness whereof".toList],
      phrase <:+: text) := by
  have isSolid : ∀ phrase ∈ ["signature".toList, "/s/".toList],
      phrase ≠ [] ∧ phrase.all (fun char => !Text.isSpace char) = true := by decide
  have isSpaced : ∀ phrase ∈ ["signed by".toList, "in witness whereof".toList],
      Blanks.SingleSpaced phrase ∧ ' ' ∈ phrase := by decide
  refine ⟨fun text => present_signatures_iff, ?_, ?_, ?_⟩
  · rintro text text' reflow ⟨phrase, member, occurs⟩
    exact ⟨phrase, member,
      reflow.infix_solid (Blanks.solid_of_visible (isSolid phrase member)) occurs⟩
  · rintro text ⟨phrase, member, occurs⟩
    exact ⟨phrase, member, (isSpaced phrase member).1.spaced.infix_fill occurs⟩
  · rintro text ⟨phrase, member, occurs⟩
    exact occurs.subset (isSpaced phrase member).2

theorem governingLaw (blanks : Blanks) : Detects blanks "governing_law".toList
    (fun text => ∃ phrase ∈ ["jurisdiction".toList], Stands phrase text)
    (fun text => ∃ phrase ∈ ["governing law".toList, "governed by".toList, "laws of".toList],
      Stands phrase text) :=
  of_stands (fun _ => present_governingLaw_iff) (by decide) (by decide)

end Detects

theorem stableUnderReflow_iff_present (blanks : Blanks) (result : OCRResult) :
    StableUnderReflow blanks result ↔ ∀ field ∈ contractRequired, ∀ text,
      blanks.Reflow result.rawText text → present (Interpreter.lower text) field =
        present (Interpreter.lower result.rawText) field := by
  constructor
  · intro stable field member text reflow
    have entries :
        contractRequired.map (fun field => (field, present (Interpreter.lower text) field)) =
          contractRequired.map fun field =>
            (field, present (Interpreter.lower result.rawText) field) :=
      congrArg Dict.entries (stable text reflow).1
    exact (Prod.mk.inj (List.map_inj_left.mp entries field member)).2
  · intro alike text reflow
    have same : ∀ field ∈ contractRequired, present (Interpreter.lower text) field =
        present (Interpreter.lower result.rawText) field :=
      fun field member => alike field member text reflow
    have missing : (extract { result with rawText := text }).missingFields =
        (extract result).missingFields :=
      List.filter_congr fun field member => congrArg not (same field member)
    refine ⟨?_, missing, congrArg List.length missing⟩
    have entries :
        contractRequired.map (fun field => (field, present (Interpreter.lower text) field)) =
          contractRequired.map fun field =>
            (field, present (Interpreter.lower result.rawText) field) :=
      List.map_congr_left fun field member => by rw [same field member]
    exact Dict.ext entries

/-- Field detection is independent of wrapping exactly where one word suffices. -/
theorem stableUnderReflow_iff (lowers : Interpreter.LowersWords) (blanks : Blanks)
    (result : OCRResult) :
    StableUnderReflow blanks result ↔ OneWordSuffices blanks result.rawText := by
  have parties := (Detects.parties blanks).stable_iff lowers result.rawText
  have effectiveDate := (Detects.effectiveDate blanks).stable_iff lowers result.rawText
  have term := (Detects.term blanks).stable_iff lowers result.rawText
  have signatures := (Detects.signatures blanks).stable_iff lowers result.rawText
  have governingLaw := (Detects.governingLaw blanks).stable_iff lowers result.rawText
  rw [stableUnderReflow_iff_present]
  constructor
  · intro alike
    refine ⟨fun found => ?_, fun found => ?_, fun found => ?_⟩
    · rcases effectiveDate.mp (alike _ (by decide)) found with ⟨phrase, member, stands⟩
      exact List.mem_singleton.mp member ▸ stands
    · rcases signatures.mp (alike _ (by decide)) found with ⟨phrase, member, occurs⟩
      rcases List.mem_cons.mp member with rfl | member
      · exact .inl occurs
      · exact .inr (List.mem_singleton.mp member ▸ occurs)
    · rcases governingLaw.mp (alike _ (by decide)) found with ⟨phrase, member, stands⟩
      exact List.mem_singleton.mp member ▸ stands
  · intro oneWord field member
    rcases List.mem_cons.mp member with rfl | member
    · exact parties.mpr ((Detects.parties blanks).solid_of_present_fill lowers (by simp))
    rcases List.mem_cons.mp member with rfl | member
    · exact effectiveDate.mpr fun found =>
        ⟨_, List.mem_singleton_self _, oneWord.effectiveDate found⟩
    rcases List.mem_cons.mp member with rfl | member
    · exact term.mpr ((Detects.term blanks).solid_of_present_fill lowers (by simp))
    rcases List.mem_cons.mp member with rfl | member
    · refine signatures.mpr fun found => ?_
      rcases oneWord.signatures found with occurs | occurs
      · exact ⟨_, List.mem_cons_self, occurs⟩
      · exact ⟨_, List.mem_cons_of_mem _ (List.mem_singleton_self _), occurs⟩
    · rw [List.mem_singleton.mp member]
      exact governingLaw.mpr fun found =>
        ⟨_, List.mem_singleton_self _, oneWord.governingLaw found⟩

end

/-! ## A broken phrase -/

/-- Blanks, newlines and tabs. -/
def typedBlanks : Blanks where
  isBlank := fun char => char == ' ' || char == '\n' || char == '\t'
  space := by decide
  newline := by decide
  isSpace_of_isBlank := by
    intro char blank
    simp only [Bool.or_eq_true, beq_iff_eq] at blank
    rcases blank with (rfl | rfl) | rfl <;> decide

/-- All that `str.isspace` counts as white space. -/
def allBlanks : Blanks := ⟨Text.isSpace, by decide, by decide, fun _ blank => blank⟩

section

attribute [local instance] Interpreter.ascii

theorem stableUnderReflow_iff_dated :
    StableUnderReflow allBlanks ⟨"Effective Date: dated May 1".toList, none⟩ ↔
      OneWordSuffices allBlanks "Effective Date: dated May 1".toList :=
  stableUnderReflow_iff Interpreter.ascii_lowersWords allBlanks _

/-- With a line that ends between the two words, the effective date is missing. -/
theorem not_stableUnderReflow_effectiveDate :
    ¬StableUnderReflow typedBlanks ⟨"Effective Date: May 1".toList, none⟩ := by
  intro stable
  have reflow : typedBlanks.Reflow "Effective Date: May 1".toList
      "Effective\nDate: May 1".toList :=
    .run "Effective".toList (Blanks.Run.singleton rfl) (Blanks.Run.singleton rfl)
      (.refl "Date: May 1".toList)
  have same := (stable _ reflow).2.2
  exact absurd same (by decide +kernel)

end

end OrcaValidator
