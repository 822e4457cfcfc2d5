import OrcaValidator.Library.Regex
import OrcaValidator.Orca.ContractActions

/-!
# Field extraction

The deterministic contract extractor, and the merge that holds every contract-like
document to the core contract fields.  Whatever path a field set comes from, the list
and the number of missing fields that the machine is fed are those of the field set;
`Extraction` carries the proof of it.
-/

namespace OrcaValidator

open Library

/-- What the extraction takes of an `OCRResult`: the text, or why there is none. -/
structure OCRResult where
  rawText : Text
  error : Option Text

namespace OCRResult

/-- `OCRResult.ok`: no error, and some text that is not white space. -/
def ok (result : OCRResult) : Bool :=
  result.error.isNone && !(Text.strip result.rawText).isEmpty

end OCRResult

/-- A structured field set, as `extract` and `classify_and_check_fields` return it. -/
structure Extraction where
  documentType : Option Text
  fields : Dict Text Bool
  missingFields : List Text
  missingCount : ℕ
  /-- The values of the `has_…` keys, which only the deterministic extractor sets. -/
  flags : List (Text × Bool)
  missing_eq : missingFields = fields.falseKeys
  count_eq : missingCount = missingFields.length

namespace Extraction

/-- The extraction whose missing fields are computed from the field set. -/
def ofFields (documentType : Option Text) (fields : Dict Text Bool)
    (flags : List (Text × Bool) := []) : Extraction where
  documentType := documentType
  fields := fields
  missingFields := fields.falseKeys
  missingCount := fields.falseKeys.length
  flags := flags
  missing_eq := rfl
  count_eq := rfl

/-- The extraction as the payload of the EXTRACTED event. -/
def payload (extraction : Extraction) : Context :=
  Dict.ofList ((extraction.documentType.map fun kind =>
      ("document_type".toList, .str kind)).toList ++ [
    ("fields".toList,
      .obj (extraction.fields.entries.map fun item => (item.1, .bool item.2))),
    ("missing_fields".toList, .arr (extraction.missingFields.map .str)),
    ("missing_count".toList, .int extraction.missingCount)] ++
    extraction.flags.map fun flag => ("has_".toList ++ flag.1, .int (if flag.2 then 1 else 0)))

/-- The flags hide no key of the payload that does not start like a flag. -/
private theorem find_flags (extraction : Extraction) (key : Text) (first : key.head? ≠ some 'h') :
    Dict.find key (extraction.flags.map fun flag =>
      ("has_".toList ++ flag.1, Json.int (if flag.2 then 1 else 0))).reverse = none := by
  rw [Dict.find_eq_none_iff]
  intro present
  simp only [List.map_reverse, List.map_map, List.mem_reverse, List.mem_map,
    Function.comp_apply] at present
  rcases present with ⟨flag, _, rfl⟩
  exact first rfl

theorem get?_payload_missingCount (extraction : Extraction) :
    extraction.payload.get? "missing_count".toList = some (.int extraction.missingCount) := by
  simp only [payload, Dict.ofList, Dict.get?_update, List.reverse_append, Dict.find_append,
    find_flags extraction "missing_count".toList (by decide)]
  rfl

theorem get?_payload_missingFields (extraction : Extraction) :
    extraction.payload.get? "missing_fields".toList =
      some (.arr (extraction.missingFields.map .str)) := by
  simp only [payload, Dict.ofList, Dict.get?_update, List.reverse_append, Dict.find_append,
    find_flags extraction "missing_fields".toList (by decide)]
  rfl

end Extraction

/-- The core fields.  `CONTRACT_REQUIRED`. -/
def contractRequired : List Text :=
  ["parties".toList, "effective_date".toList, "term".toList, "signatures".toList,
    "governing_law".toList]

namespace DeterministicContractExtractor

open Regex

/-- A pattern of alternative phrases. -/
private def phrases (first : Text) (others : List Text) : Regex :=
  anyOf (literal first) (others.map literal)

/-- `\b(…)\b`. -/
private def wholeWords (body : Regex) : Regex := .seq .boundary (.seq body .boundary)

/-- `_PATTERNS`. -/
def patterns : List (Text × Regex) := [
  ("parties".toList,
    wholeWords (anyOf (literal "between".toList) [literal "by and between".toList,
      .seq (literal "part".toList) (phrases "y".toList ["ies".toList])])),
  ("effective_date".toList,
    wholeWords (phrases "effective date".toList
      ["effective as of".toList, "dated as of".toList, "dated".toList])),
  ("term".toList,
    wholeWords (.seq (phrases "term".toList
      ["duration".toList, "expir".toList, "terminat".toList]) (.star .word))),
  ("signatures".toList,
    phrases "signature".toList ["signed by".toList, "in witness whereof".toList, "/s/".toList]),
  ("governing_law".toList,
    wholeWords (phrases "governing law".toList
      ["governed by".toList, "jurisdiction".toList, "laws of".toList]))]

variable [Interpreter]

/-- Whether a field is found in a text. -/
def present (text : Text) (field : Text) : Bool :=
  (Dict.find field patterns).any fun pattern => pattern.search text

/-! What each pattern finds: phrases in one word, and phrases with blanks in them. -/

omit [Interpreter] in
private theorem exists_mem_of_second {finds : Text → Prop} {a b c d : Text}
    (shorter : finds b → finds a) :
    (∃ phrase ∈ [a, b, c, d], finds phrase) ↔ ∃ phrase ∈ [a, c, d], finds phrase := by
  simp only [List.exists_mem_cons_iff]
  tauto

omit [Interpreter] in
private theorem exists_mem_of_third {finds : Text → Prop} {a b c d : Text}
    (shorter : finds c → finds d) :
    (∃ phrase ∈ [a, b, c, d], finds phrase) ↔
      (∃ phrase ∈ [d], finds phrase) ∨ ∃ phrase ∈ [a, b], finds phrase := by
  simp only [List.exists_mem_cons_iff]
  tauto

omit [Interpreter] in
private theorem exists_mem_outer_or_inner {finds : Text → Prop} {a b c d : Text} :
    (∃ phrase ∈ [a, b, c, d], finds phrase) ↔
      (∃ phrase ∈ [a, d], finds phrase) ∨ ∃ phrase ∈ [b, c], finds phrase := by
  simp only [List.exists_mem_cons_iff]
  tauto

omit [Interpreter] in
private theorem exists_mem_third_or {finds : Text → Prop} {a b c d : Text} :
    (∃ phrase ∈ [a, b, c, d], finds phrase) ↔
      (∃ phrase ∈ [c], finds phrase) ∨ ∃ phrase ∈ [a, b, d], finds phrase := by
  simp only [List.exists_mem_cons_iff]
  tauto

theorem not_isWordAt_blank : isWordAt (some ' ') = false :=
  Interpreter.isWord_of_isSpace ' ' (by decide)

theorem present_parties_iff {text : Text} :
    present text "parties".toList = true ↔
      ∃ phrase ∈ ["between".toList, "party".toList, "parties".toList], Stands phrase text := by
  have found : present text "parties".toList = true ↔
      ∃ phrase ∈ ["between".toList, "by and between".toList, "party".toList, "parties".toList],
        Stands phrase text := by
    refine search_bounded_iff ?_ (wordly_of_lettered (by decide))
    intro position finish
    have parts : finish ∈ ends (.seq (literal "part".toList)
        (phrases "y".toList ["ies".toList])) position ↔
          finish ∈ ends (literal "party".toList) position ∨
            finish ∈ ends (literal "parties".toList) position := by
      refine mem_ends_stem.trans ?_
      simp only [List.exists_mem_cons_iff, List.not_mem_nil, false_and, exists_false, or_false]
      exact Iff.rfl
    rw [mem_ends_anyOf]
    simp only [List.exists_mem_cons_iff, List.not_mem_nil, false_and, exists_false, or_false,
      parts]
  have shorter : Stands "by and between".toList text → Stands "between".toList text :=
    @Stands.suffix _ "by and ".toList "between".toList text not_isWordAt_blank (by decide)
  exact found.trans (exists_mem_of_second shorter)

theorem present_effectiveDate_iff {text : Text} :
    present text "effective_date".toList = true ↔
      (∃ phrase ∈ ["dated".toList], Stands phrase text) ∨
        ∃ phrase ∈ ["effective date".toList, "effective as of".toList], Stands phrase text := by
  have found : present text "effective_date".toList = true ↔
      ∃ phrase ∈ ["effective date".toList, "effective as of".toList, "dated as of".toList,
        "dated".toList], Stands phrase text :=
    search_bounded_iff (fun _ _ => mem_ends_phrases) (wordly_of_lettered (by decide))
  have shorter : Stands "dated as of".toList text → Stands "dated".toList text :=
    @Stands.lead _ "dated".toList " as of".toList text not_isWordAt_blank (by decide)
  exact found.trans (exists_mem_of_third shorter)

theorem present_term_iff {text : Text} :
    present text "term".toList = true ↔
      ∃ stem ∈ ["term".toList, "duration".toList, "expir".toList, "terminat".toList],
        Starts stem text :=
  search_stem_iff (fun _ _ => mem_ends_phrases) (wordly_of_lettered (by decide))

theorem present_signatures_iff {text : Text} :
    present text "signatures".toList = true ↔
      (∃ phrase ∈ ["signature".toList, "/s/".toList], phrase <:+: text) ∨
        ∃ phrase ∈ ["signed by".toList, "in witness whereof".toList], phrase <:+: text := by
  have found : present text "signatures".toList = true ↔
      ∃ phrase ∈ ["signature".toList, "signed by".toList, "in witness whereof".toList,
        "/s/".toList], phrase <:+: text := search_phrases_iff
  exact found.trans exists_mem_outer_or_inner

theorem present_governingLaw_iff {text : Text} :
    present text "governing_law".toList = true ↔
      (∃ phrase ∈ ["jurisdiction".toList], Stands phrase text) ∨
        ∃ phrase ∈ ["governing law".toList, "governed by".toList, "laws of".toList],
          Stands phrase text := by
  have found : present text "governing_law".toList = true ↔
      ∃ phrase ∈ ["governing law".toList, "governed by".toList, "jurisdiction".toList,
        "laws of".toList], Stands phrase text :=
    search_bounded_iff (fun _ _ => mem_ends_phrases) (wordly_of_lettered (by decide))
  exact found.trans exists_mem_third_or

/-- `{f: present[f] for f in CONTRACT_REQUIRED}`. -/
def presence (result : OCRResult) : Dict Text Bool where
  entries := contractRequired.map fun field =>
    (field, present (Interpreter.lower result.rawText) field)
  nodup := by
    rw [List.map_map]
    exact (by decide : (contractRequired.map id).Nodup)

/-- The missing fields of the extractor's field set are the required ones that are not
present, in the order of `CONTRACT_REQUIRED`. -/
theorem falseKeys_presence (result : OCRResult) :
    (presence result).falseKeys = contractRequired.filter fun field =>
      !present (Interpreter.lower result.rawText) field := by
  simp only [Dict.falseKeys, presence]
  induction contractRequired with
  | nil => rfl
  | cons field rest ih =>
      cases found : present (Interpreter.lower result.rawText) field <;> simp [found, ih]

/-- `DeterministicContractExtractor.extract`. -/
def extract (result : OCRResult) : Extraction :=
  let text := Interpreter.lower result.rawText
  let missing := contractRequired.filter fun field => !present text field
  { documentType := none
    fields := presence result
    missingFields := missing
    missingCount := missing.length
    flags := contractRequired.map fun field => (field, present text field)
    missing_eq := (falseKeys_presence result).symm
    count_eq := rfl }

end DeterministicContractExtractor

/-- `_CONTRACT_LIKE`. -/
def contractLike : List Text :=
  ["agreement".toList, "contract".toList, "lease".toList, "license".toList, "nda".toList,
    "non-disclosure".toList, "terms of service".toList, "terms and conditions".toList,
    "memorandum of understanding".toList, "mou".toList, "addendum".toList]

variable [Interpreter]

/-- `is_contract_like`: some keyword occurs in the lower-cased type. -/
def isContractLike (documentType : Text) : Bool :=
  contractLike.any fun keyword => keyword <:+: Interpreter.lower documentType

/-- `if field not in merged: merged[field] = core_presence.get(field, False)`. -/
def fillField (core merged : Dict Text Bool) (field : Text) : Dict Text Bool :=
  match merged.get? field with
  | some _ => merged
  | none => merged.set field ((core.get? field).getD false)

/-- `merge_core_contract_fields`: the classifier's fields, and every core contract field
that it left out. -/
def mergeCoreContractFields (llmFields : Dict Text Bool) (result : OCRResult) :
    Dict Text Bool :=
  let core := (DeterministicContractExtractor.extract result).fields
  contractRequired.foldl (fillField core) llmFields

/-- `get_extractor(doc_type, kind)`, followed by its `extract`. -/
def getExtractor (docType kind : Text) : Except PyException (OCRResult → Extraction) :=
  if docType ≠ "contract".toList then
    .error ⟨"ValueError".toList,
      "no extractor registered for doc_type ".toList ++ Interpreter.repr (.str docType)⟩
  else if kind ≠ "deterministic".toList then
    .error ⟨"ValueError".toList,
      "unknown extractor ".toList ++ Interpreter.repr (.str kind) ++ " for ".toList ++
        Interpreter.repr (.str docType) ++ " (llm adapter is a later milestone)".toList⟩
  else .ok DeterministicContractExtractor.extract

/-! ## The merge keeps what the classifier said -/

omit [Interpreter] in
theorem get?_fillField (core merged : Dict Text Bool) (field key : Text) {value : Bool}
    (known : merged.get? key = some value) :
    (fillField core merged field).get? key = some value := by
  unfold fillField
  cases present : merged.get? field with
  | some _ => exact known
  | none =>
      have differ : key ≠ field := by
        rintro rfl
        simp [known] at present
      simpa [Dict.get?_set_of_ne _ differ] using known

/-- Merging the core fields changes no field that the classifier picked. -/
theorem get?_mergeCoreContractFields {llmFields : Dict Text Bool} {key : Text} {value : Bool}
    (result : OCRResult) (known : llmFields.get? key = some value) :
    (mergeCoreContractFields llmFields result).get? key = some value := by
  unfold mergeCoreContractFields
  generalize contractRequired = required
  induction required generalizing llmFields with
  | nil => exact known
  | cons field rest ih => exact ih (get?_fillField _ _ field key known)

theorem isSome_get?_mergeCoreContractFields (llmFields : Dict Text Bool) (result : OCRResult)
    {field : Text} (core : field ∈ contractRequired) :
    ((mergeCoreContractFields llmFields result).get? field).isSome := by
  unfold mergeCoreContractFields
  generalize contractRequired = required at core
  induction required generalizing llmFields with
  | nil => simp at core
  | cons head rest ih =>
      rcases List.mem_cons.mp core with rfl | later
      · have filled : ∃ value, (fillField
            (DeterministicContractExtractor.extract result).fields llmFields field).get? field =
              some value := by
          unfold fillField
          cases present : llmFields.get? field with
          | some value => exact ⟨value, present⟩
          | none => exact ⟨_, Dict.get?_set_self _ _ _⟩
        rcases filled with ⟨value, holds⟩
        rw [List.foldl_cons]
        have kept : ∀ (others : List Text) (fields : Dict Text Bool),
            fields.get? field = some value →
            (others.foldl (fillField (DeterministicContractExtractor.extract result).fields)
              fields).get? field = some value := by
          intro others
          induction others with
          | nil => exact fun _ known => known
          | cons other others ihOthers =>
              exact fun fields known => ihOthers _ (get?_fillField _ _ other field known)
        simp [kept rest _ holds]
      · exact ih _ later

end OrcaValidator
