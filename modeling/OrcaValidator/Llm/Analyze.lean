import OrcaValidator.Library.Postgres

/-!
# The analysis

What `analyze_contract` makes of the content of the model's reply: an object gets the keys
it lacks, a reply that is not JSON is shown as a summary, and any other JSON raises.
-/

namespace OrcaValidator

open Library

/-- The keys of an analysis that default to an empty list. -/
def analysisLists : List Text :=
  ["parties".toList, "key_terms".toList, "strengths".toList, "weaknesses".toList,
    "potential_pitfalls".toList, "issues".toList, "missing_or_weak_clauses".toList]

/-- `data.setdefault(key, value)`. -/
def setDefault (value : Json) (members : List (Text × Json)) (key : Text) :
    List (Text × Json) :=
  if key ∈ members.map Prod.fst then members else members ++ [(key, value)]

/-- The analysis of a reply that is not JSON. -/
def rawSummary (content : Text) : Json :=
  .obj [("summary".toList, .str (content.take 2000)), ("aims".toList, .str []),
    ("parties".toList, .arr []), ("key_terms".toList, .arr []), ("strengths".toList, .arr []),
    ("weaknesses".toList, .arr []), ("potential_pitfalls".toList, .arr []),
    ("issues".toList, .arr []), ("missing_or_weak_clauses".toList, .arr []),
    ("overall_recommendation".toList, .str []),
    ("_parse_note".toList,
      .str "model did not return valid JSON; showing raw summary".toList)]

/-- `analyze_contract`, applied to the content of the model's reply. -/
def analyzeContract (content : Text) : Except PyException Json :=
  match Json.loads content with
  | none => .ok (rawSummary content)
  | some (.obj members) =>
      .ok (.obj (setDefault (.str [])
        (analysisLists.foldl (setDefault (.arr [])) members) "aims".toList))
  | some other => .error ⟨"AttributeError".toList,
      "'".toList ++ other.typeName ++ "' object has no attribute 'setdefault'".toList⟩

theorem storable_setDefault {value : Json} (valueStorable : value.Storable) {key : Text}
    (keyStorable : key.Storable) (members : List (Text × Json)) :
    (Json.obj (setDefault value members key)).Storable ↔ (Json.obj members).Storable := by
  unfold setDefault
  split
  · rfl
  · rw [Json.storable_obj_iff, Json.storable_obj_iff, List.forall_mem_append]
    simp [keyStorable, valueStorable]

theorem storable_foldl_setDefault {value : Json} (valueStorable : value.Storable)
    {keys : List Text} (keysStorable : ∀ key ∈ keys, Text.Storable key)
    (members : List (Text × Json)) :
    (Json.obj (keys.foldl (setDefault value) members)).Storable ↔
      (Json.obj members).Storable := by
  induction keys generalizing members with
  | nil => rfl
  | cons key keys ih =>
      rw [List.forall_mem_cons] at keysStorable
      rw [List.foldl_cons, ih keysStorable.2, storable_setDefault valueStorable keysStorable.1]

/-- The rest of a raw summary can be stored. -/
theorem storable_rawSummary (content : Text) :
    (rawSummary content).Storable ↔ Text.Storable (content.take 2000) := by
  have empty : (Json.arr []).Storable := trivial
  have blank : Text.Storable [] := by decide
  have note : Text.Storable
      "model did not return valid JSON; showing raw summary".toList := by decide
  rw [rawSummary, Json.storable_obj_iff]
  simp only [List.forall_mem_cons, Json.storable_str_iff, empty, blank, note, and_true]
  constructor
  · intro storable
    exact storable.1.2
  · intro storable
    refine ⟨⟨by decide, storable⟩, ?_⟩
    refine ⟨by decide, by decide, by decide, by decide, by decide, by decide, by decide,
      by decide, by decide, by decide, by simp⟩

/-- An analysis can be stored if and only if the reply that it was read from can. -/
theorem storable_analyzeContract {content : Text} {analysis : Json}
    (read : analyzeContract content = .ok analysis) :
    analysis.Storable ↔ match Json.loads content with
      | none => Text.Storable (content.take 2000)
      | some data => data.Storable := by
  unfold analyzeContract at read
  split at read
  · next notJson =>
      cases read
      rw [notJson]
      exact storable_rawSummary content
  · next members object =>
      cases read
      have keys : ∀ key ∈ analysisLists, Text.Storable key := by decide
      have empty : (Json.arr []).Storable := trivial
      rw [object, storable_setDefault (by simp [Text.Storable]) (by decide),
        storable_foldl_setDefault empty keys]
  · cases read

end OrcaValidator
