import OrcaValidator.Ocr.Extract

/-!
# Classification

`classify_and_check_fields`: the model names the kind of the document and the fields
that matter for that kind, and this function turns its reply into the field set that
the machine is fed.
-/

namespace OrcaValidator

open Library

variable [Interpreter]

/-- The key of an entry of `required_fields`: its name, stripped and cut to 64 characters. -/
def fieldName (name : Option Json) : Text :=
  (Text.strip (Interpreter.str (name.getD (.str [])))).take 64

/-- Enter one entry of `required_fields` into the field set. -/
def checkField (fields : Dict Text Bool) (entry : Json) :
    Except PyException (Dict Text Bool) := do
  let name := fieldName (← entry.get "name".toList)
  if name = [] then
    return fields
  else
    let present ← entry.get "present".toList
    return fields.set name ((present.map Json.truthy).getD false)

/-- The kind that a reply names: `str(data.get("document_type") or "document")[:128]`. -/
def replyKind (kind : Option Json) : Text :=
  (Interpreter.str (Json.orElse kind (.str "document".toList))).take 128

/-- The field set of `data.get("required_fields") or []`. -/
def requiredFields (required : Option Json) : Except PyException (Dict Text Bool) := do
  let entries ← (Json.orElse required (.arr [])).iter
  entries.foldlM checkField ∅

/-- `classify_and_check_fields`, applied to the content of the model's reply. -/
def classifyAndCheckFields (content : Text) : Except PyException Extraction :=
  match Json.loads content with
  | none => .ok (.ofFields (some "document".toList) ∅)
  | some data => do
      let fields ← requiredFields (← data.get "required_fields".toList)
      let kind ← data.get "document_type".toList
      return .ofFields (some (replyKind kind)) fields

/-! ## Replies that require nothing -/

/-- An entry whose name is blank. -/
def BlankEntry (entry : Json) : Prop :=
  ∃ members, entry = .obj members ∧ fieldName (Dict.find "name".toList members) = []

/-- A `required_fields` in which no field is named: it is missing, null or otherwise false,
or a list of entries whose names are all blank. -/
def NamesNothing (required : Option Json) : Prop :=
  ∀ value ∈ required, value.truthy = false ∨
    ∃ entries, value = .arr entries ∧ ∀ entry ∈ entries, BlankEntry entry

/-- A reply that leaves the machine without a single field to check: it is not JSON, or it
is an object that names no field and no contract-like kind. -/
def RequiresNothing (content : Text) : Prop :=
  Json.loads content = none ∨ ∃ members, Json.loads content = some (.obj members) ∧
    NamesNothing (Dict.find "required_fields".toList members) ∧
    isContractLike (replyKind (Dict.find "document_type".toList members)) = false

theorem checkField_obj (fields : Dict Text Bool) (members : List (Text × Json)) :
    checkField fields (.obj members) = .ok
      (if fieldName (Dict.find "name".toList members) = [] then fields
      else fields.set (fieldName (Dict.find "name".toList members))
        (((Dict.find "present".toList members).map Json.truthy).getD false)) := by
  by_cases blank : fieldName (Dict.find "name".toList members) = []
  · rw [if_pos blank]
    exact if_pos blank
  · rw [if_neg blank]
    exact if_neg blank

theorem blankEntry_obj {members : List (Text × Json)} :
    BlankEntry (.obj members) ↔ fieldName (Dict.find "name".toList members) = [] := by
  constructor
  · rintro ⟨_, ⟨⟩, unnamed⟩
    exact unnamed
  · exact fun unnamed => ⟨members, rfl, unnamed⟩

theorem not_blankEntry_str {text : Text} : ¬BlankEntry (.str text) := by
  rintro ⟨_, ⟨⟩, _⟩

theorem checkField_of_blank {entry : Json} (blank : BlankEntry entry)
    (fields : Dict Text Bool) : checkField fields entry = .ok fields := by
  rcases blank with ⟨members, rfl, unnamed⟩
  rw [checkField_obj, if_pos unnamed]

/-- An entry that is entered is an object; it leaves a field unless it is blank and there
was none before. -/
theorem entries_of_checkField {entry : Json} {fields after : Dict Text Bool}
    (checked : checkField fields entry = .ok after) :
    after.entries = [] ↔ fields.entries = [] ∧ BlankEntry entry := by
  cases entry with
  | obj members =>
      rw [checkField_obj, Except.ok.injEq] at checked
      rw [blankEntry_obj, ← checked]
      generalize fieldName (Dict.find "name".toList members) = name
      by_cases blank : name = []
      · simp [blank]
      · simp [blank, Dict.set, Dict.assign_ne_nil]
  | _ => cases checked

/-- Entering entries leaves no field exactly when they are all blank. -/
theorem foldlM_checkField_empty {entries : List Json} {fields : Dict Text Bool} :
    (∃ after, entries.foldlM checkField fields = .ok after ∧ after.entries = []) ↔
      fields.entries = [] ∧ ∀ entry ∈ entries, BlankEntry entry := by
  induction entries generalizing fields with
  | nil =>
      constructor
      · rintro ⟨after, ⟨⟩, empty⟩
        exact ⟨empty, by simp⟩
      · rintro ⟨empty, _⟩
        exact ⟨fields, rfl, empty⟩
  | cons entry rest ih =>
      rw [List.foldlM_cons]
      cases checked : checkField fields entry with
      | error error =>
          constructor
          · rintro ⟨after, ⟨⟩, _⟩
          · rintro ⟨_, blank⟩
            rw [checkField_of_blank (blank entry (by simp))] at checked
            cases checked
      | ok middle =>
          refine (@ih middle).trans ?_
          rw [entries_of_checkField checked]
          simp only [List.mem_cons, forall_eq_or_imp, and_assoc]

/-- What reading `required_fields` leaves, from what entering a list of entries leaves: a
text and an object are read as lists of texts, and no text is an entry. -/
theorem requiredFields_iff {required : Option Json} {leaves : Dict Text Bool → Prop}
    {proper : Json → Prop} (empty : leaves ∅) (text : ∀ value, ¬proper (.str value))
    (each : ∀ entries : List Json,
      (∃ after, entries.foldlM checkField ∅ = .ok after ∧ leaves after) ↔
        ∀ entry ∈ entries, proper entry) :
    (∃ fields, requiredFields required = .ok fields ∧ leaves fields) ↔
      ∀ value ∈ required, value.truthy = false ∨
        ∃ entries, value = .arr entries ∧ ∀ entry ∈ entries, proper entry := by
  have absent : ∃ fields, (Except.ok ∅ : Except PyException (Dict Text Bool)) = .ok fields ∧
      leaves fields := ⟨∅, rfl, empty⟩
  cases required with
  | none => exact iff_of_true absent (by simp)
  | some value =>
      by_cases truth : value.truthy = true
      · have whole : requiredFields (some value) =
            value.iter >>= fun entries => entries.foldlM checkField ∅ := by
          simp [requiredFields, Json.orElse, truth]
        rw [whole]
        simp only [Option.mem_def, Option.some.injEq, forall_eq', truth,
          Bool.true_eq_false, false_or]
        cases value with
        | arr items =>
            refine (each _).trans ?_
            simp
        | str content =>
            refine (each _).trans (iff_of_false ?_ (by simp))
            intro entered
            cases content with
            | nil => cases truth
            | cons char rest => exact text _ (entered (.str [char]) (by simp))
        | obj members =>
            refine (each _).trans (iff_of_false ?_ (by simp))
            intro entered
            cases members with
            | nil => cases truth
            | cons member rest => exact text _ (entered (.str member.1) (by simp))
        | _ => exact iff_of_false (by rintro ⟨_, ⟨⟩, _⟩) (by simp)
      · have whole : requiredFields (some value) = .ok ∅ := by
          simp only [requiredFields, Json.orElse, truth]
          rfl
        rw [whole]
        exact iff_of_true absent (by simp [truth])

theorem requiredFields_empty {required : Option Json} :
    (∃ fields, requiredFields required = .ok fields ∧ fields.entries = []) ↔
      NamesNothing required := by
  refine requiredFields_iff rfl (fun _ => not_blankEntry_str) ?_
  intro entries
  refine foldlM_checkField_empty.trans ?_
  exact and_iff_right rfl

theorem classify_obj {content : Text} {members : List (Text × Json)}
    (read : Json.loads content = some (.obj members)) :
    classifyAndCheckFields content =
      (requiredFields (Dict.find "required_fields".toList members)).map
        (.ofFields (some (replyKind (Dict.find "document_type".toList members)))) := by
  simp only [classifyAndCheckFields, read]
  change (requiredFields (Dict.find "required_fields".toList members) >>= fun fields =>
    .ok (Extraction.ofFields (some (replyKind (Dict.find "document_type".toList members)))
      fields)) = _
  cases requiredFields (Dict.find "required_fields".toList members) <;> rfl

theorem classify_not_obj {content : Text} {data : Json} (read : Json.loads content = some data)
    (other : ∀ members, data ≠ .obj members) :
    ∃ error, classifyAndCheckFields content = .error error := by
  simp only [classifyAndCheckFields, read]
  cases data with
  | obj members => exact absurd rfl (other members)
  | _ => exact ⟨_, rfl⟩

/-! ## Replies that can be read -/

/-- A `required_fields` that can be read: it is missing, null or otherwise false, or a list
of objects. -/
def ReadableFields (required : Option Json) : Prop :=
  ∀ value ∈ required, value.truthy = false ∨
    ∃ entries, value = .arr entries ∧ ∀ entry ∈ entries, ∃ members, entry = .obj members

/-- A reply on which the post-processing does not raise: it is not JSON, or it is an object
whose `required_fields` can be read. -/
def ReadableReply (content : Text) : Prop :=
  Json.loads content = none ∨ ∃ members, Json.loads content = some (.obj members) ∧
    ReadableFields (Dict.find "required_fields".toList members)

/-- Entering entries succeeds exactly when they are all objects. -/
theorem foldlM_checkField_ok {entries : List Json} {fields : Dict Text Bool} :
    (∃ after, entries.foldlM checkField fields = .ok after) ↔
      ∀ entry ∈ entries, ∃ members, entry = .obj members := by
  induction entries generalizing fields with
  | nil => exact iff_of_true ⟨fields, rfl⟩ (by simp)
  | cons entry rest ih =>
      rw [List.foldlM_cons, List.forall_mem_cons]
      cases entry with
      | obj members =>
          rw [checkField_obj]
          refine (@ih _).trans ?_
          simp
      | _ =>
          refine iff_of_false ?_ ?_
          · rintro ⟨after, ⟨⟩⟩
          · rintro ⟨⟨members, ⟨⟩⟩, _⟩

theorem requiredFields_ok {required : Option Json} :
    (∃ fields, requiredFields required = .ok fields) ↔ ReadableFields required := by
  have entered : (∃ fields, requiredFields required = .ok fields ∧ True) ↔
      ReadableFields required := by
    refine requiredFields_iff trivial (fun value => by simp) ?_
    intro entries
    simpa using foldlM_checkField_ok
  simpa using entered

theorem classify_ok_iff {content : Text} :
    (∃ extraction, classifyAndCheckFields content = .ok extraction) ↔
      ReadableReply content := by
  unfold ReadableReply
  cases read : Json.loads content with
  | none =>
      refine iff_of_true ⟨.ofFields (some "document".toList) ∅, ?_⟩ (.inl rfl)
      rw [classifyAndCheckFields, read]
  | some data =>
      simp only [reduceCtorEq, Option.some.injEq, false_or]
      by_cases object : ∃ members, data = .obj members
      · rcases object with ⟨members, rfl⟩
        simp only [Json.obj.injEq, exists_eq_left', classify_obj read, ← requiredFields_ok]
        cases requiredFields (Dict.find "required_fields".toList members) with
        | error error =>
            refine iff_of_false ?_ ?_
            · rintro ⟨_, ⟨⟩⟩
            · rintro ⟨_, ⟨⟩⟩
        | ok fields => exact iff_of_true ⟨_, rfl⟩ ⟨fields, rfl⟩
      · rcases classify_not_obj read fun members same => object ⟨members, same⟩ with
          ⟨error, classified⟩
        refine iff_of_false ?_ ?_
        · rintro ⟨extraction, succeeded⟩
          cases classified.symm.trans succeeded
        · rintro ⟨members, same, _⟩
          exact object ⟨members, same⟩

/-! ## Replies of the requested shape -/

/-- The key of an entry whose name is a string. -/
def fieldKey (name : Text) : Text := (Text.strip name).take 64

/-- An entry `{"name": …, "present": …}`. -/
def ProperEntry (item : Json) (entry : Text × Bool) : Prop :=
  ∃ members, item = .obj members ∧
    Dict.find "name".toList members = some (.str entry.1) ∧
    Dict.find "present".toList members = some (.bool entry.2)

/-- A reply of the shape that the prompt asks for: an object with a `document_type` and a
list of proper entries. -/
def ProperReply (content : Text) (kind : Json) (entries : List (Text × Bool)) : Prop :=
  ∃ members items, Json.loads content = some (.obj members) ∧
    Dict.find "document_type".toList members = some kind ∧
    Dict.find "required_fields".toList members = some (.arr items) ∧
    List.Forall₂ ProperEntry items entries

/-- The entries under their keys, without the blank ones. -/
def keyedEntries (entries : List (Text × Bool)) : List (Text × Bool) :=
  (entries.map fun entry => (fieldKey entry.1, entry.2)).filter fun entry => entry.1 ≠ []

theorem foldlM_checkField_proper {items : List Json} {entries : List (Text × Bool)}
    (proper : List.Forall₂ ProperEntry items entries) (fields : Dict Text Bool) :
    items.foldlM checkField fields = .ok (fields.update (keyedEntries entries)) := by
  induction proper generalizing fields with
  | nil => rfl
  | @cons item entry items entries first rest ih =>
      rcases first with ⟨members, rfl, name, present⟩
      have key : fieldName (Dict.find "name".toList members) = fieldKey entry.1 := by
        rw [name]
        rfl
      rw [List.foldlM_cons, checkField_obj, key, present]
      refine (ih _).trans ?_
      by_cases blank : fieldKey entry.1 = []
      · simp [keyedEntries, blank]
      · simp [keyedEntries, blank, Json.truthy]

theorem classify_proper {content : Text} {kind : Json} {entries : List (Text × Bool)}
    (proper : ProperReply content kind entries) :
    classifyAndCheckFields content =
      .ok (.ofFields (some (replyKind (some kind)))
        (Dict.ofList (keyedEntries entries))) := by
  rcases proper with ⟨members, items, read, named, listed, each⟩
  have fields : requiredFields (some (.arr items)) =
      .ok (Dict.ofList (keyedEntries entries)) := by
    rw [Dict.ofList, ← foldlM_checkField_proper each]
    cases items <;> rfl
  rw [classify_obj read, listed, named, fields]
  rfl

omit [Interpreter] in
/-- A key has the value of the last entry that carries it. -/
theorem get?_keyedEntries {entries : List (Text × Bool)} {key : Text} (named : key ≠ [])
    {value : Bool} :
    (Dict.ofList (keyedEntries entries)).get? key = some value ↔
      ∃ before name after, entries = before ++ (name, value) :: after ∧ fieldKey name = key ∧
        ∀ entry ∈ after, fieldKey entry.1 ≠ key := by
  have keeps : ∀ value : Bool, decide ((key, value).1 ≠ []) = true := by simpa using named
  rw [Dict.ofList, Dict.get?_update, Dict.get?_empty, Option.or_none, keyedEntries,
    ← List.filter_reverse, Dict.find_filter keeps, Dict.find_eq_some_iff_append]
  constructor
  · rintro ⟨after, before, split, absent⟩
    have forward := congrArg List.reverse split
    simp only [List.reverse_reverse, List.reverse_append, List.reverse_cons,
      List.append_assoc, List.singleton_append] at forward
    rcases List.map_eq_append_iff.mp forward with ⟨earlier, others, rfl, _, tail⟩
    rcases List.map_eq_cons_iff.mp tail with ⟨⟨name, present⟩, later, rfl, here, rest⟩
    obtain ⟨rfl, rfl⟩ : fieldKey name = key ∧ present = value := by simpa using here
    refine ⟨earlier, name, later, rfl, rfl, fun entry member same => absent ?_⟩
    rw [← List.reverse_reverse after, ← rest, List.map_reverse, List.mem_reverse, ← same]
    exact List.mem_map_of_mem (List.mem_map_of_mem member)
  · rintro ⟨before, name, after, rfl, rfl, absent⟩
    refine ⟨(after.map fun entry => (fieldKey entry.1, entry.2)).reverse,
      (before.map fun entry => (fieldKey entry.1, entry.2)).reverse, by simp, ?_⟩
    rw [List.map_reverse, List.mem_reverse, List.map_map]
    intro present
    rcases List.mem_map.mp present with ⟨entry, member, same⟩
    exact absent entry member same

omit [Interpreter] in
theorem exists_get?_keyedEntries {entries : List (Text × Bool)} {entry : Text × Bool}
    (member : entry ∈ entries) (named : fieldKey entry.1 ≠ []) :
    ∃ value, (Dict.ofList (keyedEntries entries)).get? (fieldKey entry.1) = some value := by
  have present : (fieldKey entry.1, entry.2) ∈ keyedEntries entries := by
    refine List.mem_filter.mpr ⟨List.mem_map_of_mem member, ?_⟩
    simpa using named
  rw [← Option.isSome_iff_exists, Option.isSome_iff_ne_none]
  intro absent
  rw [Dict.ofList, Dict.get?_update, Dict.get?_empty, Option.or_none,
    Dict.find_eq_none_iff] at absent
  refine absent (List.mem_map.mpr ⟨_, List.mem_reverse.mpr present, rfl⟩)

omit [Interpreter] in
theorem fieldKey_ne_nil {name : Text} (named : Text.strip name ≠ []) : fieldKey name ≠ [] := by
  unfold fieldKey
  cases stripped : Text.strip name with
  | nil => exact absurd stripped named
  | cons char rest => simp

end OrcaValidator
