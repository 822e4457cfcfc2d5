import OrcaValidator.Library.Interpreter

/-!
# Actions of the contract machine

The computation layer of the ContractValidation machine: each action takes the
machine's context and the payload of the event and returns the new context.  They
record the facts of the verdict; the verdict itself is the machine's final state.
-/

namespace OrcaValidator

open Library

/-- A machine's context, and equally the payload of an event: `dict[str, Any]`. -/
abbrev Context := Dict Text Json

/-- `verdict` of a machine that ended in `valid`. -/
def verdictPass : Json := .str "pass".toList

/-- `verdict` of a machine that ended in `invalid`. -/
def verdictFail : Json := .str "fail".toList

/-- `verdict` of a run that could not be decided. -/
def verdictError : Json := .str "error".toList

/-- The field-presence flags that `recordExtracted` copies. -/
def extractedKeys : List Text :=
  ["missing_count".toList, "has_parties".toList, "has_effective_date".toList,
    "has_term".toList, "has_signatures".toList, "has_governing_law".toList]

/-- `if key in payload: context[key] = payload[key]`. -/
def copyKey (payload context : Context) (key : Text) : Context :=
  match payload.get? key with
  | some value => context.set key value
  | none => context

/-- Fold the extracted flags into the context, for the guards of EVALUATE. -/
def recordExtracted (context payload : Context) : Except PyException Context :=
  let flagged := extractedKeys.foldl (copyKey payload) context
  .ok (flagged.set "missing_fields".toList
    ((payload.get? "missing_fields".toList).getD (.arr [])))

theorem get?_foldl_copyKey (payload context : Context) (keys : List Text) (key : Text) :
    (keys.foldl (copyKey payload) context).get? key =
      if key ∈ keys then (payload.get? key).or (context.get? key) else context.get? key := by
  induction keys generalizing context with
  | nil => simp
  | cons first rest ih =>
      have copied : (copyKey payload context first).get? key =
          if key = first then (payload.get? key).or (context.get? key) else context.get? key := by
        unfold copyKey
        cases given : payload.get? first with
        | none =>
            by_cases same : key = first
            · simp [same, given]
            · simp [same]
        | some value =>
            by_cases same : key = first
            · simp [same, given]
            · simp [same, Dict.get?_set_of_ne]
      rw [List.foldl_cons, ih, copied]
      by_cases same : key = first
      · cases given : payload.get? key <;> simp [same]
      · simp [same]

/-- The verdict is pass. -/
def recordValid (context _payload : Context) : Except PyException Context :=
  .ok ((context.set "verdict".toList verdictPass).set "reasons".toList (.arr []))

variable [Interpreter]

/-- `f"missing required field: {field}"`. -/
def missingReason (field : Json) : Json :=
  .str ("missing required field: ".toList ++ Interpreter.str field)

/-- The verdict is fail, with a reason for each missing field. -/
def recordInvalid (context payload : Context) : Except PyException Context := do
  let context := context.set "verdict".toList verdictFail
  let missing := Json.orElse (context.get? "missing_fields".toList)
    (Json.orElse (payload.get? "missing_fields".toList) (.arr []))
  let fields ← missing.iter
  let reasons := match fields.map missingReason with
    | [] => [.str "required-field check failed".toList]
    | reasons => reasons
  return context.set "reasons".toList (.arr reasons)

/-- The verdict is error, with the reason that the event brings along. -/
def recordError (context payload : Context) : Except PyException Context :=
  let reason := (payload.get? "error".toList).getD
    (.str "extraction or processing failed".toList)
  .ok ((context.set "verdict".toList verdictError).set "reasons".toList (.arr [reason]))

end OrcaValidator
