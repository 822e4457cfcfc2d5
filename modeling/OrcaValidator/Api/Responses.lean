import OrcaValidator.Api.Requests

/-!
# Responses

What the endpoints for documents send: a status and a body.  The bodies are those of the models
in `schemas.py`, whose members that are not there are `null`; an `HTTPException` becomes its
status with its detail, and any other exception a 500 without JSON.
-/

namespace OrcaValidator

open Library

/-- A response of the API. -/
structure WebResponse where
  status : ℕ
  /-- The body, if it is JSON. -/
  body : Option Json

/-- `res.ok`. -/
def WebResponse.ok (response : WebResponse) : Bool :=
  200 ≤ response.status && response.status < 300

/-! ## Bodies -/

/-- The value of a `status` column. -/
def Status.text : Status → Text
  | uploaded => "uploaded".toList
  | queued => "queued".toList
  | running => "running".toList
  | done => "done".toList
  | failed => "failed".toList

/-- The number of a `FLOAT` column. -/
def floatJson (number : ℚ) : Json :=
  .float (.ofRatio (number < 0) number.num.natAbs number.den)

/-- A text, or `null` where it is `None`. -/
def orNull (text : Option Text) : Json := (text.map .str).getD .null

/-- The body of the response to an upload. -/
structure SubmitResponse where
  documentId : UUID
  runId : UUID
  status : Status

/-- The response to an upload as JSON. -/
def SubmitResponse.json (response : SubmitResponse) : Json :=
  .obj [("document_id".toList, .str response.documentId), ("run_id".toList, .str response.runId),
    ("status".toList, .str response.status.text)]

/-- The status of a document as JSON. -/
def StatusResponse.json (response : StatusResponse) : Json :=
  .obj [("document_id".toList, .str response.documentId), ("run_id".toList, .str response.runId),
    ("status".toList, .str response.status.text), ("doc_type".toList, .str response.docType),
    ("machine_id".toList, .str response.machineId)]

/-- The result of a run as JSON, with `null` for what is `None`. -/
def ResultResponse.json (response : ResultResponse) : Json :=
  .obj [("run_id".toList, .str response.runId), ("status".toList, .str response.status.text),
    ("ready".toList, .bool response.ready), ("verdict".toList, response.verdict.getD .null),
    ("final_state".toList, orNull response.finalState),
    ("reasons".toList, .arr response.reasons),
    ("extracted_fields".toList, .obj (response.extractedFields.entries.map fun field =>
      (field.1, .bool field.2))),
    ("document_type".toList, response.documentType.getD .null),
    ("machine_id".toList, orNull response.machineId),
    ("machine_hash".toList, orNull response.machineHash),
    ("temperature".toList, (response.temperature.map floatJson).getD .null),
    ("analysis".toList, response.analysis),
    ("analysis_status".toList, .str response.analysisStatus),
    ("revised_available".toList, .bool response.revisedAvailable),
    ("revised_redline".toList, orNull response.revisedRedline),
    ("document_fsm".toList, response.documentFsm)]

/-- The body of a reply; the downloads are not JSON. -/
def Reply.body : Reply → Option Json
  | .status response => some response.json
  | .result response => some response.json
  | .markdown .. => none
  | .docx .. => none

/-! ## Exceptions -/

/-- The status and the detail of an `HTTPException`. -/
def httpError? (exception : PyException) : Option (ℕ × Text) :=
  if exception.className = "HTTPException".toList then
    some (Json.ofDigits (exception.message.takeWhile (· != ':')),
      (exception.message.dropWhile (· != ':')).drop 2)
  else none

/-- The response to a request that an exception ends; anything but an `HTTPException` is a 500. -/
def errorResponse (exception : PyException) : WebResponse :=
  match httpError? exception with
  | some (status, detail) => ⟨status, some (.obj [("detail".toList, .str detail)])⟩
  | none => ⟨500, none⟩

theorem httpError?_httpException (status : ℕ) (detail : Text) :
    httpError? (httpException status detail) = some (status, detail) := by
  have digits : (toString status).toList = Nat.toDigits 10 status := by
    rw [Nat.toString_eq_ofList_toDigits, String.toList_ofList]
  have noColon : ∀ char ∈ Nat.toDigits 10 status, (char != ':') = true := by
    intro char member
    have isDigit := Nat.isDigit_of_mem_toDigits (by decide) (by decide) member
    rw [bne_iff_ne]
    rintro rfl
    exact absurd isDigit (by decide)
  have number : Json.ofDigits (Nat.toDigits 10 status) = status := by
    have value : ∀ digits, Json.ofDigits digits = Nat.ofDigitChars 10 digits 0 := fun digits =>
      Nat.ofDigitChars_eq_foldl.symm
    rw [value, Nat.ofDigitChars_ten_toDigits]
  have message : (httpException status detail).message =
      Nat.toDigits 10 status ++ (':' :: ' ' :: detail) := by
    change (toString status).toList ++ [':', ' '] ++ detail = _
    exact (congrArg (· ++ [':', ' '] ++ detail) digits).trans (List.append_assoc ..)
  have named : (httpException status detail).className = "HTTPException".toList := rfl
  rw [httpError?, if_pos named, message, List.takeWhile_append_of_pos noColon,
    List.dropWhile_append_of_pos noColon]
  simp [number]

@[simp]
theorem errorResponse_httpException (status : ℕ) (detail : Text) :
    errorResponse (httpException status detail) =
      ⟨status, some (.obj [("detail".toList, .str detail)])⟩ := by
  rw [errorResponse, httpError?_httpException]

/-- The response to a request about a document. -/
def answerResponse : Answer → WebResponse
  | .ok reply => ⟨200, reply.body⟩
  | .error exception => errorResponse exception

end OrcaValidator
