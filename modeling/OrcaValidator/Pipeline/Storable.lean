import OrcaValidator.Library.Postgres
import OrcaValidator.Llm.Analyze
import OrcaValidator.Pipeline.Verdict

/-!
# What the database refuses

A run over a database that refuses nothing but what PostgreSQL cannot store.  A snapshot
that is refused raises inside the driving section and becomes the outcome of the run.  The
final write is outside every handler: when it is refused, the run stays in `running`.

A run therefore leaves `running` if and only if what it stores in the end can be stored,
which is a condition on the answers of the services that it consults.
-/

namespace OrcaValidator

open Library Effect OrcaBridge

/-! ## Rows that can be stored -/

/-- PostgreSQL takes the row of the document. -/
structure Document.Storable (document : Document) : Prop where
  owner : Text.Storable document.owner
  docType : Text.Storable document.docType
  blobRef : Text.Storable document.blobRef

/-- PostgreSQL takes the row of the run. -/
structure ValidationRun.Storable (run : ValidationRun) : Prop where
  documentId : Text.Storable run.documentId
  machineId : Text.Storable run.machineId
  machineHash : Text.Storable run.machineHash
  error : ∀ error, run.error = some error → Text.Storable error

/-- PostgreSQL takes the row of the result. -/
structure ValidationResult.Storable (result : ValidationResult) : Prop where
  verdict : result.verdict.Storable
  finalState : Text.Storable result.finalState
  reasons : (Json.arr result.reasons).Storable
  extractedFields : ∀ item ∈ result.extractedFields.entries, Text.Storable item.1
  machineContext : result.machineContext.Storable
  analysis : result.analysis.Storable
  revisedMarkdown : ∀ revised, result.revisedMarkdown = some revised → Text.Storable revised
  analysisStatus : Text.Storable result.analysisStatus
  documentFsm : result.documentFsm.Storable

/-- PostgreSQL has taken every row. -/
structure Database.Storable (db : Database ContractState) : Prop where
  documents : ∀ id document, db.documents id = some document → document.Storable
  runs : ∀ id run, db.runs id = some run → run.Storable
  results : ∀ id result, db.results id = some result → result.Storable
  snapshots : ∀ key row, db.snapshots key = some row → row.context.Storable

/-- The storage is a PostgreSQL that is up: a commit is refused if and only if it would
store what cannot be stored, with an error whose text can be. -/
structure Storage.Postgres (storage : Storage) : Prop where
  quiet : ¬storage.Faulty
  commits : ∀ db, storage.commitFault db = none ↔ db.Storable
  message : ∀ db error, storage.commitFault db = some error → Text.Storable error.message

namespace Database.Storable

variable {db : Database ContractState}

theorem updateDocument (storable : db.Storable) (id : UUID) {change : Document → Document}
    (keeps : ∀ document, document.Storable → (change document).Storable) :
    (db.updateDocument id change).Storable where
  documents := by
    intro other document found
    by_cases same : other = id
    · subst same
      rcases Option.map_eq_some_iff.mp (by simpa using found) with ⟨old, present, rfl⟩
      exact keeps old (storable.documents other old present)
    · exact storable.documents other document (by simpa [same] using found)
  runs := storable.runs
  results := storable.results
  snapshots := storable.snapshots

theorem updateRun (storable : db.Storable) (id : UUID) {change : ValidationRun → ValidationRun}
    (keeps : ∀ run, run.Storable → (change run).Storable) :
    (db.updateRun id change).Storable where
  documents := storable.documents
  runs := by
    intro other run found
    by_cases same : other = id
    · subst same
      rcases Option.map_eq_some_iff.mp (by simpa using found) with ⟨old, present, rfl⟩
      exact keeps old (storable.runs other old present)
    · exact storable.runs other run (by simpa [same] using found)
  results := storable.results
  snapshots := storable.snapshots

theorem setResult (storable : db.Storable) (id : UUID) {result : ValidationResult}
    (row : result.Storable) : (db.setResult id result).Storable where
  documents := storable.documents
  runs := storable.runs
  results := by
    intro other stored found
    by_cases same : other = id
    · obtain rfl : result = stored := by simpa [same] using found
      exact row
    · exact storable.results other stored (by simpa [same] using found)
  snapshots := storable.snapshots

theorem setSnapshot_iff (storable : db.Storable) (key : Text)
    (row : MachineSnapshot ContractState) :
    (db.setSnapshot key row).Storable ↔ row.context.Storable := by
  constructor
  · intro after
    exact after.snapshots key row (by simp [Database.setSnapshot])
  · intro context
    refine ⟨storable.documents, storable.runs, storable.results, ?_⟩
    intro other stored found
    by_cases same : other = key
    · obtain rfl : row = stored := by simpa [Database.setSnapshot, same] using found
      exact context
    · exact storable.snapshots other stored
        (by simpa [Database.setSnapshot, same] using found)

theorem claimRows (storable : db.Storable) (runId documentId : UUID) :
    (OrcaValidator.claimRows runId documentId db).Storable := by
  unfold OrcaValidator.claimRows
  refine (storable.updateRun runId ?_).updateDocument documentId ?_
  · intro run row
    exact ⟨row.documentId, row.machineId, row.machineHash, row.error⟩
  · intro document row
    exact ⟨row.owner, row.docType, row.blobRef⟩

end Database.Storable

/-! ## Contexts that can be stored -/

/-- The context can be stored, and the missing fields in it are a list of texts. -/
structure PlainContext (context : Context) : Prop where
  storable : context.Storable
  missing : ∀ value, context.get? "missing_fields".toList = some value →
    ∃ names : List Text, value = .arr (names.map .str)

namespace PlainContext

variable {context payload : Context}

theorem set (plain : PlainContext context) {key : Text} {value : Json}
    (differ : key ≠ "missing_fields".toList) (keyStorable : Text.Storable key)
    (valueStorable : value.Storable) : PlainContext (context.set key value) where
  storable := plain.storable.set keyStorable valueStorable
  missing := by
    intro listed found
    rw [Dict.get?_set_of_ne _ (Ne.symm differ)] at found
    exact plain.missing listed found

theorem empty : PlainContext ∅ := ⟨Dict.Storable.empty, fun _ found => by cases found⟩

theorem copyKey (plain : PlainContext context) (payloadPlain : PlainContext payload) {key : Text}
    (differ : key ≠ "missing_fields".toList) (keyStorable : Text.Storable key) :
    PlainContext (OrcaValidator.copyKey payload context key) := by
  unfold OrcaValidator.copyKey
  split
  · next value given =>
      exact plain.set differ keyStorable (payloadPlain.storable.get? given)
  · exact plain

theorem copyKeys (plain : PlainContext context) (payloadPlain : PlainContext payload)
    {keys : List Text}
    (each : ∀ key ∈ keys, key ≠ "missing_fields".toList ∧ Text.Storable key) :
    PlainContext (keys.foldl (OrcaValidator.copyKey payload) context) := by
  induction keys generalizing context with
  | nil => exact plain
  | cons key keys ih =>
      rw [List.forall_mem_cons] at each
      exact ih (plain.copyKey payloadPlain each.1.1 each.1.2) each.2

theorem recordExtracted (plain : PlainContext context) (payloadPlain : PlainContext payload)
    {after : Context} (ran : OrcaValidator.recordExtracted context payload = .ok after) :
    PlainContext after := by
  cases ran
  have keys : ∀ key ∈ extractedKeys, key ≠ "missing_fields".toList ∧ Text.Storable key := by
    decide
  have copied := plain.copyKeys payloadPlain keys
  have listed : ∃ names : List Text,
      (payload.get? "missing_fields".toList).getD (.arr []) = .arr (names.map .str) := by
    cases given : payload.get? "missing_fields".toList with
    | none => exact ⟨[], rfl⟩
    | some value => exact payloadPlain.missing value given
  rcases listed with ⟨names, listed⟩
  have storable : ((payload.get? "missing_fields".toList).getD (.arr [])).Storable := by
    cases given : payload.get? "missing_fields".toList with
    | none => exact trivial
    | some value => exact payloadPlain.storable.get? given
  refine ⟨copied.storable.set (by decide) storable, ?_⟩
  intro value found
  rw [Dict.get?_set_self] at found
  cases found
  exact ⟨names, listed⟩

theorem recordValid (plain : PlainContext context) (payload : Context) {after : Context}
    (ran : OrcaValidator.recordValid context payload = .ok after) : PlainContext after := by
  cases ran
  have verdict : verdictPass.Storable := by
    rw [verdictPass, Json.storable_str_iff]
    decide
  exact (plain.set (by decide) (by decide) verdict).set (by decide) (by decide) trivial

theorem recordError (plain : PlainContext context) (payloadPlain : PlainContext payload)
    {after : Context} (ran : OrcaValidator.recordError context payload = .ok after) :
    PlainContext after := by
  cases ran
  have verdict : verdictError.Storable := by
    rw [verdictError, Json.storable_str_iff]
    decide
  have reason : ((payload.get? "error".toList).getD
      (.str "extraction or processing failed".toList)).Storable := by
    cases given : payload.get? "error".toList with
    | none =>
        rw [Option.getD_none, Json.storable_str_iff]
        decide
    | some value => exact payloadPlain.storable.get? given
  refine (plain.set (by decide) (by decide) verdict).set (by decide) (by decide) ?_
  rw [Json.storable_arr_iff]
  intro item member
  rw [List.mem_singleton.mp member]
  exact reason

/-- Missing fields that are listed in a context are storable texts. -/
theorem missing_of_get? (plain : PlainContext context) {value : Json}
    (found : context.get? "missing_fields".toList = some value) :
    ∃ names : List Text, value = .arr (names.map .str) ∧ ∀ name ∈ names, Text.Storable name := by
  rcases plain.missing value found with ⟨names, rfl⟩
  refine ⟨names, rfl, ?_⟩
  have storable := plain.storable.get? found
  rw [Json.storable_arr_iff, List.forall_mem_map] at storable
  simpa using storable

theorem missing_orElse (plain : PlainContext context) {value : Json}
    (otherwise : ∃ names : List Text, value = .arr (names.map .str) ∧
      ∀ name ∈ names, Text.Storable name) :
    ∃ names : List Text, Json.orElse (context.get? "missing_fields".toList) value =
      .arr (names.map .str) ∧ ∀ name ∈ names, Text.Storable name := by
  cases found : context.get? "missing_fields".toList with
  | none => exact otherwise
  | some listed =>
      rw [Json.orElse]
      split
      · exact plain.missing_of_get? found
      · exact otherwise

theorem storable_missingReason [Interpreter] {name : Text} (storable : Text.Storable name) :
    (missingReason (.str name)).Storable := by
  rw [missingReason, Json.storable_str_iff]
  exact Text.Storable.append (by decide) storable

theorem recordInvalid [Interpreter] (plain : PlainContext context)
    (payloadPlain : PlainContext payload) {after : Context}
    (ran : OrcaValidator.recordInvalid context payload = .ok after) : PlainContext after := by
  have verdict : verdictFail.Storable := by
    rw [verdictFail, Json.storable_str_iff]
    decide
  have failed : PlainContext (context.set "verdict".toList verdictFail) :=
    plain.set (by decide) (by decide) verdict
  have nothing : ∃ names : List Text, Json.arr [] = .arr (names.map .str) ∧
      ∀ name ∈ names, Text.Storable name := ⟨[], rfl, by simp⟩
  rcases failed.missing_orElse (payloadPlain.missing_orElse nothing) with
    ⟨names, listed, storable⟩
  have each : ∀ reason ∈ (names.map Json.str).map missingReason, reason.Storable := by
    rw [List.forall_mem_map, List.forall_mem_map]
    exact fun name member => storable_missingReason (storable name member)
  unfold OrcaValidator.recordInvalid at ran
  dsimp only at ran
  rw [listed] at ran
  cases ran
  refine failed.set (by decide) (by decide) (Json.storable_arr_iff.mpr ?_)
  split
  · intro reason member
    rw [List.mem_singleton.mp member, Json.storable_str_iff]
    decide
  · exact each

theorem runAction [Interpreter] (plain : PlainContext context)
    (payloadPlain : PlainContext payload) {action : Option ContractAction} {after : Context}
    (ran : Machine.runAction action context payload = .ok after) : PlainContext after := by
  cases action with
  | none =>
      cases ran
      exact plain
  | some action =>
      cases action with
      | recordExtracted => exact plain.recordExtracted payloadPlain ran
      | recordValid => exact plain.recordValid payload ran
      | recordInvalid => exact plain.recordInvalid payloadPlain ran
      | recordError => exact plain.recordError payloadPlain ran

/-- Every event keeps the context of the machine plain. -/
theorem send [Interpreter] {machine sent : Machine} {taken : Bool} {event : ContractEvent}
    (plain : PlainContext machine.context) (payloadPlain : PlainContext payload)
    (takes : machine.send event payload = .ok (taken, sent)) : PlainContext sent.context := by
  unfold Machine.send at takes
  split at takes
  · next row found =>
      rcases ok_of_bind takes with ⟨after, ran, ⟨⟩⟩
      exact plain.runAction payloadPlain ran
  · cases takes
    exact plain

end PlainContext

theorem plain_startContext {claimed : Claimed} (owner : Text.Storable claimed.owner)
    (documentId : Text.Storable claimed.documentId) : PlainContext (startContext claimed) where
  storable := by
    refine Dict.Storable.empty.update (Json.storable_obj_iff.mpr ?_)
    simp only [List.forall_mem_cons, Json.storable_str_iff, owner, documentId, and_true]
    exact ⟨by decide, by decide, by decide, by simp⟩
  missing := fun _ found => by cases found

/-- What can be stored of an extraction. -/
structure Extraction.Storable (extraction : Extraction) : Prop where
  kind : ∀ kind, extraction.documentType = some kind → Text.Storable kind
  names : ∀ item ∈ extraction.fields.entries, Text.Storable item.1
  flags : ∀ flag ∈ extraction.flags, Text.Storable flag.1

theorem plain_payload {extraction : Extraction} (storable : extraction.Storable) :
    PlainContext extraction.payload where
  storable := by
    refine Dict.Storable.empty.update (Json.storable_obj_iff.mpr ?_)
    have kind : ∀ item ∈ (extraction.documentType.map fun kind =>
        ("document_type".toList, Json.str kind)).toList,
        Text.Storable item.1 ∧ item.2.Storable := by
      intro item member
      rcases Option.map_eq_some_iff.mp (Option.mem_toList.mp member) with ⟨kind, given, rfl⟩
      exact ⟨(by decide : Text.Storable "document_type".toList),
        Json.storable_str_iff.mpr (storable.kind kind given)⟩
    have fields : (Json.obj (extraction.fields.entries.map
        fun item => (item.1, Json.bool item.2))).Storable := by
      rw [Json.storable_obj_iff, List.forall_mem_map]
      exact fun item member => ⟨storable.names item member, trivial⟩
    have missing : (Json.arr (extraction.missingFields.map Json.str)).Storable := by
      rw [Json.storable_arr_iff, List.forall_mem_map]
      intro name member
      rw [extraction.missing_eq] at member
      have present := Dict.get?_eq_some_iff.mp (Dict.mem_falseKeys.mp member)
      exact Json.storable_str_iff.mpr (storable.names _ present)
    have flags : ∀ item ∈ extraction.flags.map fun flag =>
        ("has_".toList ++ flag.1, Json.int (if flag.2 then 1 else 0)),
        Text.Storable item.1 ∧ item.2.Storable := by
      rw [List.forall_mem_map]
      intro flag member
      exact ⟨Text.Storable.append (by decide) (storable.flags flag member), trivial⟩
    rw [List.forall_mem_append, List.forall_mem_append]
    refine ⟨⟨kind, ?_⟩, flags⟩
    simp only [List.forall_mem_cons]
    exact ⟨⟨by decide, fields⟩, ⟨by decide, missing⟩, ⟨by decide, trivial⟩, by simp⟩
  missing := by
    intro value found
    rw [extraction.get?_payload_missingFields] at found
    cases found
    exact ⟨extraction.missingFields, rfl⟩

/-! ## The bridge over such a database -/

section Bridge

variable {storage : Storage} {world : World}

theorem ensures_saveIf_postgres (postgres : storage.Postgres) (due : Bool) (key : Text)
    (machine : Machine) (db : world.db.Storable) :
    Ensures (Process.saveIf storage due key machine) world
      (fun _ after => after.machines = world.machines ∧ after.db.Storable ∧
        (due = true → machine.context.Storable))
      (fun error after => ¬machine.context.Storable ∧ Text.Storable error.message ∧
        after.db.Storable) := by
  cases due with
  | false => exact Ensures.pure ⟨rfl, db, fun due => by cases due⟩
  | true =>
      refine Ensures.bind (Ensures.of_ok (persistenceCall_eq postgres.quiet world) ?_)
      refine Ensures.bind (Ensures.read (ensures_commit (fun accepted => ?_) fun error fault => ?_))
      · have after := (postgres.commits _).mp accepted
        exact ⟨rfl, after, fun _ => (db.setSnapshot_iff key _).mp after⟩
      · refine ⟨fun storable => ?_, postgres.message _ error fault, db⟩
        have accepted := (postgres.commits _).mpr ((db.setSnapshot_iff key
          ⟨machine.state, machine.context⟩).mpr storable)
        exact absurd (accepted.symm.trans fault) (by simp)

variable [Interpreter]

/-- A run without machine and snapshot gets its machine, since its first context can be
stored. -/
theorem ensures_getOrCreate_postgres (postgres : storage.Postgres) {docType entityId : Text}
    {context : Context} (supported : docType ∈ machineDefs) (nonempty : context.entries ≠ [])
    (plain : PlainContext context) (db : world.db.Storable)
    (unregistered : world.machines (runKey docType entityId) = none)
    (unsaved : world.db.snapshots (runKey docType entityId) = none) :
    Ensures (getOrCreate storage docType entityId context) world
      (fun machine after => machine.state = .received ∧ PlainContext machine.context ∧
        after.machines (runKey docType entityId) = some machine ∧ after.db.Storable)
      (fun _ _ => False) := by
  refine Ensures.bind (Ensures.read ?_)
  simp only [unregistered]
  refine Ensures.bind (Ensures.of_ok (exists_eq postgres.quiet _ world) ?_)
  simp only [unsaved, Option.isSome_none, nonempty, false_and, if_false, lookupDefinition,
    if_pos supported]
  refine Ensures.bind (Ensures.lift (fun _ _ => ?_) fun _ failed => by cases failed)
  refine Ensures.bind (Ensures.of_ok (loadOrStart_eq postgres.quiet _ context _) ?_)
  simp only [unsaved, Option.map_none, Option.getD_none, Dict.update_self]
  refine Ensures.bind ((ensures_saveIf_postgres postgres _ _ _ ?_).weaken ?_ ?_)
  · exact db
  · rintro _ after ⟨_, stored, _⟩
    refine Ensures.bind (Ensures.modify (Ensures.pure ⟨rfl, plain, ?_, stored⟩))
    exact Function.update_self _ _ _
  · rintro error after ⟨refused, _, _⟩
    exact refused plain.storable

/-- An event that is taken is refused if and only if the machine's new context is. -/
theorem ensures_send_postgres (postgres : storage.Postgres) {docType entityId : Text}
    {machine sent : Machine} {event : ContractEvent} {payload : Context}
    (takes : machine.send event payload = .ok (true, sent)) (db : world.db.Storable)
    (registered : world.machines (runKey docType entityId) = some machine) :
    Ensures (send storage docType entityId event payload) world
      (fun result after => result = sent ∧ sent.context.Storable ∧
        after.machines (runKey docType entityId) = some sent ∧ after.db.Storable)
      (fun error after => ¬sent.context.Storable ∧ Text.Storable error.message ∧
        after.db.Storable) := by
  refine Ensures.bind (Ensures.bind (Ensures.read ?_))
  simp only [registered]
  refine Ensures.bind (Ensures.modify (Ensures.pure ?_))
  refine Ensures.bind (Ensures.lift (fun result took => ?_) fun reason failed => ?_)
  · obtain rfl : (true, sent) = result := Except.ok.inj (takes.symm.trans took)
    refine Ensures.bind (Ensures.modify (Ensures.bind ?_))
    refine (ensures_saveIf_postgres postgres true _ sent ?_).weaken ?_ fun _ _ refused => refused
    · exact db
    · rintro _ after ⟨kept, stored, storable⟩
      refine Ensures.pure ⟨rfl, storable rfl, ?_, stored⟩
      rw [kept]
      exact Function.update_self _ _ _
  · exact absurd (takes.symm.trans failed) (by simp)

/-- A received machine that is sent the extracted fields is refused only if they cannot be
stored. -/
theorem ensures_sends_postgres (postgres : storage.Postgres) {docType entityId : Text}
    {context : Context} (plain : PlainContext context) (extraction : Extraction)
    (db : world.db.Storable)
    (registered : world.machines (runKey docType entityId) = some ⟨.received, context⟩) :
    Ensures (do
        let _ ← send storage docType entityId .extracted extraction.payload
        send storage docType entityId .evaluate ∅) world
      (fun _ after => after.db.Storable)
      (fun _ after => after.db.Storable ∧ ¬extraction.Storable) := by
  rcases Machine.send_extracted context extraction.get?_payload_missingCount
    extraction.get?_payload_missingFields with ⟨context, extracted, counted, listed⟩
  have extractedPlain : extraction.Storable → PlainContext context := fun storable =>
    plain.send (plain_payload storable) extracted
  refine Ensures.bind ((ensures_send_postgres postgres extracted db registered).weaken ?_ ?_)
  · rintro _ middle ⟨rfl, _, registered, db⟩
    have evaluates : ∃ sent : Machine, (⟨.validating, context⟩ : Machine).send .evaluate ∅ =
        .ok (true, sent) := by
      by_cases none : extraction.missingCount = 0
      · rw [none] at counted
        rcases Machine.send_evaluate_valid ∅ counted with ⟨final, evaluated, _⟩
        exact ⟨_, evaluated⟩
      · have nonempty : extraction.missingFields.map Json.str ≠ [] := by
          rw [extraction.count_eq] at none
          simpa using none
        rcases Machine.send_evaluate_invalid ∅ none nonempty counted listed with
          ⟨final, evaluated, _⟩
        exact ⟨_, evaluated⟩
    rcases evaluates with ⟨sent, evaluated⟩
    refine (ensures_send_postgres postgres evaluated db registered).weaken ?_ ?_
    · rintro _ after ⟨_, _, _, stored⟩
      exact stored
    · rintro error after ⟨refused, _, stored⟩
      exact ⟨stored, fun storable =>
        refused ((extractedPlain storable).send PlainContext.empty evaluated).storable⟩
  · rintro error after ⟨refused, _, stored⟩
    exact ⟨stored, fun storable => refused (extractedPlain storable).storable⟩

end Bridge

/-! ## The driving section over such a database -/

section Drive

variable [Interpreter]

/-- The parser raises, or the extraction of the fields does. -/
def FailsWith (env : Environment) (claimed : Claimed) (error : PyException) : Prop :=
  env.parseDocument claimed.blobRef = .error error ∨
    ∃ result, env.parseDocument claimed.blobRef = .ok result ∧ result.ok = true ∧
      extractFields env claimed result = .error error

/-- A reason that is absent, or a text that can be stored. -/
def PlainReason (reason : Json) : Prop :=
  reason = .null ∨ ∃ text, reason = .str text ∧ Text.Storable text

/-- The local variables that the driving section leaves. -/
inductive Ends (env : Environment) (claimed : Claimed) (locals : Locals) : Prop
  | raised (error : PyException) (fails : FailsWith env claimed error)
      (outcome : locals.outcome = errorOutcome (.str error.message))
      (fields : locals.fields = ∅) (kind : locals.documentType = claimed.docType)
  | unreadable (result : OCRResult) (parsed : env.parseDocument claimed.blobRef = .ok result)
      (unreadable : result.ok = false) (reason : Json) (plain : PlainReason reason)
      (outcome : locals.outcome = errorOutcome reason)
      (fields : locals.fields = ∅) (kind : locals.documentType = claimed.docType)
  | extracted (result : OCRResult) (documentType : Text) (extraction : Extraction)
      (extracts : Extracts env claimed result documentType extraction)
      (docText : locals.docText = result.rawText) (fields : locals.fields = extraction.fields)
      (kind : locals.documentType = documentType)
      (outcome : locals.outcome = fieldsOutcome extraction.fields ∨
        ¬extraction.Storable ∧ ∃ reason, locals.outcome = errorOutcome reason)

variable {env : Environment} {storage : Storage} {claimed : Claimed} {world : World}

theorem ensures_failure_postgres (postgres : storage.Postgres) {runId : UUID} {context : Context}
    {result : OCRResult} (parsed : env.parseDocument claimed.blobRef = .ok result)
    (unreadable : result.ok = false) (db : world.db.Storable)
    (registered : world.machines (runKey claimed.docType runId) = some ⟨.received, context⟩)
    (locals : world.locals = initialLocals claimed) :
    Ensures (send storage claimed.docType runId .extractionFailed (failurePayload result)) world
      (fun machine after => after.db.Storable ∧
        Ends env claimed (readOutcome machine after.locals))
      (fun error after => after.db.Storable ∧
        Ends env claimed (failOutcome error after.locals)) := by
  rcases Machine.send_extractionFailed context (failurePayload result) with
    ⟨after, failed, verdict, reasons⟩
  have sends := (ensures_send_postgres postgres failed db registered).and
    (Ensures.ofPreserves (preserves_send storage (keptByBridge_locals world.locals)
      claimed.docType runId .extractionFailed (failurePayload result) ∅) rfl)
  refine sends.weaken ?_ ?_
  · rintro _ final ⟨⟨rfl, storable, _, stored⟩, kept⟩
    have given : (failurePayload result).get? "error".toList =
        some ((result.error.map Json.str).getD .null) := rfl
    rw [given, Option.getD_some] at reasons
    refine ⟨stored, .unreadable result parsed unreadable
      ((result.error.map Json.str).getD .null) ?_ ?_ ?_ ?_⟩
    · have listed := storable.get? reasons
      rw [Json.storable_arr_iff, List.forall_mem_singleton] at listed
      cases error : result.error with
      | none => exact .inl rfl
      | some text =>
          rw [error] at listed
          exact .inr ⟨text, rfl, Json.storable_str_iff.mp listed⟩
    · simp only [Locals.outcome, readOutcome, machineVerdict, machineReasons, verdict, reasons]
      rfl
    · rw [kept, locals]
      rfl
    · rw [kept, locals]
      rfl
  · rintro error final ⟨⟨_, message, stored⟩, kept⟩
    refine ⟨stored, .unreadable result parsed unreadable (.str error.message)
      (.inr ⟨_, rfl, message⟩) rfl ?_ ?_⟩
    · rw [kept, locals]
      rfl
    · rw [kept, locals]
      rfl

theorem ensures_extraction_postgres (postgres : storage.Postgres) {docType entityId : Text}
    {context : Context} (plain : PlainContext context) {extraction : Extraction}
    (db : world.db.Storable)
    (registered : world.machines (runKey docType entityId) = some ⟨.received, context⟩) :
    Ensures (do
        let _ ← send storage docType entityId .extracted extraction.payload
        send storage docType entityId .evaluate ∅) world
      (fun machine after => after.db.Storable ∧
        (readOutcome machine after.locals).outcome = fieldsOutcome extraction.fields ∧
        after.locals = world.locals)
      (fun _ after => after.db.Storable ∧ ¬extraction.Storable ∧
        after.locals = world.locals) := by
  have kept : Preserves (fun after => after.locals = world.locals) (do
      let _ ← send storage docType entityId .extracted extraction.payload
      send storage docType entityId .evaluate ∅) :=
    Preserves.bind (preserves_send storage (keptByBridge_locals world.locals) _ _ _ _ _)
      fun _ => preserves_send storage (keptByBridge_locals world.locals) _ _ _ _ _
  refine (((ensures_sends_postgres postgres plain extraction db registered).and
    (ensures_sends context registered)).and (Ensures.ofPreserves kept rfl)).weaken ?_ ?_
  · rintro machine after ⟨⟨stored, _, outcome⟩, locals⟩
    exact ⟨stored, outcome, locals⟩
  · rintro error after ⟨⟨⟨stored, refused⟩, _⟩, locals⟩
    exact ⟨stored, refused, locals⟩

theorem ensures_drive_postgres (postgres : storage.Postgres) {runId : UUID}
    (supported : claimed.docType ∈ machineDefs) (owner : Text.Storable claimed.owner)
    (documentId : Text.Storable claimed.documentId) (db : world.db.Storable)
    (unregistered : world.machines (runKey claimed.docType runId) = none)
    (unsaved : world.db.snapshots (runKey claimed.docType runId) = none)
    (locals : world.locals = initialLocals claimed) :
    Ensures (drive env storage runId claimed) world
      (fun machine after => after.db.Storable ∧
        Ends env claimed (readOutcome machine after.locals))
      (fun error after => after.db.Storable ∧
        Ends env claimed (failOutcome error after.locals)) := by
  have creates := (ensures_getOrCreate_postgres postgres supported
    (entries_startContext_ne_nil claimed) (plain_startContext owner documentId) db unregistered
    unsaved).and (Ensures.ofPreserves (preserves_getOrCreate storage
      (keptByBridge_locals world.locals) claimed.docType runId (startContext claimed)) rfl)
  refine Ensures.bind (creates.weaken ?_ fun _ _ never => never.1.elim)
  rintro ⟨state, context⟩ after ⟨⟨rfl, plain, registered, stored⟩, kept⟩
  have started := kept.trans locals
  refine Ensures.bind (Ensures.lift (fun result parsed => ?_) fun error raised => ?_)
  · by_cases readable : result.ok = true
    · rw [if_pos readable]
      refine Ensures.bind (ensures_assign (Ensures.bind (Ensures.lift ?_ ?_)))
      · rintro ⟨documentType, extraction⟩ done
        refine Ensures.bind (ensures_assign ?_)
        refine (ensures_extraction_postgres postgres plain ?_ ?_).weaken ?_ ?_
        · exact stored
        · exact registered
        · rintro machine final ⟨storedAfter, outcome, keptAfter⟩
          refine ⟨storedAfter, .extracted result documentType extraction
            ⟨parsed, readable, done⟩ ?_ ?_ ?_ (.inl outcome)⟩
          · simp [readOutcome, keptAfter]
          · simp [readOutcome, keptAfter]
          · simp [readOutcome, keptAfter]
        · rintro error final ⟨storedAfter, refused, keptAfter⟩
          refine ⟨storedAfter, .extracted result documentType extraction
            ⟨parsed, readable, done⟩ ?_ ?_ ?_ (.inr ⟨refused, _, rfl⟩)⟩
          · simp [failOutcome, keptAfter]
          · simp [failOutcome, keptAfter]
          · simp [failOutcome, keptAfter]
      · intro error raised
        refine ⟨stored, .raised error (.inr ⟨result, parsed, readable, raised⟩) rfl ?_ ?_⟩
        · simp [failOutcome, started, initialLocals]
        · simp [failOutcome, started, initialLocals]
    · rw [if_neg readable]
      exact ensures_failure_postgres postgres parsed (by simpa using readable) stored registered
        started
  · refine ⟨stored, .raised error (.inl raised) rfl ?_ ?_⟩
    · simp [failOutcome, started, initialLocals]
    · simp [failOutcome, started, initialLocals]

theorem ensures_decideOutcome_postgres (postgres : storage.Postgres) {runId : UUID}
    (supported : claimed.docType ∈ machineDefs) (owner : Text.Storable claimed.owner)
    (documentId : Text.Storable claimed.documentId) (db : world.db.Storable)
    (unregistered : world.machines (runKey claimed.docType runId) = none)
    (unsaved : world.db.snapshots (runKey claimed.docType runId) = none) :
    Ensures (decideOutcome env storage runId claimed) world
      (fun _ after => after.db.Storable ∧ Ends env claimed after.locals)
      (fun _ _ => False) := by
  refine Ensures.bind (Ensures.modify (Ensures.catching (Ensures.bind ?_)))
  refine (ensures_drive_postgres postgres supported owner documentId ?_ ?_ ?_ rfl).weaken ?_ ?_
  · exact db
  · exact unregistered
  · exact unsaved
  · rintro machine after ⟨stored, ends⟩
    exact ensures_assign ⟨stored, ends⟩
  · rintro error after ⟨stored, ends⟩
    exact ensures_assign ⟨stored, ends⟩

end Drive

/-! ## The final write -/

section Final

variable [Interpreter]

/-- What the assisted layer answers can be stored, as far as it is. -/
def StorableAssistance (env : Environment) (temperature : ℚ) (docText : Text) : Prop :=
  match env.analyzeContract docText temperature with
  | .error error => isBudgetExceeded error = true ∨ Text.Storable (error.message.take 500)
  | .ok analysis =>
      match env.reviseContract docText analysis temperature with
      | .error error =>
          if isBudgetExceeded error then analysis.Storable
          else Text.Storable (error.message.take 500)
      | .ok revised => analysis.Storable ∧ Text.Storable revised ∧
          match env.extractStateMachine docText temperature >>= env.verifyAndCompile with
          | .error error => isBudgetExceeded error = true ∨ Text.Storable error.message
          | .ok fsm => fsm.Storable

/-- What a run gets to store of the answers of its services can be stored: the message of
an error that becomes its outcome, or the type and the field names of its document and
what the assisted layer adds. -/
inductive StorableAnswers (env : Environment) (claimed : Claimed) : Prop
  | raised (error : PyException) (fails : FailsWith env claimed error)
      (message : Text.Storable error.message)
  | unreadable (result : OCRResult) (parsed : env.parseDocument claimed.blobRef = .ok result)
      (unreadable : result.ok = false)
  | extracted (result : OCRResult) (documentType : Text) (extraction : Extraction)
      (extracts : Extracts env claimed result documentType extraction)
      (kind : Text.Storable documentType)
      (names : ∀ item ∈ extraction.fields.entries, Text.Storable item.1)
      (assisted : env.llmEnabled = true →
        StorableAssistance env claimed.temperature result.rawText)

variable {env : Environment} {claimed : Claimed}

theorem flags_classify {content : Text} {extraction : Extraction}
    (classified : classifyAndCheckFields content = .ok extraction) : extraction.flags = [] := by
  unfold classifyAndCheckFields at classified
  split at classified
  · cases classified
    rfl
  · next data read =>
      rcases ok_of_bind classified with ⟨required, _, classified⟩
      rcases ok_of_bind classified with ⟨fields, _, classified⟩
      rcases ok_of_bind classified with ⟨kind, _, classified⟩
      cases classified
      rfl

theorem storable_of_extractFields {result : OCRResult} {documentType : Text}
    {extraction : Extraction}
    (extracted : extractFields env claimed result = .ok (documentType, extraction))
    (kind : Text.Storable documentType)
    (names : ∀ item ∈ extraction.fields.entries, Text.Storable item.1) :
    extraction.Storable := by
  unfold extractFields at extracted
  split at extracted
  · rcases ok_of_bind extracted with ⟨content, _, extracted⟩
    rcases ok_of_bind extracted with ⟨classified, ran, ⟨⟩⟩
    have sameKind : (holdToCore (classified.documentType.getD claimed.docType) classified
        result).documentType = classified.documentType := by
      unfold holdToCore
      split <;> rfl
    have sameFlags : (holdToCore (classified.documentType.getD claimed.docType) classified
        result).flags = classified.flags := by
      unfold holdToCore
      split <;> rfl
    refine ⟨?_, names, ?_⟩
    · intro given found
      rw [sameKind] at found
      simpa [found] using kind
    · rw [sameFlags, flags_classify ran]
      simp
  · rcases ok_of_bind extracted with ⟨extract, found, ⟨⟩⟩
    have registered : extract = DeterministicContractExtractor.extract := by
      unfold getExtractor at found
      split at found
      · cases found
      · split at found
        · cases found
        · cases found
          rfl
    subst registered
    refine ⟨(fun _ absent => by cases absent), names, ?_⟩
    intro flag member
    rcases List.mem_map.mp member with ⟨field, required, rfl⟩
    have each : ∀ field ∈ contractRequired, Text.Storable field := by decide
    exact each field required

/-- PostgreSQL takes what the model has contributed. -/
structure Assistance.Storable (assistance : Assistance) : Prop where
  analysis : assistance.analysis.Storable
  revisedMarkdown : ∀ revised, assistance.revisedMarkdown = some revised →
    Text.Storable revised
  analysisStatus : Text.Storable assistance.analysisStatus
  documentFsm : assistance.documentFsm.Storable

omit [Interpreter] in
theorem storable_failedFsm {report : Text} :
    (failedFsm report).Storable ↔ Text.Storable report := by
  rw [failedFsm, Json.storable_obj_iff]
  simp only [List.forall_mem_cons, Json.storable_str_iff]
  constructor
  · intro storable
    exact storable.2.2.1.2
  · intro storable
    exact ⟨⟨by decide, trivial⟩, ⟨by decide, trivial⟩, ⟨by decide, storable⟩, by simp⟩

omit [Interpreter] in
theorem storable_failedAnalysis {error : PyException} {analysis : Json} :
    (failedAnalysis error analysis).Storable ↔
      if isBudgetExceeded error then analysis.Storable
      else Text.Storable (error.message.take 500) := by
  unfold failedAnalysis
  split
  · constructor
    · intro storable
      exact storable.analysis
    · intro storable
      exact ⟨storable, by simp, (by decide : Text.Storable "budget_exceeded".toList), trivial⟩
  · constructor
    · intro storable
      have row := Json.storable_obj_iff.mp storable.analysis
      rw [List.forall_mem_singleton] at row
      exact Json.storable_str_iff.mp row.2
    · intro storable
      refine ⟨?_, by simp, (by decide : Text.Storable "error".toList), trivial⟩
      rw [Json.storable_obj_iff, List.forall_mem_singleton]
      exact ⟨(by decide : Text.Storable "error".toList), Json.storable_str_iff.mpr storable⟩

omit [Interpreter] in
theorem storable_extractFsm {docText : Text} {temperature : ℚ} :
    (extractFsm env docText temperature).Storable ↔
      match env.extractStateMachine docText temperature >>= env.verifyAndCompile with
      | .error error => isBudgetExceeded error = true ∨ Text.Storable error.message
      | .ok fsm => fsm.Storable := by
  unfold extractFsm
  cases env.extractStateMachine docText temperature >>= env.verifyAndCompile with
  | ok fsm => rfl
  | error error =>
      dsimp only
      split
      · next exceeded =>
          exact iff_of_true (storable_failedFsm.mpr (by decide)) (.inl exceeded)
      · next other =>
          rw [storable_failedFsm]
          constructor
          · intro storable
            exact .inr fun present => storable (List.mem_append_right _ present)
          · rintro (exceeded | storable)
            · exact absurd exceeded other
            · exact Text.Storable.append (by decide) storable

omit [Interpreter] in
theorem storable_assist {temperature : ℚ} {locals : Locals} (read : locals.docText ≠ [])
    (decided : locals.verdict ≠ verdictError) :
    (assist env temperature locals).Storable ↔
      (env.llmEnabled = true → StorableAssistance env temperature locals.docText) := by
  unfold assist
  by_cases enabled : env.llmEnabled = true
  · rw [if_pos ⟨read, decided, enabled⟩]
    simp only [enabled, true_imp_iff]
    unfold StorableAssistance
    cases env.analyzeContract locals.docText temperature with
    | error error =>
        dsimp only
        rw [storable_failedAnalysis]
        split
        · next exceeded => exact iff_of_true trivial (.inl exceeded)
        · next other => simp [other]
    | ok analysis =>
        dsimp only
        cases env.reviseContract locals.docText analysis temperature with
        | error error => exact storable_failedAnalysis
        | ok revised =>
            dsimp only
            rw [← storable_extractFsm]
            constructor
            · intro storable
              exact ⟨storable.analysis, storable.revisedMarkdown revised rfl,
                storable.documentFsm⟩
            · rintro ⟨analysis, revised, fsm⟩
              refine ⟨analysis, ?_, (by decide : Text.Storable "done".toList), fsm⟩
              rintro _ ⟨⟩
              exact revised
  · rw [if_neg fun all => enabled all.2.2]
    exact iff_of_true ⟨trivial, by simp, (by decide : Text.Storable "skipped".toList), trivial⟩
      fun on => absurd on enabled

omit [Interpreter] in
theorem storable_assist_of_error {temperature : ℚ} {locals : Locals}
    (error : locals.verdict = verdictError) : (assist env temperature locals).Storable := by
  rw [assist, if_neg (by simp [error])]
  exact ⟨trivial, by simp, (by decide : Text.Storable "skipped".toList), trivial⟩

theorem FailsWith.eq {error error' : PyException} (fails : FailsWith env claimed error)
    (fails' : FailsWith env claimed error') : error = error' := by
  rcases fails with parse | ⟨result, parsed, ok, raised⟩
  · rcases fails' with parse' | ⟨result', parsed', ok', raised'⟩
    · exact Except.error.inj (parse.symm.trans parse')
    · cases parse.symm.trans parsed'
  · rcases fails' with parse' | ⟨result', parsed', ok', raised'⟩
    · cases parsed.symm.trans parse'
    · obtain rfl := Except.ok.inj (parsed.symm.trans parsed')
      exact Except.error.inj (raised.symm.trans raised')

theorem FailsWith.not_parsed {error : PyException} {result : OCRResult}
    (fails : FailsWith env claimed error)
    (parsed : env.parseDocument claimed.blobRef = .ok result) :
    result.ok = true ∧ extractFields env claimed result = .error error := by
  rcases fails with parse | ⟨result', parsed', ok, raised⟩
  · cases parse.symm.trans parsed
  · obtain rfl := Except.ok.inj (parsed'.symm.trans parsed)
    exact ⟨ok, raised⟩

omit [Interpreter] in
theorem storable_resultRow {locals : Locals} {reasons : List Json} {assistance : Assistance}
    (verdict : locals.verdict.Storable) (finalState : Text.Storable locals.finalState)
    (each : ∀ reason ∈ reasons, reason.Storable)
    (names : ∀ item ∈ locals.fields.entries, Text.Storable item.1)
    (kind : Text.Storable locals.documentType) (assisted : assistance.Storable) :
    (resultRow locals reasons assistance).Storable where
  verdict := verdict
  finalState := finalState
  reasons := Json.storable_arr_iff.mpr each
  extractedFields := names
  machineContext := by
    refine Dict.Storable.empty.update (Json.storable_obj_iff.mpr ?_)
    rw [List.forall_mem_singleton]
    exact ⟨(by decide : Text.Storable "document_type".toList), Json.storable_str_iff.mpr kind⟩
  analysis := assisted.analysis
  revisedMarkdown := assisted.revisedMarkdown
  analysisStatus := assisted.analysisStatus
  documentFsm := assisted.documentFsm

omit [Interpreter] in
theorem assistance_of_row {locals : Locals} {reasons : List Json} {assistance : Assistance}
    (row : (resultRow locals reasons assistance).Storable) :
    Text.Storable locals.documentType ∧ assistance.Storable := by
  refine ⟨?_, row.analysis, row.revisedMarkdown, row.analysisStatus, row.documentFsm⟩
  have kind : (resultRow locals reasons assistance).machineContext.get? "document_type".toList =
    some (.str locals.documentType) := rfl
  exact Json.storable_str_iff.mp (row.machineContext.get? kind)

omit [Interpreter] in
/-- The row of a run whose outcome is an error can be stored if the reason can. -/
theorem storable_row_of_error {locals : Locals} {reasons : List Json} {reason : Json}
    (outcome : locals.outcome = errorOutcome reason) (fields : locals.fields = ∅)
    (kind : Text.Storable locals.documentType) (listed : locals.reasons = .arr reasons) :
    (resultRow locals reasons (assist env claimed.temperature locals)).Storable ↔
      reason.Storable := by
  rcases reasons_of_outcome outcome with ⟨verdict, finalState, only⟩
  obtain rfl : reasons = [reason] := by simpa [listed] using only
  constructor
  · intro row
    have each := Json.storable_arr_iff.mp row.reasons
    exact each reason (List.mem_singleton_self reason)
  · intro storable
    have failed : verdictError.Storable := by
      rw [verdictError, Json.storable_str_iff]
      decide
    refine storable_resultRow ?_ ?_ ?_ ?_ kind (storable_assist_of_error verdict)
    · rw [verdict]
      exact failed
    · rw [finalState]
      decide
    · rw [List.forall_mem_singleton]
      exact storable
    · rw [fields]
      simp

theorem verdict_ne_error {locals : Locals} {fields : Dict Text Bool}
    (outcome : locals.outcome = fieldsOutcome fields) : locals.verdict ≠ verdictError := by
  unfold fieldsOutcome at outcome
  split at outcome
  · rw [(reasons_of_outcome outcome).1]
    decide
  · rw [(reasons_of_outcome outcome).1]
    decide

theorem docText_ne_nil {locals : Locals} {result : OCRResult} {documentType : Text}
    {extraction : Extraction} (extracts : Extracts env claimed result documentType extraction)
    (docText : locals.docText = result.rawText) : locals.docText ≠ [] := by
  intro empty
  have ok := extracts.ok
  rw [OCRResult.ok, ← docText, empty] at ok
  simp at ok

/-- The outcome of a field set whose names can be stored can be. -/
theorem storable_of_fieldsOutcome {locals : Locals} {fields : Dict Text Bool}
    {reasons : List Json} (names : ∀ item ∈ fields.entries, Text.Storable item.1)
    (outcome : locals.outcome = fieldsOutcome fields) (listed : locals.reasons = .arr reasons) :
    locals.verdict.Storable ∧ Text.Storable locals.finalState ∧
      ∀ reason ∈ reasons, reason.Storable := by
  unfold fieldsOutcome at outcome
  split at outcome
  · rcases reasons_of_outcome outcome with ⟨verdict, finalState, none⟩
    obtain rfl : reasons = [] := by simpa [listed] using none
    rw [verdict, finalState, verdictPass, Json.storable_str_iff]
    exact ⟨by decide, by decide, by simp⟩
  · rcases reasons_of_outcome outcome with ⟨verdict, finalState, each⟩
    obtain rfl : reasons = _ := Json.arr.inj (listed.symm.trans each)
    rw [verdict, finalState, verdictFail, Json.storable_str_iff, List.forall_mem_map]
    refine ⟨by decide, by decide, ?_⟩
    intro name member
    have present := Dict.get?_eq_some_iff.mp (Dict.mem_falseKeys.mp member)
    exact PlainContext.storable_missingReason (names _ present)

/-- A row with extracted fields can be stored only if the machine has decided on them. -/
theorem decided_of_row {locals : Locals} {reasons : List Json} {assistance : Assistance}
    {result : OCRResult} {documentType : Text} {extraction : Extraction}
    (extracts : Extracts env claimed result documentType extraction)
    (fields : locals.fields = extraction.fields) (kind : locals.documentType = documentType)
    (outcome : locals.outcome = fieldsOutcome extraction.fields ∨
      ¬extraction.Storable ∧ ∃ reason, locals.outcome = errorOutcome reason)
    (row : (resultRow locals reasons assistance).Storable) :
    locals.outcome = fieldsOutcome extraction.fields ∧ Text.Storable documentType ∧
      ∀ item ∈ extraction.fields.entries, Text.Storable item.1 := by
  have kindStorable := (assistance_of_row row).1
  have names := row.extractedFields
  rw [kind] at kindStorable
  change ∀ item ∈ locals.fields.entries, _ at names
  rw [fields] at names
  have storable := storable_of_extractFields extracts.extracted kindStorable names
  exact ⟨outcome.resolve_right fun refused => refused.1 storable, kindStorable, names⟩

theorem StorableAnswers.of_extracts {result : OCRResult} {documentType : Text}
    {extraction : Extraction} (answers : StorableAnswers env claimed)
    (extracts : Extracts env claimed result documentType extraction) :
    Text.Storable documentType ∧ (∀ item ∈ extraction.fields.entries, Text.Storable item.1) ∧
      (env.llmEnabled = true → StorableAssistance env claimed.temperature result.rawText) := by
  cases answers with
  | raised error fails message =>
      cases (fails.not_parsed extracts.parsed).2.symm.trans extracts.extracted
  | unreadable other parsed unreadable =>
      obtain rfl := Except.ok.inj (parsed.symm.trans extracts.parsed)
      simp [extracts.ok] at unreadable
  | extracted other documentType' extraction' extracts' kind names assisted =>
      obtain rfl := Except.ok.inj (extracts'.parsed.symm.trans extracts.parsed)
      obtain ⟨rfl, rfl⟩ : documentType' = documentType ∧ extraction' = extraction := by
        simpa using extracts'.extracted.symm.trans extracts.extracted
      exact ⟨kind, names, assisted⟩

theorem Ends.storable_iff {locals : Locals} {reasons : List Json} (ends : Ends env claimed locals)
    (docType : Text.Storable claimed.docType) (listed : locals.reasons = .arr reasons) :
    (resultRow locals reasons (assist env claimed.temperature locals)).Storable ↔
      StorableAnswers env claimed := by
  cases ends with
  | raised error fails outcome fields kind =>
      rw [storable_row_of_error outcome fields (by rw [kind]; exact docType) listed,
        Json.storable_str_iff]
      constructor
      · intro message
        exact .raised error fails message
      · intro answers
        cases answers with
        | raised error' fails' message =>
            rw [fails.eq fails']
            exact message
        | unreadable result parsed unreadable =>
            simp [(fails.not_parsed parsed).1] at unreadable
        | extracted result documentType extraction extracts kind names assisted =>
            cases (fails.not_parsed extracts.parsed).2.symm.trans extracts.extracted
  | unreadable result parsed unreadable reason plain outcome fields kind =>
      rw [storable_row_of_error outcome fields (by rw [kind]; exact docType) listed]
      refine iff_of_true ?_ (.unreadable result parsed unreadable)
      rcases plain with rfl | ⟨text, rfl, storable⟩
      · exact trivial
      · exact Json.storable_str_iff.mpr storable
  | extracted result documentType extraction extracts docText fields kind outcome =>
      constructor
      · intro row
        rcases decided_of_row extracts fields kind outcome row with
          ⟨decided, kindStorable, names⟩
        refine .extracted result documentType extraction extracts kindStorable names ?_
        rw [← docText]
        exact (storable_assist (docText_ne_nil extracts docText)
          (verdict_ne_error decided)).mp (assistance_of_row row).2
      · intro answers
        rcases answers.of_extracts extracts with ⟨kindStorable, names, assisted⟩
        have storable := storable_of_extractFields extracts.extracted kindStorable names
        have decided := outcome.resolve_right fun refused => refused.1 storable
        rcases storable_of_fieldsOutcome names decided listed with
          ⟨verdict, finalState, each⟩
        refine storable_resultRow verdict finalState each ?_ ?_ ?_
        · rw [fields]
          exact names
        · rw [kind]
          exact kindStorable
        · rw [← docText] at assisted
          exact (storable_assist (docText_ne_nil extracts docText)
            (verdict_ne_error decided)).mpr assisted

/-- The run has left `running`: both rows are terminal and there is a result. -/
structure LeftRunning (runId documentId : UUID) (db : Database ContractState) : Prop where
  run : ∃ run, db.runs runId = some run ∧ run.status.Terminal
  document : ∃ document, db.documents documentId = some document ∧ document.status.Terminal
  result : ∃ result, db.results runId = some result

theorem Ends.exists_reasons {locals : Locals} (ends : Ends env claimed locals) :
    ∃ reasons, locals.reasons = .arr reasons := by
  have ofError : ∀ {reason}, locals.outcome = errorOutcome reason →
      ∃ reasons, locals.reasons = .arr reasons := fun outcome =>
    ⟨_, (reasons_of_outcome outcome).2.2⟩
  cases ends with
  | raised error fails outcome fields kind => exact ofError outcome
  | unreadable result parsed unreadable reason plain outcome fields kind =>
      exact ofError outcome
  | extracted result documentType extraction extracts docText fields kind outcome =>
      rcases outcome with decided | ⟨_, reason, outcome⟩
      · unfold fieldsOutcome at decided
        split at decided
        · exact ⟨_, (reasons_of_outcome decided).2.2⟩
        · exact ⟨_, (reasons_of_outcome decided).2.2⟩
      · exact ofError outcome

/-- The error that a storable row leaves on its run can be stored. -/
theorem Ends.storable_error {locals : Locals} {reasons : List Json}
    (ends : Ends env claimed locals) (listed : locals.reasons = .arr reasons)
    (row : (resultRow locals reasons (assist env claimed.temperature locals)).Storable)
    (error : locals.verdict = verdictError) : Text.Storable (errorText reasons) := by
  have each := Json.storable_arr_iff.mp row.reasons
  have only : ∃ reason, PlainReason reason ∧ reasons = [reason] := by
    cases ends with
    | raised error fails outcome fields kind =>
        obtain rfl : reasons = [.str error.message] := by
          simpa [listed] using (reasons_of_outcome outcome).2.2
        exact ⟨_, .inr ⟨_, rfl, Json.storable_str_iff.mp (each _ (by simp [resultRow]))⟩, rfl⟩
    | unreadable result parsed unreadable reason plain outcome fields kind =>
        refine ⟨reason, plain, ?_⟩
        simpa [listed] using (reasons_of_outcome outcome).2.2
    | extracted result documentType extraction extracts docText fields kind outcome =>
        have decided := (decided_of_row extracts fields kind outcome row).1
        exact absurd error (verdict_ne_error decided)
  rcases only with ⟨reason, plain, rfl⟩
  have text : Text.Storable (Interpreter.str reason) := by
    rcases plain with rfl | ⟨text, rfl, storable⟩
    · rw [Interpreter.str]
      decide
    · exact storable
  simpa [errorText, List.intercalate] using text.take 1000

variable {storage : Storage} {world : World} {runId : UUID} {run : ValidationRun}
  {document : Document}

omit [Interpreter] in
theorem storable_of_refused {storage : Storage} (postgres : storage.Postgres)
    {db : Database ContractState} {error : PyException}
    (fault : storage.commitFault db = some error) : ¬db.Storable := by
  intro storable
  simp [(postgres.commits db).mpr storable] at fault

/-- The final write is accepted if and only if the result can be stored. -/
theorem storable_finishRows {db after : Database ContractState} {documentId : UUID}
    {result : ValidationResult} (storable : db.Storable)
    (error : result.Storable → result.verdict = verdictError →
      Text.Storable (errorText result.reasons))
    (finished : finishRows runId documentId result db = .ok after) :
    after.Storable ↔ result.Storable := by
  unfold finishRows at finished
  split at finished
  · cases finished
  · cases finished
    constructor
    · intro stored
      exact stored.results runId result (by simp)
    · intro row
      refine ((storable.setResult runId row).updateRun runId ?_).updateDocument documentId ?_
      · intro run old
        refine ⟨old.documentId, old.machineId, old.machineHash, ?_⟩
        intro text recorded
        simp only [finishRun] at recorded
        split at recorded
        · next failed =>
            cases recorded
            exact error row failed
        · exact old.error text recorded
      · intro document old
        exact ⟨old.owner, old.docType, old.blobRef⟩

omit [Interpreter] in
theorem ensures_claim_postgres (postgres : storage.Postgres)
    (queued : Queued world runId run document) (stored : world.db.Storable) :
    Ensures (claim storage runId) world
      (fun claimed after => claimed = some (claimedOf run document) ∧
        after = world.committed (claimRows runId run.documentId world.db))
      (fun _ _ => False) := by
  have claimable : run.status.Claimable := by
    rw [queued.status]
    decide
  refine Ensures.bind (Ensures.read ?_)
  simp only [queued.runRow, claimable, if_true, queued.documentRow]
  refine Ensures.bind (ensures_commit (fun _ => Ensures.pure ⟨rfl, rfl⟩) ?_)
  intro reason fault
  exact storable_of_refused postgres fault (stored.claimRows _ _)

variable (run document) in
theorem ensures_store_postgres (postgres : storage.Postgres) (ends : Ends env claimed world.locals)
    (docType : Text.Storable claimed.docType) (stored : world.db.Storable)
    (runRow : world.db.runs runId = some { run with status := .running })
    (documentRow : world.db.documents run.documentId =
      some { document with status := .running })
    (noResult : world.db.results runId = none) {reasons : List Json}
    (listed : world.locals.reasons = .arr reasons) :
    Ensures (store env storage runId claimed) world
      (fun _ after => Finished runId run document
          (resultRow world.locals reasons (assist env claimed.temperature world.locals)) after.db ∧
        StorableAnswers env claimed)
      (fun _ after => after.db.results runId = none ∧ ¬StorableAnswers env claimed) := by
  have accepts : Ensures (store env storage runId claimed) world
      (fun _ _ => StorableAnswers env claimed) (fun _ _ => ¬StorableAnswers env claimed) := by
    refine Ensures.bind (Ensures.read ?_)
    simp only [runRow, listed]
    refine Ensures.bind (Ensures.lift ?_ fun error failed => by cases failed)
    rintro _ ⟨⟩
    simp only [documentRow]
    refine Ensures.bind (Ensures.lift ?_ ?_)
    · intro after finished
      have accepted := storable_finishRows stored (ends.storable_error listed) finished
      have answers := ends.storable_iff docType listed
      refine ensures_commit (fun fault => ?_) fun reason fault => ?_
      · exact answers.mp (accepted.mp ((postgres.commits _).mp fault))
      · intro storable
        exact storable_of_refused postgres fault (accepted.mpr (answers.mpr storable))
    · intro error failed
      simp [finishRows, noResult] at failed
  have finishes := @ensures_store _ env storage world runId run document reasons claimed runRow
    documentRow noResult listed
  refine (finishes.and accepts).weaken ?_ ?_
  · rintro _ after ⟨⟨db, rfl, finished⟩, answers⟩
    exact ⟨finished, answers⟩
  · rintro _ after ⟨⟨_, rfl⟩, refused⟩
    exact ⟨noResult, refused⟩

variable (env) in
/-- A call for a queued run finishes it with a result if what it gets to store can be
stored, and otherwise leaves it without one. -/
theorem ensures_runValidation_postgres (postgres : storage.Postgres)
    (queued : Queued world runId run document) (supported : document.docType ∈ machineDefs)
    (stored : world.db.Storable) :
    Ensures (runValidation env storage runId) world
      (fun _ after => ∃ locals reasons, locals.reasons = .arr reasons ∧
        Ends env (claimedOf run document) locals ∧
        Finished runId run document
          (resultRow locals reasons (assist env run.temperature locals)) after.db ∧
        StorableAnswers env (claimedOf run document))
      (fun _ after => after.db.results runId = none ∧
        ¬StorableAnswers env (claimedOf run document)) := by
  have row := stored.documents _ _ queued.documentRow
  have documentId := (stored.runs _ _ queued.runRow).documentId
  refine Ensures.bind ((ensures_claim_postgres postgres queued stored).weaken ?_
    fun _ _ never => never.elim)
  rintro _ _ ⟨rfl, rfl⟩
  let claimedWorld := world.committed (claimRows runId run.documentId world.db)
  have decides : Ensures (decideOutcome env storage runId (claimedOf run document)) claimedWorld
      (fun _ after => after.db.Storable ∧ Ends env (claimedOf run document) after.locals)
      (fun _ _ => False) :=
    ensures_decideOutcome_postgres postgres supported row.owner documentId
      (stored.claimRows _ _) queued.unregistered queued.unsaved
  have same : claimedWorld.db.SameRows claimedWorld.db := .refl _
  have frame := Ensures.ofPreserves (preserves_decideOutcome
    (keptByDrive_sameRows claimedWorld.db) env storage runId (claimedOf run document)) same
  refine Ensures.bind ((decides.and frame).weaken ?_ fun _ _ never => never.1.elim)
  rintro _ after ⟨⟨stored, ends⟩, same⟩
  rcases ends.exists_reasons with ⟨reasons, listed⟩
  refine (ensures_store_postgres run document postgres ends row.docType stored ?_ ?_ ?_
    listed).weaken ?_ fun _ _ refused => refused
  · rw [← same.runs]
    simp [claimedWorld, World.committed, claimRows, queued.runRow]
  · rw [← same.documents]
    simp [claimedWorld, World.committed, claimRows, queued.documentRow]
  · rw [← same.results]
    exact queued.noResult
  · rintro _ final ⟨finished, answers⟩
    exact ⟨after.locals, reasons, listed, ends, finished, answers⟩

theorem Finished.leftRunning {result : ValidationResult} {db : Database ContractState}
    (finished : Finished runId run document result db) :
    LeftRunning runId run.documentId db where
  run := ⟨_, finished.runRow, terminal_finalStatus _⟩
  document := ⟨_, finished.documentRow, terminal_finalStatus _⟩
  result := ⟨result, finished.resultRow⟩

/-- A run that would store what cannot be stored stays in `running`. -/
theorem not_leftRunning_of_refused (postgres : storage.Postgres)
    (queued : Queued world runId run document) (supported : document.docType ∈ machineDefs)
    (stored : world.db.Storable) (refused : ¬StorableAnswers env (claimedOf run document)) :
    ¬LeftRunning runId run.documentId (runValidation env storage runId world).2.db := by
  have ends := ensures_runValidation_postgres env postgres queued supported stored
  have unfinished : Ensures (runValidation env storage runId) world
      (fun _ after => after.db.results runId = none)
      (fun _ after => after.db.results runId = none) := by
    refine ends.weaken ?_ fun _ _ kept => kept.1
    rintro _ after ⟨locals, reasons, _, _, _, answers⟩
    exact absurd answers refused
  rintro ⟨_, _, result, present⟩
  rw [unfinished.after] at present
  cases present

theorem leftRunning_of_storable (postgres : storage.Postgres)
    (queued : Queued world runId run document) (supported : document.docType ∈ machineDefs)
    (stored : world.db.Storable) (answers : StorableAnswers env (claimedOf run document)) :
    LeftRunning runId run.documentId (runValidation env storage runId world).2.db := by
  have ends := ensures_runValidation_postgres env postgres queued supported stored
  have settled : Ensures (runValidation env storage runId) world
      (fun _ after => LeftRunning runId run.documentId after.db)
      (fun _ after => LeftRunning runId run.documentId after.db) := by
    refine ends.weaken ?_ fun _ _ kept => absurd answers kept.2
    rintro _ after ⟨locals, reasons, _, _, finished, _⟩
    exact finished.leftRunning
  exact settled.after

/-- A queued run leaves `running` if and only if what it gets to store can be stored. -/
theorem leftRunning_iff (env : Environment) (postgres : storage.Postgres)
    (queued : Queued world runId run document) (supported : document.docType ∈ machineDefs)
    (stored : world.db.Storable) :
    LeftRunning runId run.documentId (runValidation env storage runId world).2.db ↔
      StorableAnswers env (claimedOf run document) := by
  constructor
  · intro settled
    by_contra refused
    exact not_leftRunning_of_refused postgres queued supported stored refused settled
  · exact leftRunning_of_storable postgres queued supported stored

end Final

/-! ## An analysis with a number that is not finite -/

section Sample

attribute [local instance] Interpreter.ascii

/-- What a refused commit raises. -/
def unsupportedValue : PyException :=
  ⟨"DBAPIError".toList, "unsupported value".toList⟩

open Classical in
/-- A PostgreSQL that is up. -/
noncomputable def Storage.strict : Storage where
  persistenceFault := fun _ => none
  commitFault := fun db => if db.Storable then none else some unsupportedValue

theorem Storage.postgres_strict : Storage.strict.Postgres where
  quiet := by
    rintro ⟨call, error, ⟨⟩⟩
  commits := by
    intro db
    by_cases storable : db.Storable
    · exact iff_of_true (if_pos storable) storable
    · have refused : Storage.strict.commitFault db = some unsupportedValue := if_neg storable
      exact iff_of_false (by rw [refused]; exact Option.some_ne_none _) storable
  message := by
    intro db error fault
    by_cases storable : db.Storable
    · have accepted : Storage.strict.commitFault db = none := if_pos storable
      cases accepted.symm.trans fault
    · have refused : Storage.strict.commitFault db = some unsupportedValue := if_neg storable
      obtain rfl := Option.some.inj (refused.symm.trans fault)
      exact (by decide : Text.Storable "unsupported value".toList)

theorem storable_sampleWorld : sampleWorld.db.Storable where
  documents := by
    intro id document found
    obtain ⟨_, rfl⟩ : id = sampleRun.documentId ∧ sampleDocument = document := by
      simpa [sampleWorld] using found
    exact ⟨by decide, by decide, by decide⟩
  runs := by
    intro id run found
    obtain ⟨_, rfl⟩ : id = sampleRunId ∧ sampleRun = run := by
      simpa [sampleWorld] using found
    exact ⟨by decide, by decide, by decide, fun _ none => by cases none⟩
  results := fun _ _ none => by cases none
  snapshots := fun _ _ none => by cases none

/-- The analysis gets this reply, and the revision changes nothing. -/
def analyzedEnvironment (reply : Text) : Environment :=
  { replyEnvironment "A lease.".toList "no answer".toList with
    analyzeContract := fun _ _ => analyzeContract reply
    reviseContract := fun docText _ _ => .ok docText }

theorem llmEnabled_analyzedEnvironment (reply : Text) :
    (analyzedEnvironment reply).llmEnabled = true := rfl

theorem extractFields_analyzedEnvironment (reply : Text) :
    extractFields (analyzedEnvironment reply) (claimedOf sampleRun sampleDocument)
        ⟨"A lease.".toList, none⟩ =
      .ok ("document".toList, .ofFields (some "document".toList) ∅) := by
  have read : Json.loads "no answer".toList = none := by decide +kernel
  have classified : classifyAndCheckFields "no answer".toList =
      .ok (.ofFields (some "document".toList) ∅) := by
    rw [classifyAndCheckFields, read]
  have replied : (analyzedEnvironment reply).classifyReply "A lease.".toList
    (claimedOf sampleRun sampleDocument).temperature = .ok "no answer".toList := rfl
  rw [extractFields_reply _ rfl replied, classified]
  change Except.ok ("document".toList, holdToCore "document".toList _ _) = _
  rw [holdToCore, isContractLike_document]
  rfl

theorem storableAssistance_analyzedEnvironment {reply docText : Text} {analysis : Json}
    (read : analyzeContract reply = .ok analysis) (temperature : ℚ) :
    StorableAssistance (analyzedEnvironment reply) temperature docText ↔
      analysis.Storable ∧ Text.Storable docText := by
  have analyzed : (analyzedEnvironment reply).analyzeContract docText temperature =
    .ok analysis := read
  have report : Text.Storable "503".toList := by decide
  unfold StorableAssistance
  rw [analyzed]
  change analysis.Storable ∧ Text.Storable docText ∧ (_ ∨ Text.Storable "503".toList) ↔ _
  constructor
  · rintro ⟨analysis, text, _⟩
    exact ⟨analysis, text⟩
  · rintro ⟨analysis, text⟩
    exact ⟨analysis, text, .inr report⟩

theorem storableAnswers_plain : StorableAnswers (analyzedEnvironment "no analysis".toList)
    (claimedOf sampleRun sampleDocument) := by
  have readable : OCRResult.ok ⟨"A lease.".toList, none⟩ = true := by decide
  have notJson : Json.loads "no analysis".toList = none := by decide +kernel
  refine .extracted _ _ _ ⟨rfl, readable, extractFields_analyzedEnvironment _⟩ (by decide)
    (by simp [Extraction.ofFields]) ?_
  intro _
  have read : analyzeContract "no analysis".toList = .ok (rawSummary "no analysis".toList) := by
    rw [analyzeContract, notJson]
  refine (storableAssistance_analyzedEnvironment read _).mpr ⟨?_, by decide⟩
  rw [storable_rawSummary]
  decide

theorem leftRunning_plain : LeftRunning sampleRunId sampleRun.documentId
    (runValidation (analyzedEnvironment "no analysis".toList) Storage.strict sampleRunId
      sampleWorld).2.db :=
  (leftRunning_iff _ Storage.postgres_strict queued_sampleWorld (by decide)
    storable_sampleWorld).mpr storableAnswers_plain

/-- An analysis that cannot be stored is not. -/
theorem not_storableAnswers {reply : Text} {analysis : Json}
    (read : analyzeContract reply = .ok analysis) (infinite : ¬analysis.Storable) :
    ¬StorableAnswers (analyzedEnvironment reply) (claimedOf sampleRun sampleDocument) := by
  intro answers
  cases answers with
  | raised error fails message =>
      have raised := (fails.not_parsed rfl).2
      rw [extractFields_analyzedEnvironment] at raised
      cases raised
  | unreadable result parsed unreadable =>
      obtain rfl : ⟨"A lease.".toList, none⟩ = result := Except.ok.inj parsed
      exact absurd unreadable (by decide)
  | extracted result documentType extraction extracts kind names assisted =>
      have storable := assisted (llmEnabled_analyzedEnvironment reply)
      rw [storableAssistance_analyzedEnvironment read] at storable
      exact infinite storable.1

/-- A reply that JSON does not allow and Python reads. -/
def nanReply : Text := "\x7b\"summary\": NaN\x7d".toList

/-- A reply with a NaN gets the final commit refused, and the run stays in `running`. -/
theorem not_leftRunning_nan : ¬LeftRunning sampleRunId sampleRun.documentId
    (runValidation (analyzedEnvironment nanReply) Storage.strict sampleRunId
      sampleWorld).2.db := by
  refine not_leftRunning_of_refused Storage.postgres_strict queued_sampleWorld (by decide)
    storable_sampleWorld ?_
  have object : Json.loads nanReply = some (.obj [("summary".toList, .float .nan)]) := by
    decide +kernel
  have read : ∃ analysis, analyzeContract nanReply = .ok analysis := by
    rw [analyzeContract, object]
    exact ⟨_, rfl⟩
  rcases read with ⟨analysis, read⟩
  have infinite : ¬analysis.Storable := by
    rw [storable_analyzeContract read, object]
    dsimp only
    rw [Json.storable_obj_iff, List.forall_mem_singleton, Json.Storable]
    exact fun member => member.2
  exact not_storableAnswers read infinite

end Sample

end OrcaValidator
