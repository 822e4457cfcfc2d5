import OrcaValidator.Api.Polling
import OrcaValidator.Export.Docx
import OrcaValidator.Export.Redline
import OrcaValidator.Pipeline.Ownership

/-!
# Requests

The endpoints that read a document's run, over a deployment that goes on meanwhile.  A request
is one statement after another: `get_document` reads the document and then its latest run, the
others read the latest run and then its result.

A result that has once been seen is final.  Whatever happens afterwards, every request that
begins later sees the same run and the same result, and the downloads serve the very redline
that was shown.
-/

namespace OrcaValidator

open Library System

/-! ## The endpoints -/

/-- The body of `GET /documents/{id}`. -/
structure StatusResponse where
  documentId : UUID
  runId : UUID
  status : Status
  docType : Text
  machineId : Text

/-- The endpoints that read the result of the latest run. -/
inductive ResultEndpoint where
  | result
  | revisedMd
  | revisedDocx

/-- The GET endpoints of a document. -/
inductive Endpoint where
  | document
  | ofResult (endpoint : ResultEndpoint)

/-- What the endpoints reply with where they raise nothing. -/
inductive Reply where
  | status (response : StatusResponse)
  | result (response : ResultResponse)
  | markdown (filename content : Text)
  | docx (filename : Text) (content : List Paragraph)

/-- A reply, or the exception that ends the request. -/
abbrev Answer := Except PyException Reply

/-- The answer about a document that has no row. -/
def documentNotFound : PyException := httpException 404 "document not found".toList

/-- The answer about a document that has no run. -/
def noValidationRun : PyException := httpException 404 "no validation run for document".toList

/-- The answer of the downloads where the run has no redline. -/
def noRevisedDocument : PyException := httpException 404 "no revised document available".toList

/-- The name of a download. -/
def revisedName (documentId : UUID) (suffix : Text) : Text :=
  "revised-".toList ++ documentId ++ suffix

/-- The title of the downloaded Word document. -/
def docxTitle : Text := "Revised Contract (AI-assisted)".toList

/-- The download of a redline. -/
def download (documentId : UUID) (redline : Text) : ResultEndpoint → Reply
  | .revisedDocx => .docx (revisedName documentId ".docx".toList)
      (markdownToDocx (some (cleanRevision (some redline))) docxTitle)
  | _ => .markdown (revisedName documentId ".md".toList) (cleanRevision (some redline))

/-- `_revised_or_404`, from the result that it has read. -/
def revisedOr404 (result : Option ValidationResult) : Except PyException Text :=
  match result.bind ValidationResult.revisedMarkdown with
  | some redline => if redline = [] then .error noRevisedDocument else .ok redline
  | none => .error noRevisedDocument

/-- What the endpoint answers, from the run and the result that it has read. -/
def respond (documentId runId : UUID) (run : ValidationRun) (result : Option ValidationResult) :
    ResultEndpoint → Answer
  | .result => .ok (.result (resultResponse runId run result))
  | endpoint => (revisedOr404 result).map fun redline => download documentId redline endpoint

/-! ## The statements of a request -/

/-- Where a request is, with what it has read. -/
inductive Request where
  | unasked
  | asked (endpoint : Endpoint) (documentId : UUID)
  | readDocument (documentId : UUID) (document : Document)
  | readRun (endpoint : ResultEndpoint) (documentId runId : UUID) (run : ValidationRun)
  | answered (endpoint : Endpoint) (documentId : UUID) (answer : Answer)

/-- The row, if it belongs to a run of the document. -/
def runOf (db : Database ContractState) (documentId runId : UUID) :
    Option (UUID × ValidationRun) :=
  ((db.runs runId).filter fun run => run.documentId = documentId).map (runId, ·)

/-- `_latest_run`, over the ids of the runs in the order of `queued_at`. -/
def latestRun (db : Database ContractState) (runLog : List UUID) (documentId : UUID) :
    Option (UUID × ValidationRun) :=
  runLog.reverse.findSome? (runOf db documentId)

/-- The next statement of a request. -/
def Request.next (db : Database ContractState) (runLog : List UUID) : Request → Option Request
  | asked .document documentId => some (match db.documents documentId with
      | none => answered .document documentId (.error documentNotFound)
      | some document => readDocument documentId document)
  | readDocument documentId document => some (answered .document documentId
      (match latestRun db runLog documentId with
      | none => .error noValidationRun
      | some (runId, run) => .ok (.status
          ⟨documentId, runId, run.status, document.docType, run.machineId⟩)))
  | asked (.ofResult endpoint) documentId => some (match latestRun db runLog documentId with
      | none => answered (.ofResult endpoint) documentId (.error noValidationRun)
      | some (runId, run) => readRun endpoint documentId runId run)
  | readRun endpoint documentId runId run => some (answered (.ofResult endpoint) documentId
      (respond documentId runId run (db.results runId) endpoint))
  | _ => none

/-- The endpoint and the document of a request that was made. -/
def Request.about : Request → Option (Endpoint × UUID)
  | unasked => none
  | asked endpoint documentId => some (endpoint, documentId)
  | readDocument documentId _ => some (.document, documentId)
  | readRun endpoint documentId _ _ => some (.ofResult endpoint, documentId)
  | answered endpoint documentId _ => some (endpoint, documentId)

theorem Request.about_next {db : Database ContractState} {runLog : List UUID}
    {request next : Request} (taken : request.next db runLog = some next) :
    next.about = request.about := by
  cases request with
  | unasked => cases taken
  | answered endpoint documentId answer => cases taken
  | readDocument documentId document =>
      cases taken
      rfl
  | readRun endpoint documentId runId run =>
      cases taken
      rfl
  | asked endpoint documentId =>
      cases endpoint with
      | document =>
          cases taken
          cases db.documents documentId <;> rfl
      | ofResult endpoint =>
          cases taken
          cases latestRun db runLog documentId <;> rfl

/-! ## Requests to a deployment -/

/-- A deployment together with the requests about its documents. -/
structure Serving [Interpreter] {Content Definition : Type}
    (tools : MachineTools Content Definition) (Process Task Query : Type) where
  deployment : Deployment tools Process Task
  /-- The ids of the runs, in the order of `queued_at`. -/
  runLog : List UUID
  requests : Query → Request

/-- A step of the deployment, the start of a request, or its next statement. -/
inductive ServingStep (Content Process Task Query : Type) where
  | deploy (label : DeploymentStep Content Process Task)
  | ask (query : Query) (endpoint : Endpoint) (documentId : UUID)
  | read (query : Query)

namespace Serving

variable [Interpreter] {Content Definition Process Task Query : Type} [DecidableEq Process]
  [DecidableEq Task] [DecidableEq Query] {tools : MachineTools Content Definition}

/-- Where the request `query` is now. -/
def setRequest (serving : Serving tools Process Task Query) (query : Query)
    (request : Request) : Serving tools Process Task Query :=
  { serving with requests := Function.update serving.requests query request }

/-- The run that a step submits. -/
def submittedRuns (deployment : Deployment tools Process Task)
    (label : DeploymentStep Content Process Task) : List UUID :=
  match deployment.move label with
  | some (.submit runId) => [runId]
  | _ => []

/-- One step.  A request reads what is committed when its statement is executed. -/
def step (serving : Serving tools Process Task Query) :
    ServingStep Content Process Task Query → Option (Serving tools Process Task Query)
  | .deploy label => (Deployment.step serving.deployment label).map fun deployment =>
      { serving with
        deployment := deployment
        runLog := serving.runLog ++ submittedRuns serving.deployment label }
  | .ask query endpoint documentId =>
      match serving.requests query with
      | .unasked => some (serving.setRequest query (.asked endpoint documentId))
      | _ => none
  | .read query => ((serving.requests query).next serving.deployment.db serving.runLog).map
      (serving.setRequest query)

/-- Nothing has been submitted or asked yet. -/
structure Blank (serving : Serving tools Process Task Query) : Prop where
  deployment : serving.deployment.Blank
  runLog : serving.runLog = []
  requests : ∀ query, serving.requests query = .unasked

variable (Process Task Query tools) in
/-- The requests about the documents of a deployment that starts without any. -/
def system : System (Serving tools Process Task Query) (ServingStep Content Process Task Query)
    where
  initial := Blank
  step := step

end Serving

/-! ## The latest run is the only one -/

section LatestRun

variable {db : Database ContractState} {runLog : List UUID} {documentId runId other : UUID}
  {run read : ValidationRun} {lives : UUID → Lifecycle}

theorem runOf_eq_some_iff : runOf db documentId runId = some (other, read) ↔
    other = runId ∧ db.runs runId = some read ∧ read.documentId = documentId := by
  unfold runOf
  constructor
  · intro found
    rcases Option.map_eq_some_iff.mp found with ⟨row, kept, same⟩
    rcases Option.filter_eq_some_iff.mp kept with ⟨present, its⟩
    cases same
    exact ⟨rfl, present, by simpa using its⟩
  · rintro ⟨rfl, present, rfl⟩
    simp [present, Option.filter]

theorem of_latestRun (latest : latestRun db runLog documentId = some (runId, run)) :
    db.runs runId = some run ∧ run.documentId = documentId := by
  rcases List.exists_of_findSome?_eq_some latest with ⟨id, _, found⟩
  rcases runOf_eq_some_iff.mp found with ⟨rfl, present, its⟩
  exact ⟨present, its⟩

/-- The latest run of a document is its run. -/
theorem latestRun_eq (represented : Represented db lives) (logged : runId ∈ runLog)
    (found : db.runs runId = some run) : latestRun db runLog run.documentId = some (runId, run) := by
  have present : (latestRun db runLog run.documentId).isSome := by
    rw [latestRun, List.findSome?_isSome_iff]
    refine ⟨runId, List.mem_reverse.mpr logged, ?_⟩
    rw [runOf_eq_some_iff.mpr ⟨rfl, found, rfl⟩]
    rfl
  rcases Option.isSome_iff_exists.mp present with ⟨⟨id, row⟩, latest⟩
  rcases of_latestRun latest with ⟨found', its⟩
  obtain rfl := represented.separate found' found its
  rw [found] at found'
  cases found'
  exact latest

end LatestRun

/-! ## What a request has seen -/

/-- The response tells of a result that is stored. -/
def Seen (db : Database ContractState) (documentId : UUID) (response : ResultResponse) : Prop :=
  ∃ row run result, db.runs response.runId = some row ∧ row.documentId = documentId ∧
    run.identity = row.identity ∧ db.results response.runId = some result ∧
    response = resultResponse response.runId run (some result)

/-- A request has read a run of its document, and shows as ready only what is stored. -/
def Request.Sound (db : Database ContractState) : Request → Prop
  | .readRun _ documentId runId run => ∃ row, db.runs runId = some row ∧
      row.identity = run.identity ∧ run.documentId = documentId
  | .answered _ documentId answer => ∀ response, answer = .ok (.result response) →
      response.ready = true → Seen db documentId response
  | _ => True

theorem Seen.kept {before after : Database ContractState} {documentId : UUID}
    {response : ResultResponse} (seen : Seen before documentId response)
    (identity : IdentityKept before after)
    (results : ∀ {runId result}, before.results runId = some result →
      after.results runId = some result) : Seen after documentId response := by
  rcases seen with ⟨row, run, result, found, its, same, stored, shown⟩
  rcases identity.runs found with ⟨next, found', same'⟩
  refine ⟨next, run, result, found', ?_, same.trans same'.symm, results stored, shown⟩
  exact (congrArg Prod.fst same').trans its

theorem Request.Sound.kept {before after : Database ContractState} {request : Request}
    (sound : request.Sound before) (identity : IdentityKept before after)
    (results : ∀ {runId result}, before.results runId = some result →
      after.results runId = some result) : request.Sound after := by
  cases request with
  | readRun endpoint documentId runId run =>
      rcases sound with ⟨row, found, same, its⟩
      rcases identity.runs found with ⟨next, found', same'⟩
      exact ⟨next, found', same'.trans same, its⟩
  | answered endpoint documentId answer =>
      exact fun response shown ready => (sound response shown ready).kept identity results
  | unasked => trivial
  | asked endpoint documentId => trivial
  | readDocument documentId document => trivial

theorem Request.Sound.next {db : Database ContractState} {runLog : List UUID}
    {request next : Request} (sound : request.Sound db)
    (taken : request.next db runLog = some next) : next.Sound db := by
  cases request with
  | unasked => cases taken
  | answered endpoint documentId answer => cases taken
  | readDocument documentId document =>
      cases taken
      intro response shown
      split at shown <;> cases shown
  | asked endpoint documentId =>
      cases endpoint with
      | document =>
          cases taken
          cases db.documents documentId with
          | none =>
              rintro response ⟨⟩
          | some document => trivial
      | ofResult endpoint =>
          cases taken
          cases latest : latestRun db runLog documentId with
          | none =>
              rintro response ⟨⟩
          | some found =>
              rcases of_latestRun latest with ⟨present, its⟩
              exact ⟨found.2, present, rfl, its⟩
  | readRun endpoint documentId runId run =>
      rcases sound with ⟨row, found, same, its⟩
      cases taken
      intro response shown ready
      have notDownload : ∀ {redline : Except PyException Text} {endpoint},
          redline.map (fun redline => download documentId redline endpoint) ≠
            .ok (.result response) := by
        rintro (error | redline) endpoint is
        · cases is
        · cases endpoint <;> cases is
      cases endpoint with
      | result =>
          cases shown
          cases stored : db.results runId with
          | none =>
              rw [stored] at ready
              cases ready
          | some result =>
              refine ⟨row, run, result, found, ?_, same.symm, stored, rfl⟩
              exact (congrArg Prod.fst same).trans its
      | revisedMd => exact absurd shown notDownload
      | revisedDocx => exact absurd shown notDownload

/-! ## What later requests see -/

/-- A document and its run, with the result if there is one by now. -/
structure Established where
  documentId : UUID
  runId : UUID
  document : Document
  run : ValidationRun
  settled : Option ValidationResult

namespace Established

variable (known : Established)

/-- The database has these rows, and the run has come to this result if there is one. -/
structure Holds (db : Database ContractState) (lives : UUID → Lifecycle) : Prop where
  document : ∃ row, db.documents known.documentId = some row ∧
    row.identity = known.document.identity
  run : ∃ row, db.runs known.runId = some row ∧ row.identity = known.run.identity
  own : known.run.documentId = known.documentId
  finished : ∀ result, known.settled = some result → lives known.runId = .finished result

/-- The answer is one about this run, with the result if there is one. -/
def Tells : Endpoint → Answer → Prop
  | .document, answer => ∃ status, answer = .ok (.status ⟨known.documentId, known.runId, status,
        known.document.docType, known.run.machineId⟩) ∧
      ∀ result, known.settled = some result → status = finalStatus result.verdict
  | .ofResult endpoint, answer => ∃ read found, read.identity = known.run.identity ∧
      answer = respond known.documentId known.runId read found endpoint ∧
      ∀ result, known.settled = some result →
        read.status = finalStatus result.verdict ∧ found = some result

end Established

/-- A request about the document has only read what is established. -/
def Request.Follows (known : Established) : Request → Prop
  | .readDocument documentId document => documentId = known.documentId →
      document.docType = known.document.docType
  | .readRun _ documentId runId run => documentId = known.documentId → runId = known.runId ∧
      run.identity = known.run.identity ∧
      ∀ result, known.settled = some result → run.status = finalStatus result.verdict
  | .answered endpoint documentId answer => documentId = known.documentId →
      known.Tells endpoint answer
  | _ => True

section Follows

variable {db : Database ContractState} {runLog : List UUID} {lives : UUID → Lifecycle}
  {known : Established}

/-- The latest run of the document, with the status of its result if there is one. -/
theorem Established.Holds.latest (holds : known.Holds db lives)
    (represented : Represented db lives)
    (logged : ∀ {runId run}, db.runs runId = some run → runId ∈ runLog) :
    ∃ row, latestRun db runLog known.documentId = some (known.runId, row) ∧
      row.identity = known.run.identity ∧
      ∀ result, known.settled = some result → row.status = finalStatus result.verdict := by
  rcases holds.run with ⟨row, found, same⟩
  have its : row.documentId = known.documentId := (congrArg Prod.fst same).trans holds.own
  refine ⟨row, its ▸ latestRun_eq represented (logged found) found, same, ?_⟩
  intro result settled
  rcases (represented.rows known.runId).of_runs found with ⟨_, _, _, status⟩
  rw [holds.finished result settled] at status
  exact (Option.some.inj status).symm

theorem Request.Follows.next {request next : Request} (follows : request.Follows known)
    (holds : known.Holds db lives) (represented : Represented db lives)
    (logged : ∀ {runId run}, db.runs runId = some run → runId ∈ runLog)
    (taken : request.next db runLog = some next) : next.Follows known := by
  rcases holds.latest represented logged with ⟨row, latest, same, status⟩
  cases request with
  | unasked => cases taken
  | answered endpoint documentId answer => cases taken
  | readDocument documentId document =>
      cases taken
      rintro rfl
      refine ⟨row.status, ?_, status⟩
      have machine : row.machineId = known.run.machineId :=
        congrArg (fun identity => identity.2.1) same
      rw [latest, follows rfl, ← machine]
  | asked endpoint documentId =>
      cases endpoint with
      | document =>
          cases taken
          cases found : db.documents documentId with
          | none =>
              rintro rfl
              rcases holds.document with ⟨_, present, _⟩
              rw [found] at present
              cases present
          | some document =>
              rintro rfl
              rcases holds.document with ⟨_, present, identity⟩
              rw [found] at present
              cases present
              exact congrArg (fun identity => identity.2.1) identity
      | ofResult endpoint =>
          cases taken
          cases found : latestRun db runLog documentId with
          | none =>
              rintro rfl
              rw [latest] at found
              cases found
          | some pair =>
              rintro rfl
              rw [latest] at found
              cases found
              exact ⟨rfl, same, status⟩
  | readRun endpoint documentId runId run =>
      cases taken
      rintro rfl
      rcases follows rfl with ⟨rfl, identity, readStatus⟩
      refine ⟨run, db.results known.runId, identity, rfl, fun result settled => ?_⟩
      refine ⟨readStatus result settled, ?_⟩
      rw [(represented.rows known.runId).result, holds.finished result settled]
      rfl

end Follows

namespace Serving

variable [Interpreter] {Content Definition Process Task Query : Type} [DecidableEq Process]
  [DecidableEq Task] [DecidableEq Query] {tools : MachineTools Content Definition}
  {before after : Serving tools Process Task Query}
  {label : ServingStep Content Process Task Query} {lives : UUID → Lifecycle}

omit [DecidableEq Process] [DecidableEq Task] in
@[simp]
theorem requests_setRequest (serving : Serving tools Process Task Query) (query : Query)
    (request : Request) : (serving.setRequest query request).requests =
      Function.update serving.requests query request := rfl

/-- A request stays one about its document. -/
theorem about_of_step {query : Query} {about : Endpoint × UUID}
    (taken : Serving.step before label = some after)
    (asked : (before.requests query).about = some about) :
    (after.requests query).about = some about := by
  cases label with
  | deploy label =>
      rcases Option.map_eq_some_iff.mp taken with ⟨deployment, _, rfl⟩
      exact asked
  | ask other endpoint documentId =>
      rw [Serving.step] at taken
      split at taken
      · next unasked =>
          cases taken
          have differ : query ≠ other := by
            rintro rfl
            rw [unasked] at asked
            cases asked
          rwa [requests_setRequest, Function.update_of_ne differ]
      · cases taken
  | read other =>
      rcases Option.map_eq_some_iff.mp taken with ⟨request, read, rfl⟩
      rw [requests_setRequest]
      by_cases same : query = other
      · subst same
        rwa [Function.update_self, Request.about_next read]
      · rwa [Function.update_of_ne same]

/-! ## What every step keeps -/

/-- What every execution keeps: the rows are those of the lives, every run is in the log, and
what the requests have read is still so. -/
structure Sound (serving : Serving tools Process Task Query) (lives : UUID → Lifecycle) :
    Prop where
  orderly : serving.deployment.Orderly lives
  logged : ∀ {runId run}, serving.deployment.db.runs runId = some run → runId ∈ serving.runLog
  requests : ∀ query, (serving.requests query).Sound serving.deployment.db

omit [DecidableEq Process] [DecidableEq Task] [DecidableEq Query] in
theorem Blank.sound (blank : Blank before) : Sound before fun _ => .absent where
  orderly := blank.deployment.orderly
  logged := by
    intro runId run found
    rw [blank.deployment.runs runId] at found
    cases found
  requests := by
    intro query
    rw [blank.requests query]
    trivial

/-- The lives of the runs go on: a result stays, and what was written with a submission. -/
structure Later (before after : Serving tools Process Task Query)
    (lives next : UUID → Lifecycle) : Prop where
  identity : IdentityKept before.deployment.db after.deployment.db
  finished : ∀ {runId result}, lives runId = .finished result → next runId = .finished result

omit [DecidableEq Process] [DecidableEq Task] [DecidableEq Query] in
theorem Later.holds {known : Established} {next : UUID → Lifecycle}
    (later : Later before after lives next)
    (holds : known.Holds before.deployment.db lives) : known.Holds after.deployment.db next where
  document := by
    rcases holds.document with ⟨row, found, same⟩
    rcases later.identity.documents found with ⟨row', found', same'⟩
    exact ⟨row', found', same'.trans same⟩
  run := by
    rcases holds.run with ⟨row, found, same⟩
    rcases later.identity.runs found with ⟨row', found', same'⟩
    exact ⟨row', found', same'.trans same⟩
  own := holds.own
  finished := fun result settled => later.finished (holds.finished result settled)

omit [DecidableEq Process] [DecidableEq Task] [DecidableEq Query] in
/-- A stored result is stored for good. -/
theorem Later.results {next : UUID → Lifecycle} (later : Later before after lives next)
    (represented : Represented before.deployment.db lives)
    (represented' : Represented after.deployment.db next) {runId : UUID}
    {result : ValidationResult} (stored : before.deployment.db.results runId = some result) :
    after.deployment.db.results runId = some result := by
  have finished := (represented.rows runId).eq_finished stored
  rw [(represented'.rows runId).result, later.finished finished]
  rfl

/-- What the step of the deployment keeps. -/
theorem Sound.deploys (sound : Sound before lives)
    {label : DeploymentStep Content Process Task}
    (taken : step before (.deploy label) = some after) :
    ∃ next, Sound after next ∧ Later before after lives next ∧
      after.requests = before.requests := by
  rcases Option.map_eq_some_iff.mp taken with ⟨deployment, stepped, rfl⟩
  rcases sound.orderly.step stepped with ⟨next, moved, stayed, orderly⟩
  have identity := Deployment.identityKept_of_step stepped
  have later : Later before { before with
      deployment := deployment
      runLog := before.runLog ++ submittedRuns before.deployment label } lives next := by
    refine ⟨identity, ?_⟩
    intro runId result finished
    cases move : before.deployment.move label with
    | none => rwa [stayed move]
    | some step => exact Lifecycle.finished_of_step (moved step move) finished
  refine ⟨next, ⟨orderly, ?_, ?_⟩, later, rfl⟩
  · intro runId run found
    have earlier : lives runId ≠ .absent → runId ∈ before.runLog := fun there =>
      let ⟨_, found⟩ := (sound.orderly.represented.rows runId).ne_absent there
      sound.logged found
    have present : next runId ≠ .absent := by
      intro absent
      have rows := orderly.represented.rows runId
      rw [absent] at rows
      rw [rows.absent rfl] at found
      cases found
    cases move : before.deployment.move label with
    | none =>
        rw [stayed move] at present
        exact List.mem_append_left _ (earlier present)
    | some step =>
        rcases Lifecycle.present_of_step (moved step move) present with there | rfl
        · exact List.mem_append_left _ (earlier there)
        · refine List.mem_append_right _ ?_
          rw [submittedRuns, move]
          exact List.mem_singleton_self runId
  · intro query
    exact (sound.requests query).kept identity fun stored =>
      later.results sound.orderly.represented orderly.represented stored

omit [DecidableEq Process] [DecidableEq Task] [DecidableEq Query] in
theorem Later.refl (serving : Serving tools Process Task Query) (lives : UUID → Lifecycle) :
    Later serving serving lives lives where
  identity := .of_sameRows (.refl _)
  finished := fun finished => finished

omit [DecidableEq Process] [DecidableEq Task] [DecidableEq Query] in
theorem Later.trans {middle : Serving tools Process Task Query} {between next : UUID → Lifecycle}
    (first : Later before middle lives between) (second : Later middle after between next) :
    Later before after lives next where
  identity := by
    constructor
    · intro id document found
      rcases first.identity.documents found with ⟨row, found', same⟩
      rcases second.identity.documents found' with ⟨row', found'', same'⟩
      exact ⟨row', found'', same'.trans same⟩
    · intro id run found
      rcases first.identity.runs found with ⟨row, found', same⟩
      rcases second.identity.runs found' with ⟨row', found'', same'⟩
      exact ⟨row', found'', same'.trans same⟩
  finished := fun finished => second.finished (first.finished finished)

/-- The requests go on as what is established demands. -/
def Follow (before after : Serving tools Process Task Query) (lives : UUID → Lifecycle) : Prop :=
  ∀ known : Established, known.Holds before.deployment.db lives → ∀ query,
    (before.requests query).Follows known → (after.requests query).Follows known

omit [DecidableEq Process] [DecidableEq Task] in
/-- A request that changes as it may. -/
theorem Sound.requested (sound : Sound before lives) {query : Query} {request : Request}
    (isSound : request.Sound before.deployment.db)
    (follows : ∀ known : Established, known.Holds before.deployment.db lives →
      (before.requests query).Follows known → request.Follows known)
    (same : after = before.setRequest query request) :
    Sound after lives ∧ Later before after lives lives ∧ Follow before after lives := by
  subst same
  refine ⟨⟨sound.orderly, sound.logged, ?_⟩, ⟨.of_sameRows (.refl _), fun finished => finished⟩,
    ?_⟩
  · intro other
    rw [requests_setRequest]
    by_cases same : other = query
    · subst same
      rw [Function.update_self]
      exact isSound
    · rw [Function.update_of_ne same]
      exact sound.requests other
  · intro known holds other followed
    rw [requests_setRequest]
    by_cases same : other = query
    · subst same
      rw [Function.update_self]
      exact follows known holds followed
    · rwa [Function.update_of_ne same]

theorem Sound.step (sound : Sound before lives) (taken : Serving.step before label = some after) :
    ∃ next, Sound after next ∧ Later before after lives next ∧ Follow before after lives := by
  cases label with
  | deploy label =>
      rcases sound.deploys taken with ⟨next, soundAfter, later, requests⟩
      refine ⟨next, soundAfter, later, ?_⟩
      intro known _ query follows
      rwa [requests]
  | ask query endpoint documentId =>
      rw [Serving.step] at taken
      split at taken
      · cases taken
        have isSound : (Request.asked endpoint documentId).Sound before.deployment.db := trivial
        exact ⟨lives, sound.requested isSound (fun _ _ _ => trivial) rfl⟩
      · cases taken
  | read query =>
      rcases Option.map_eq_some_iff.mp taken with ⟨request, read, same⟩
      refine ⟨lives, sound.requested ((sound.requests query).next read) ?_ same.symm⟩
      intro known holds follows
      exact follows.next holds sound.orderly.represented sound.logged read

/-- Along an execution what is established stays so, and the requests go on as it demands. -/
theorem Sound.executes (sound : Sound before lives)
    {labels : List (ServingStep Content Process Task Query)}
    (execution : (system Process Task Query tools).Executes before labels after) :
    ∃ next, Sound after next ∧ Later before after lives next ∧ Follow before after lives := by
  refine execution.keeps (fun state => ∃ next, Sound state next ∧
    Later before state lives next ∧ Follow before state lives) ?_ ⟨lives, sound, .refl _ _,
      fun _ _ _ follows => follows⟩
  rintro middle label after ⟨between, soundMiddle, later, follow⟩ taken
  rcases soundMiddle.step taken with ⟨next, soundAfter, later', follow'⟩
  refine ⟨next, soundAfter, later.trans later', ?_⟩
  intro known holds query follows
  exact follow' known (later.holds holds) query (follow known holds query follows)

/-- Whoever asks for a document once its run is established is told of this run. -/
theorem tells_of_executes {known : Established} (sound : Sound before lives)
    (holds : known.Holds before.deployment.db lives)
    {labels : List (ServingStep Content Process Task Query)}
    (execution : (system Process Task Query tools).Executes before labels after) {query : Query}
    (unasked : before.requests query = .unasked) {endpoint : Endpoint} {answer : Answer}
    (answered : after.requests query = .answered endpoint known.documentId answer) :
    known.Tells endpoint answer := by
  rcases sound.executes execution with ⟨next, _, _, follow⟩
  have follows := follow known holds query (by rw [unasked]; trivial)
  rw [answered] at follows
  exact follows rfl

/-! ## A result that was seen is final -/

/-- The response with the status that goes with its verdict. -/
def settled (response : ResultResponse) : ResultResponse :=
  { response with status := (response.verdict.map finalStatus).getD response.status }

/-- The answer repeats what the response has shown. -/
def Repeats (documentId : UUID) (response : ResultResponse) : Endpoint → Answer → Prop
  | .document, answer => ∃ docType machineId, answer = .ok (.status
      ⟨documentId, response.runId, (settled response).status, docType, machineId⟩)
  | .ofResult .result, answer => answer = .ok (.result (settled response))
  | .ofResult endpoint, answer => answer = match response.revisedRedline with
      | none => .error noRevisedDocument
      | some redline => .ok (download documentId redline endpoint)

omit [Interpreter] in
theorem revisedOr404_some (result : ValidationResult) :
    revisedOr404 (some result) =
      match (if result.revisedAvailable then result.revisedMarkdown else none) with
      | none => .error noRevisedDocument
      | some redline => .ok redline := by
  cases found : result.revisedMarkdown with
  | none => simp [revisedOr404, ValidationResult.revisedAvailable, found]
  | some redline =>
      by_cases empty : redline = [] <;>
        simp [revisedOr404, ValidationResult.revisedAvailable, found, empty]

omit [Interpreter] in
theorem repeats_of_tells {known : Established} {run : ValidationRun} {result : ValidationResult}
    (settled : known.settled = some result) (same : run.identity = known.run.identity)
    {endpoint : Endpoint} {answer : Answer} (tells : known.Tells endpoint answer) :
    Repeats known.documentId (resultResponse known.runId run (some result)) endpoint answer := by
  cases endpoint with
  | document =>
      rcases tells with ⟨status, rfl, final⟩
      exact ⟨_, _, by rw [final result settled]; rfl⟩
  | ofResult endpoint =>
      rcases tells with ⟨read, found, identity, rfl, final⟩
      rcases final result settled with ⟨status, rfl⟩
      have equal := identity.trans same.symm
      simp only [ValidationRun.identity, Prod.mk.injEq] at equal
      cases endpoint with
      | result => simp [Repeats, respond, resultResponse, Serving.settled, status, equal]
      | revisedMd =>
          simp only [Repeats, respond, revisedOr404_some, resultResponse]
          split <;> rfl
      | revisedDocx =>
          simp only [Repeats, respond, revisedOr404_some, resultResponse]
          split <;> rfl

/-- Whoever asks for a document once a result of it was seen is told of this result. -/
theorem repeats_of_seen (sound : Sound before lives) {documentId : UUID}
    {response : ResultResponse} (seen : Seen before.deployment.db documentId response)
    {labels : List (ServingStep Content Process Task Query)}
    (execution : (system Process Task Query tools).Executes before labels after) {query : Query}
    (unasked : before.requests query = .unasked) {endpoint : Endpoint} {answer : Answer}
    (answered : after.requests query = .answered endpoint documentId answer) :
    Repeats documentId response endpoint answer := by
  rcases seen with ⟨row, run, result, found, its, same, stored, isResponse⟩
  have represented := sound.orderly.represented
  rcases (represented.rows response.runId).of_runs found with ⟨document, documentRow, _⟩
  have holds : (⟨documentId, response.runId, document, row, some result⟩ : Established).Holds
      before.deployment.db lives := by
    refine ⟨⟨document, its ▸ documentRow, rfl⟩, ⟨row, found, rfl⟩, its, ?_⟩
    rintro _ ⟨⟩
    exact (represented.rows response.runId).eq_finished stored
  have tells := tells_of_executes sound holds execution unasked answered
  rw [isResponse]
  exact repeats_of_tells rfl same tells

/-- Once a request has been shown a result, every request for the document that begins later
is answered with the same run and the same result, and the downloads serve its redline. -/
theorem repeats_of_ready {start middle final : Serving tools Process Task Query}
    {labels later : List (ServingStep Content Process Task Query)} (blank : Blank start)
    (first : (system Process Task Query tools).Executes start labels middle)
    (second : (system Process Task Query tools).Executes middle later final)
    {query other : Query} {documentId : UUID} {response : ResultResponse}
    (shown : middle.requests query =
      .answered (.ofResult .result) documentId (.ok (.result response)))
    (ready : response.ready = true) (unasked : middle.requests other = .unasked)
    {endpoint : Endpoint} {answer : Answer}
    (answered : final.requests other = .answered endpoint documentId answer) :
    Repeats documentId response endpoint answer := by
  rcases blank.sound.executes first with ⟨lives, sound, _⟩
  have seen := sound.requests query
  rw [shown] at seen
  exact repeats_of_seen sound (seen response rfl ready) second unasked answered

/-! ## A submission that was accepted is found -/

/-- What is established by a submission. -/
def submission (verified : Dict Text Text) (upload : Upload) (documentId runId : UUID) :
    Established where
  documentId := documentId
  runId := runId
  document := submittedDocument upload
  run := submittedRun verified upload documentId "contract_validation".toList
  settled := none

end Serving

/-! ## A run in the background -/

section Closed

open Deployment (MachineFile sampleTools)

attribute [local instance] Interpreter.ascii

namespace Serving

/-- A deployment before its first process, and nothing asked. -/
def freshServing : Serving sampleTools ℕ Unit Bool :=
  ⟨Deployment.freshDeployment, [], fun _ => .unasked⟩

theorem blank_freshServing : Blank freshServing :=
  ⟨Deployment.blank_freshDeployment, rfl, fun _ => rfl⟩

/-- An API process is started, and is about to get an upload. -/
def startingSteps : List (ServingStep MachineFile ℕ Unit Bool) :=
  [.deploy (.start 0 (Deployment.sampleStartup (.api false) .published))]

/-- The upload of a contract to the process that has started. -/
def submittingStep : ServingStep MachineFile ℕ Unit Bool :=
  .deploy (.submit 0 Service.sampleUpload "document".toList "run".toList)

/-- The run is validated, and then its result is asked for. -/
def showingSteps : List (ServingStep MachineFile ℕ Unit Bool) :=
  (Deployment.backgroundRun.drop 2 ++ Deployment.finishingSteps).map .deploy ++
    [.ask false (.ofResult .result) "document".toList, .read false, .read false]

/-- Another request, for the download. -/
def downloadSteps : List (ServingStep MachineFile ℕ Unit Bool) :=
  [.ask true (.ofResult .revisedMd) "document".toList, .read true, .read true]

end Serving

/-- The request has not been made. -/
def Request.isUnasked : Request → Bool
  | .unasked => true
  | _ => false

/-- The document and the answer of a request that is answered. -/
def Request.answer? : Request → Option (Endpoint × UUID × Answer)
  | .answered endpoint documentId answer => some (endpoint, documentId, answer)
  | _ => none

/-- The document and the response, if a result is shown. -/
def Request.shown? : Request → Option (UUID × ResultResponse)
  | .answered (.ofResult .result) documentId (.ok (.result response)) =>
      if response.ready then some (documentId, response) else none
  | _ => none

theorem Request.of_isUnasked {request : Request} (is : request.isUnasked = true) :
    request = .unasked := by
  cases request with
  | unasked => rfl
  | _ => cases is

theorem Request.of_answer? {request : Request} {endpoint : Endpoint} {documentId : UUID}
    {answer : Answer} (is : request.answer? = some (endpoint, documentId, answer)) :
    request = .answered endpoint documentId answer := by
  cases request with
  | answered endpoint documentId answer =>
      cases is
      rfl
  | _ => cases is

theorem Request.of_shown? {request : Request} {documentId : UUID} {response : ResultResponse}
    (is : request.shown? = some (documentId, response)) :
    request = .answered (.ofResult .result) documentId (.ok (.result response)) ∧
      response.ready = true := by
  unfold Request.shown? at is
  split at is
  · split at is
    · next ready =>
        cases is
        exact ⟨rfl, ready⟩
    · cases is
  · cases is

namespace Serving

theorem executes_of_bind {later : List (ServingStep MachineFile ℕ Unit Bool)}
    {labels : List (ServingStep MachineFile ℕ Unit Bool)} {α : Type} {value : α}
    {start : Serving sampleTools ℕ Unit Bool}
    {observe : Serving sampleTools ℕ Unit Bool →
      Serving sampleTools ℕ Unit Bool → α}
    (runs : (((system ℕ Unit Bool sampleTools).execute start labels).bind fun middle =>
      ((system ℕ Unit Bool sampleTools).execute middle later).map fun final =>
        observe middle final) = some value) :
    ∃ middle final, (system ℕ Unit Bool sampleTools).Executes start labels middle ∧
      (system ℕ Unit Bool sampleTools).Executes middle later final ∧
      observe middle final = value := by
  rcases Option.bind_eq_some_iff.mp runs with ⟨middle, first, rest⟩
  rcases Option.map_eq_some_iff.mp rest with ⟨final, second, same⟩
  exact ⟨middle, final, executes_of_execute first, executes_of_execute second, same⟩

theorem repeats_of_ready_backgroundRun : ∃ middle final response endpoint answer,
    (system ℕ Unit Bool sampleTools).Executes freshServing
        (startingSteps ++ submittingStep :: showingSteps) middle ∧
      (system ℕ Unit Bool sampleTools).Executes middle downloadSteps final ∧
      middle.requests false =
        .answered (.ofResult .result) "document".toList (.ok (.result response)) ∧
      response.ready = true ∧
      final.requests true = .answered endpoint "document".toList answer ∧
      Repeats "document".toList response endpoint answer := by
  have runs : (((system ℕ Unit Bool sampleTools).execute freshServing
      (startingSteps ++ submittingStep :: showingSteps)).bind fun middle =>
      ((system ℕ Unit Bool sampleTools).execute middle downloadSteps).map fun final =>
        (((middle.requests false).shown?.map Prod.fst, (middle.requests true).isUnasked),
          (final.requests true).answer?.map fun answer => answer.2.1)) =
      some ((some "document".toList, true), some "document".toList) := by
    decide +kernel
  rcases executes_of_bind runs with ⟨middle, final, first, second, same⟩
  simp only [Prod.mk.injEq] at same
  rcases same with ⟨⟨shown, unasked⟩, answered⟩
  rcases Option.map_eq_some_iff.mp shown with ⟨⟨_, response⟩, isShown, rfl⟩
  rcases Option.map_eq_some_iff.mp answered with ⟨⟨endpoint, _, answer⟩, isAnswered, same⟩
  rcases Request.of_shown? isShown with ⟨showsIt, ready⟩
  have answers := Request.of_answer? isAnswered
  simp only at same
  rw [same] at answers
  exact ⟨middle, final, response, endpoint, answer, first, second, showsIt, ready, answers,
    repeats_of_ready blank_freshServing first second showsIt ready
      (Request.of_isUnasked unasked) answers⟩

end Serving

end Closed

end OrcaValidator
