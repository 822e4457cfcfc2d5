import OrcaValidator.Api.Responses
import OrcaValidator.Web.Validate

/-!
# The site

The page, the route handlers of the web server, which pass its fetches on, and the deployment
behind them.  A fetch is under way on its own while the page, the processes and other clients
go on: the backend takes it up some time after it was sent, answers it statement by statement,
may fail at any moment, and the page sees the response later still.

What the page shows is true of the database: it is the stored result of the very run that its
last upload has made.
-/

namespace OrcaValidator

open Library System

/-! ## The route handlers -/

/-- What a route handler answers where the backend's body is no JSON. -/
def badBackendResponse : Json := .obj [("error".toList, .str "bad backend response".toList)]

/-- `POST` of `api/documents/route.ts` and `GET` of `api/documents/[id]/result/route.ts`, once
the backend has answered or its connection has failed. -/
def proxied : Option WebResponse → WebResponse
  | some response => ⟨response.status, some (response.body.getD badBackendResponse)⟩
  | none => ⟨500, none⟩

/-- The answer to a path that has no UUID in it. -/
def unprocessable : WebResponse := ⟨422, some (.obj [("detail".toList, .arr [])])⟩

/-- A body that may break off on its way. -/
def WebResponse.arriving (response : WebResponse) (whole : Bool) : WebResponse :=
  { response with body := if whole then response.body else none }

/-! ## The state -/

/-- Where the fetch is that a call of the page waits for. -/
inductive Fetch (Query : Type) where
  /-- The backend has not taken it up. -/
  | sent
  /-- The rows of the upload are committed. -/
  | submitted (documentId runId : UUID)
  /-- The endpoint for results is at work. -/
  | asking (query : Query)
  /-- The route handler has answered. -/
  | answered (response : WebResponse)

/-- The page, its fetches and the deployment that they end up at. -/
structure Site [Interpreter] {Content Definition : Type}
    (tools : MachineTools Content Definition) (Process Task Query : Type) where
  serving : Serving tools Process Task Query
  browser : Browser
  /-- The fetch of a call, by its number. -/
  fetches : ℕ → Fetch Query

/-- The steps of the page, of its fetches and of everything behind them. -/
inductive SiteStep (Content Process Task Query : Type) where
  /-- A step of the deployment, or of another client's request. -/
  | serve (label : ServingStep Content Process Task Query)
  | start
  | submit (caller : ℕ) (process : Process) (upload : Upload) (documentId runId : UUID)
  /-- The response to an upload that was committed, whatever becomes of the run meanwhile. -/
  | respond (caller : ℕ) (whole : Bool)
  | ask (caller : ℕ) (query : Query)
  | answer (caller : ℕ) (whole : Bool)
  /-- The endpoint raises, or the backend cannot be reached any more. -/
  | fail (caller : ℕ) (raised : Option PyException)
  /-- The promise that a call waits for settles with the response. -/
  | receive (caller : ℕ) (seconds : ℤ)
  /-- The page's own connection fails. -/
  | lose (caller : ℕ)
  | timer (caller : ℕ)

namespace Site

section Model

variable [Interpreter] {Content Definition Process Task Query : Type} [DecidableEq Process]
  [DecidableEq Task] [DecidableEq Query] {tools : MachineTools Content Definition}

/-- The `doc_type` that the page uploads with. -/
def pageDocType : Text := "contract".toList

/-- How far the fetch of a call is now. -/
def setFetch (site : Site tools Process Task Query) (caller : ℕ) (fetch : Fetch Query) :
    Site tools Process Task Query :=
  { site with fetches := Function.update site.fetches caller fetch }

/-- What a call waits for. -/
def waiting (site : Site tools Process Task Query) (caller : ℕ) : Option Suspension :=
  (site.browser.calls caller).map ValidateCall.suspension

/-- A promise settles, and the call may send its next fetch. -/
def settle (site : Site tools Process Task Query) (caller : ℕ) (settled : Settlement)
    (fetch : Fetch Query) : Option (Site tools Process Task Query) :=
  (OrcaValidator.browser.step site.browser (.settle caller settled)).map fun browser =>
    { site with browser := browser }.setFetch caller fetch

/-- The backend has an upload: the response, unless the rows are committed. -/
def taken (verified : Dict Text Text) (upload : Upload) (documentId runId : UUID)
    (db : Database ContractState) : Fetch Query :=
  match submitDocument verified upload documentId runId db with
  | .error exception => .answered (proxied (some (errorResponse exception)))
  | .ok _ => .submitted documentId runId

/-- One step.  Between the page and the endpoints any connection may break. -/
def step (site : Site tools Process Task Query) :
    SiteStep Content Process Task Query → Option (Site tools Process Task Query)
  | .serve label => (Serving.step site.serving label).map ({ site with serving := · })
  | .start => (OrcaValidator.browser.step site.browser .start).map fun browser =>
      { site with browser := browser }.setFetch (site.browser.started + 1) .sent
  | .submit caller process upload documentId runId =>
      match site.waiting caller, site.fetches caller,
          site.serving.deployment.processes process with
      | some .upload, .sent, some running =>
          if upload.docType = pageDocType then
            (Serving.step site.serving (.deploy (.submit process upload documentId runId))).map
              fun serving => { site with serving := serving }.setFetch caller
                (taken running.verified upload documentId runId site.serving.deployment.db)
          else none
      | _, _, _ => none
  | .respond caller whole =>
      match site.fetches caller with
      | .submitted documentId runId => some (site.setFetch caller (.answered (proxied
          (some (WebResponse.arriving
            ⟨200, some (SubmitResponse.json ⟨documentId, runId, .queued⟩)⟩ whole)))))
      | _ => none
  | .ask caller query =>
      match site.browser.calls caller, site.fetches caller with
      | some call, .sent =>
          match call.suspension, call.documentId with
          | .result _, some (.str documentId) =>
              (Serving.step site.serving (.ask query (.ofResult .result) documentId)).map
                fun serving => { site with serving := serving }.setFetch caller (.asking query)
          | .result _, _ => some (site.setFetch caller (.answered (proxied (some unprocessable))))
          | _, _ => none
      | _, _ => none
  | .answer caller whole =>
      match site.fetches caller with
      | .asking query =>
          match site.serving.requests query with
          | .answered _ _ answer => some (site.setFetch caller (.answered (proxied
              (some ((answerResponse answer).arriving whole)))))
          | _ => none
      | _ => none
  | .fail caller raised =>
      match site.fetches caller with
      | .answered _ => none
      | _ => some (site.setFetch caller (.answered (proxied (raised.map errorResponse))))
  | .receive caller seconds =>
      match site.waiting caller, site.fetches caller with
      | some .upload, .answered response =>
          site.settle caller (.response (some response.ok)) (.answered response)
      | some .uploadBody, .answered response =>
          site.settle caller (.uploadBody response.body) .sent
      | some (.result _), .answered response =>
          site.settle caller (.result response.body seconds) .sent
      | _, _ => none
  | .lose caller =>
      match site.waiting caller with
      | some .upload => site.settle caller (.response none) .sent
      | some .uploadBody => site.settle caller (.uploadBody none) .sent
      | some (.result _) => site.settle caller (.result none 0) .sent
      | _ => none
  | .timer caller => site.settle caller .timer .sent

/-- Nothing has been started, uploaded or asked yet. -/
structure Blank (site : Site tools Process Task Query) : Prop where
  serving : site.serving.Blank
  browser : OrcaValidator.browser.initial site.browser
  fetches : ∀ caller, site.fetches caller = .sent

variable (Process Task Query tools) in
/-- A page that has just been opened, in front of a deployment that starts. -/
def system : System (Site tools Process Task Query) (SiteStep Content Process Task Query) where
  initial := Blank
  step := step

end Model

end Site

/-! ## What a call writes -/

section Writes

variable {call next : ValidateCall} {current : Bool} {settled : Settlement} {writes : List Write}
  {before after : Browser} {value : Json}

theorem ValidateCall.Resumes.documentId (resumes : call.Resumes current settled writes next) :
    next.documentId = call.documentId ∨ ∃ body, settled = .uploadBody (some body) ∧
      property? body "document_id".toList = some next.documentId := by
  cases resumes with
  | identified known => exact .inr ⟨_, rfl, known⟩
  | _ => exact .inl rfl

/-- A result is written only if it is ready. -/
theorem ValidateCall.ready_of_resume
    (resumed : call.resume current settled = some (writes, next))
    (written : .result (some value) ∈ writes) : next.documentId = call.documentId ∧
      ∃ seconds ready, settled = .result (some value) seconds ∧
        property? value "ready".toList = some ready ∧ jsTruthy ready = true := by
  rcases call with ⟨token, suspension, documentId, latest⟩
  have resumes := (resumes_of_resume resumed).2
  cases resumes with
  | @ready received seconds member known =>
      have same : received = value := by simpa [eq_comm] using written
      subst same
      refine ⟨rfl, seconds, member, rfl, known, ?_⟩
      cases suspension with
      | result round =>
          simp only [resume, known] at resumed
          cases truth : jsTruthy member with
          | false =>
              rw [truth] at resumed
              cases resumed
          | true => rfl
      | _ => cases resumed
  | exhausted => cases current <;> simp at written
  | _ => simp at written

theorem Page.result_foldl {page : Page}
    (shown : (writes.foldl Page.apply page).result = some value) :
    .result (some value) ∈ writes ∨ page.result = some value := by
  induction writes generalizing page with
  | nil => exact .inr shown
  | cons write writes ih =>
      rcases ih shown with later | before
      · exact .inl (List.mem_cons_of_mem _ later)
      · cases write with
        | result written =>
            rw [Page.apply] at before
            exact .inl (before ▸ List.mem_cons_self)
        | _ => exact .inr before

/-- The page shows what it showed, or a result that has just been received for the document
of the call. -/
theorem Browser.Ordered.shown_of_settle {caller : ℕ} (ordered : before.Ordered)
    (taken : browser.step before (.settle caller settled) = some after)
    (shown : after.page.result = some value) :
    after.page = before.page ∨ ∃ call seconds ready, before.calls caller = some call ∧
      settled = .result (some value) seconds ∧ property? value "ready".toList = some ready ∧
      jsTruthy ready = true ∧ after.page.docId = call.documentId := by
  rcases exists_resumed taken with ⟨call, writes, next, present, resumed, _, rfl⟩
  rcases ValidateCall.resumes_of_resume resumed with ⟨running, resumes⟩
  by_cases last : caller = before.started
  · have showsLast := ordered.shown
    rw [ShowsLast, ← last, present] at showsLast
    have noResult : before.page.result = none := showsLast.result.resolve_right fun received =>
      running.1 received.2
    have written := (Page.result_foldl shown).resolve_right (by simp [noResult])
    rcases ValidateCall.ready_of_resume resumed written with
      ⟨same, seconds, ready, received, known, truth⟩
    refine .inr ⟨call, seconds, ready, present, received, known, truth, ?_⟩
    rw [ordered.current_eq present, decide_eq_true last] at resumes
    exact (showsLast.resume running resumes).docId.trans same
  · rw [ordered.current_eq present, decide_eq_false last] at resumes
    rw [resumes.silent]
    exact .inl rfl

end Writes

/-! ## What the page can be told -/

section Told

/-- A body that identifies a document, if it has the `document_id` of one. -/
def Identifies (made : UUID → UUID → Prop) (response : WebResponse) : Prop :=
  ∀ {body id}, response.body = some body →
    property? body "document_id".toList = some (some id) →
      ∃ documentId runId, id = .str documentId ∧ made documentId runId

/-- The value is the body of a response that shows a stored result of the document. -/
def IsResultOf (db : Database ContractState) (documentId : Option Json) (value : Json) : Prop :=
  ∃ id response, documentId = some (.str id) ∧ value = ResultResponse.json response ∧
    response.ready = true ∧ Seen db id response

/-- A body that says that it is ready has the result. -/
def Informs (db : Database ContractState) (documentId : Option Json) (response : WebResponse) :
    Prop :=
  ∀ {body ready}, response.body = some body → property? body "ready".toList = some ready →
    jsTruthy ready = true → IsResultOf db documentId body

variable {db before after : Database ContractState} {made : UUID → UUID → Prop}
  {documentId : Option Json} {response : WebResponse}

/-- A response whose body, if it has one, has none of the members that the page reads. -/
def Fails (response : WebResponse) : Prop :=
  ∀ body, response.body = some body → ∃ members, body = .obj members ∧
    Dict.find "document_id".toList members.reverse = none ∧
    Dict.find "ready".toList members.reverse = none

theorem Fails.identifies (fails : Fails response) : Identifies made response := by
  intro body id has known
  rcases fails body has with ⟨members, rfl, missing, _⟩
  rw [property?, missing] at known
  cases known

theorem Fails.informs (fails : Fails response) : Informs db documentId response := by
  intro body ready has known truth
  rcases fails body has with ⟨members, rfl, _, missing⟩
  rw [property?, missing] at known
  cases known
  cases truth

theorem fails_badBackendResponse (status : ℕ) : Fails ⟨status, some badBackendResponse⟩ := by
  rintro _ ⟨⟩
  exact ⟨_, rfl, rfl, rfl⟩

theorem fails_errorResponse (exception : PyException) :
    Fails (proxied (some (errorResponse exception))) := by
  unfold errorResponse
  split
  · rintro _ ⟨⟩
    exact ⟨_, rfl, rfl, rfl⟩
  · exact fails_badBackendResponse 500

theorem fails_proxied_map (raised : Option PyException) :
    Fails (proxied (raised.map errorResponse)) := by
  cases raised with
  | none =>
      rintro _ ⟨⟩
  | some exception => exact fails_errorResponse exception

theorem fails_unprocessable : Fails (proxied (some unprocessable)) := by
  rintro _ ⟨⟩
  exact ⟨_, rfl, rfl, rfl⟩

/-- A body that breaks off becomes an error. -/
theorem proxied_arriving (response : WebResponse) (whole : Bool) :
    proxied (some (response.arriving whole)) = proxied (some response) ∨
      proxied (some (response.arriving whole)) = ⟨response.status, some badBackendResponse⟩ := by
  cases whole with
  | true => exact .inl rfl
  | false => exact .inr rfl

/-- The response to an upload tells its document. -/
theorem identifies_submitResponse {id runId : UUID} (whole : Bool) (isMade : made id runId) :
    Identifies made (proxied (some (WebResponse.arriving
      ⟨200, some (SubmitResponse.json ⟨id, runId, .queued⟩)⟩ whole))) := by
  rcases proxied_arriving ⟨200, some (SubmitResponse.json ⟨id, runId, .queued⟩)⟩ whole with
    same | same
  · rw [same]
    rintro _ _ ⟨⟩ known
    cases known
    exact ⟨id, runId, rfl, isMade⟩
  · rw [same]
    exact (fails_badBackendResponse 200).identifies

theorem informs_submitResponse (id runId : UUID) (whole : Bool) :
    Informs db documentId (proxied (some (WebResponse.arriving
      ⟨200, some (SubmitResponse.json ⟨id, runId, .queued⟩)⟩ whole))) := by
  rcases proxied_arriving ⟨200, some (SubmitResponse.json ⟨id, runId, .queued⟩)⟩ whole with
    same | same
  · rw [same]
    rintro _ ready ⟨⟩ known truth
    cases known
    cases truth
  · rw [same]
    exact (fails_badBackendResponse 200).informs

/-- The answer for a result shows what is stored, if it is ready. -/
theorem informs_answerResponse {endpoint : Endpoint} {id : UUID} {answer : Answer} (whole : Bool)
    (sound : (Request.answered endpoint id answer).Sound db) :
    Informs db (some (.str id)) (proxied (some ((answerResponse answer).arriving whole))) := by
  rcases proxied_arriving (answerResponse answer) whole with same | same
  · rw [same]
    rcases answer with exception | reply
    · exact (fails_errorResponse exception).informs
    · cases reply with
      | result shown =>
          rintro _ ready ⟨⟩ known truth
          cases known
          exact ⟨id, shown, rfl, rfl, truth, sound shown rfl truth⟩
      | status response =>
          rintro _ ready ⟨⟩ known truth
          cases known
          cases truth
      | markdown filename content => exact (fails_badBackendResponse 200).informs
      | docx filename content => exact (fails_badBackendResponse 200).informs
  · rw [same]
    exact (fails_badBackendResponse _).informs

theorem IsResultOf.kept {value : Json} (isResult : IsResultOf before documentId value)
    (identity : IdentityKept before after)
    (results : ∀ {runId result}, before.results runId = some result →
      after.results runId = some result) : IsResultOf after documentId value := by
  rcases isResult with ⟨id, response, its, same, ready, seen⟩
  exact ⟨id, response, its, same, ready, seen.kept identity results⟩

end Told

/-! ## What every step keeps -/

namespace Site

section Run

variable [Interpreter] {Content Definition Process Task Query : Type}
  {tools : MachineTools Content Definition} {before after : Site tools Process Task Query}
  {labels earlier : List (SiteStep Content Process Task Query)}
  {label : SiteStep Content Process Task Query}

/-- The upload of the call has made these rows. -/
def Made (labels : List (SiteStep Content Process Task Query)) (db : Database ContractState)
    (caller : ℕ) (documentId runId : UUID) : Prop :=
  ∃ process upload, .submit caller process upload documentId runId ∈ labels ∧
    (∃ document, db.documents documentId = some document ∧
      document.identity = (submittedDocument upload).identity) ∧
    ∃ run, db.runs runId = some run ∧ run.documentId = documentId ∧
      run.temperature = clampTemperature upload.temperature

/-- What is known of the fetch of a call. -/
def FetchHonest (labels : List (SiteStep Content Process Task Query))
    (serving : Serving tools Process Task Query) (caller : ℕ) (call : ValidateCall) :
    Fetch Query → Prop
  | .sent => True
  | .submitted documentId runId => Made labels serving.deployment.db caller documentId runId
  | .asking query => ∃ round id, call.suspension = .result round ∧
      call.documentId = some (.str id) ∧
      (serving.requests query).about = some (.ofResult .result, id)
  | .answered response =>
      (call.suspension = .upload ∨ call.suspension = .uploadBody →
        Identifies (Made labels serving.deployment.db caller) response) ∧
      Informs serving.deployment.db call.documentId response

/-- Every call knows the document that its own upload has made, and the page shows a stored
result of it. -/
structure Linked (labels : List (SiteStep Content Process Task Query))
    (site : Site tools Process Task Query) : Prop where
  sound : ∃ lives, Serving.Sound site.serving lives
  ordered : site.browser.Ordered
  documents : ∀ {caller call id}, site.browser.calls caller = some call →
    call.documentId = some id → ∃ documentId runId, id = .str documentId ∧
      Made labels site.serving.deployment.db caller documentId runId
  fetches : ∀ {caller call}, site.browser.calls caller = some call →
    FetchHonest labels site.serving caller call (site.fetches caller)
  shown : ∀ {value}, site.browser.page.result = some value →
    IsResultOf site.serving.deployment.db site.browser.page.docId value

theorem Blank.linked (blank : Blank before) : Linked labels before where
  sound := ⟨_, blank.serving.sound⟩
  ordered := Browser.ordered_of_initial blank.browser
  documents := by
    intro caller call id present
    rw [blank.browser.2.2.2.2.2 caller] at present
    cases present
  fetches := by
    intro caller call present
    rw [blank.browser.2.2.2.2.2 caller] at present
    cases present
  shown := by
    intro value shown
    rw [blank.browser.2.1] at shown
    cases shown

omit [Interpreter] in
theorem Made.kept {db next : Database ContractState} {caller : ℕ} {documentId runId : UUID}
    (made : Made earlier db caller documentId runId) (more : earlier ⊆ labels)
    (identity : IdentityKept db next) : Made labels next caller documentId runId := by
  rcases made with ⟨process, upload, member, ⟨document, documentRow, same⟩, run, runRow, its,
    temperature⟩
  rcases identity.documents documentRow with ⟨document', documentRow', same'⟩
  rcases identity.runs runRow with ⟨run', runRow', sameRun⟩
  simp only [ValidationRun.identity, Prod.mk.injEq] at sameRun
  exact ⟨process, upload, more member, ⟨document', documentRow', same'.trans same⟩, run',
    runRow', sameRun.1.trans its, sameRun.2.2.2.trans temperature⟩

/-- What is known stays known while the backend goes on. -/
theorem Linked.advances {serving : Serving tools Process Task Query}
    (linked : Linked earlier before) (more : earlier ⊆ labels)
    (sound : ∃ lives, Serving.Sound serving lives)
    (identity : IdentityKept before.serving.deployment.db serving.deployment.db)
    (results : ∀ {runId result}, before.serving.deployment.db.results runId = some result →
      serving.deployment.db.results runId = some result)
    (abouts : ∀ {query about}, (before.serving.requests query).about = some about →
      (serving.requests query).about = some about) :
    Linked labels { before with serving := serving } := by
  refine ⟨sound, linked.ordered, ?_, ?_, ?_⟩
  · intro caller call id present known
    rcases linked.documents present known with ⟨documentId, runId, same, made⟩
    exact ⟨documentId, runId, same, made.kept more identity⟩
  · intro caller call present
    have honest := linked.fetches present
    dsimp only
    cases fetch : before.fetches caller with
    | sent => trivial
    | submitted documentId runId =>
        rw [fetch] at honest
        exact honest.kept more identity
    | asking query =>
        rw [fetch] at honest
        rcases honest with ⟨round, id, waits, known, about⟩
        exact ⟨round, id, waits, known, abouts about⟩
    | answered response =>
        rw [fetch] at honest
        refine ⟨fun uploading body id has known => ?_, fun has known truth => ?_⟩
        · rcases honest.1 uploading has known with ⟨documentId, runId, same, made⟩
          exact ⟨documentId, runId, same, made.kept more identity⟩
        · exact (honest.2 has known truth).kept identity results
  · intro value shown
    exact (linked.shown shown).kept identity results

theorem Linked.more (linked : Linked earlier before) (more : earlier ⊆ labels) :
    Linked labels before :=
  linked.advances more linked.sound (.of_sameRows (.refl _)) (fun stored => stored)
    fun about => about

/-- The site after something has become of a fetch. -/
theorem Linked.setFetch {caller : ℕ} {fetch : Fetch Query} (linked : Linked labels before)
    (honest : ∀ {call}, before.browser.calls caller = some call →
      FetchHonest labels before.serving caller call fetch) :
    Linked labels (before.setFetch caller fetch) := by
  refine ⟨linked.sound, linked.ordered, linked.documents, ?_, linked.shown⟩
  intro other call present
  simp only [Site.setFetch]
  by_cases same : other = caller
  · subst same
    rw [Function.update_self]
    exact honest present
  · rw [Function.update_of_ne same]
    exact linked.fetches present

/-- The site after a promise of the page has settled. -/
theorem Linked.settle {caller : ℕ} {settled : Settlement} {fetch : Fetch Query}
    (linked : Linked labels before) (taken : before.settle caller settled fetch = some after)
    (identifies : ∀ {body id}, settled = .uploadBody (some body) →
      property? body "document_id".toList = some (some id) → ∃ documentId runId,
        id = .str documentId ∧ Made labels before.serving.deployment.db caller documentId runId)
    (informs : ∀ {call value seconds ready}, before.browser.calls caller = some call →
      settled = .result (some value) seconds → property? value "ready".toList = some ready →
        jsTruthy ready = true → IsResultOf before.serving.deployment.db call.documentId value)
    (honest : ∀ {call next current writes}, before.browser.calls caller = some call →
      call.Resumes current settled writes next →
        FetchHonest labels before.serving caller next fetch) : Linked labels after := by
  rcases Option.map_eq_some_iff.mp taken with ⟨page, stepped, rfl⟩
  rcases Browser.exists_resumed stepped with ⟨call, writes, next, present, resumed, _, same⟩
  have resumes := (ValidateCall.resumes_of_resume resumed).2
  have calls : page.calls = Function.update before.browser.calls caller (some next) := by
    rw [same]
  refine ⟨linked.sound, (linked.ordered.step stepped).1, ?_, ?_, ?_⟩
  · intro other call' id present' known
    simp only [Site.setFetch, calls, Function.update_apply] at present'
    split_ifs at present' with own
    · cases present'
      subst own
      rcases resumes.documentId with unchanged | ⟨body, arrived, member⟩
      · exact linked.documents present (unchanged ▸ known)
      · exact identifies arrived (known ▸ member)
    · exact linked.documents present' known
  · intro other call' present'
    simp only [Site.setFetch, calls, Function.update_apply] at present' ⊢
    split_ifs at present' ⊢ with own
    · cases present'
      subst own
      exact honest present resumes
    · exact linked.fetches present'
  · intro value shown
    rcases linked.ordered.shown_of_settle stepped shown with unchanged |
      ⟨call', seconds, ready, present', arrived, known, truth, document⟩
    · simp only [Site.setFetch, unchanged] at shown ⊢
      exact linked.shown shown
    · simp only [Site.setFetch, document]
      exact informs present' arrived known truth

theorem Linked.starts {page : Browser} (linked : Linked labels before)
    (stepped : OrcaValidator.browser.step before.browser .start = some page) :
    Linked labels ({ before with browser := page }.setFetch (before.browser.started + 1) .sent) := by
  have ordered := (linked.ordered.step stepped).1
  cases stepped
  refine ⟨linked.sound, ordered, ?_, ?_, ?_⟩
  · intro other call id present known
    simp only [Site.setFetch, Function.update_apply] at present
    split_ifs at present with own
    · cases present
      cases known
    · exact linked.documents present known
  · intro other call present
    simp only [Site.setFetch, Function.update_apply] at present ⊢
    split_ifs at present ⊢ with own
    · trivial
    · exact linked.fetches present
  · rintro value ⟨⟩

/-- The rows that a submission inserts. -/
theorem exists_rows {verified : Dict Text Text} {upload : Upload} {documentId runId : UUID}
    {db next : Database ContractState}
    (accepted : submitDocument verified upload documentId runId db = .ok next) :
    (∃ document, next.documents documentId = some document ∧
      document.identity = (submittedDocument upload).identity) ∧
    ∃ run, next.runs runId = some run ∧ run.documentId = documentId ∧
      run.temperature = clampTemperature upload.temperature := by
  rcases exists_submitted accepted with ⟨machineId, _, rfl⟩
  refine ⟨⟨submittedDocument upload, ?_, rfl⟩, _, Function.update_self .., rfl, rfl⟩
  exact Function.update_self ..

section Steps

variable [DecidableEq Process] [DecidableEq Task] [DecidableEq Query]

theorem Linked.serves {serving : Serving tools Process Task Query}
    {move : ServingStep Content Process Task Query} (linked : Linked earlier before)
    (more : earlier ⊆ labels) (taken : Serving.step before.serving move = some serving) :
    Linked labels { before with serving := serving } := by
  rcases linked.sound with ⟨lives, sound⟩
  rcases sound.step taken with ⟨next, soundAfter, later, _⟩
  exact linked.advances more ⟨next, soundAfter⟩ later.identity
    (later.results sound.orderly.represented soundAfter.orderly.represented)
    (Serving.about_of_step taken)

theorem Linked.submits {caller : ℕ} {process : Process} {upload : Upload}
    {documentId runId : UUID} {running : ServerProcess tools}
    {serving : Serving tools Process Task Query} (linked : Linked earlier before)
    (more : earlier ⊆ labels) (member : .submit caller process upload documentId runId ∈ labels)
    (present : before.serving.deployment.processes process = some running)
    (taken : Serving.step before.serving (.deploy (.submit process upload documentId runId)) =
      some serving) :
    Linked labels ({ before with serving := serving }.setFetch caller
      (Site.taken running.verified upload documentId runId before.serving.deployment.db)) := by
  refine (linked.serves more taken).setFetch fun {call} _ => ?_
  unfold Site.taken
  rcases Option.map_eq_some_iff.mp taken with ⟨deployment, stepped, rfl⟩
  rw [Deployment.step, present] at stepped
  dsimp only at stepped
  split at stepped
  · cases accepted : submitDocument running.verified upload documentId runId
        before.serving.deployment.db with
    | error exception =>
        have fails := fails_errorResponse exception
        exact ⟨fun _ => fails.identifies, fails.informs⟩
    | ok db =>
        rw [accepted] at stepped
        cases stepped
        exact ⟨process, upload, member, exists_rows accepted⟩
  · cases stepped

/-- The site after the page has received what its fetch was answered. -/
theorem Linked.receives {caller : ℕ} {seconds : ℤ} (linked : Linked labels before)
    (taken : Site.step before (.receive caller seconds) = some after) : Linked labels after := by
  rw [Site.step] at taken
  split at taken
  · next response waits answered =>
      refine linked.settle taken ?_ ?_ ?_
      · rintro body id ⟨⟩
      · rintro call value seconds ready present ⟨⟩
      · intro call next current writes present resumes
        have honest := linked.fetches present
        rw [answered] at honest
        have uploading : call.suspension = .upload := by
          rw [waiting, present] at waits
          exact Option.some.inj waits
        refine ⟨fun _ => honest.1 (.inl uploading), ?_⟩
        rcases resumes.documentId with same | ⟨body, ⟨⟩, _⟩
        rw [same]
        exact honest.2
  · next response waits answered =>
      refine linked.settle taken ?_ ?_ fun _ _ => trivial
      · intro body id arrived known
        rcases Option.map_eq_some_iff.mp waits with ⟨call, present, uploading⟩
        have honest := linked.fetches present
        rw [answered] at honest
        exact honest.1 (.inr uploading) (Settlement.uploadBody.inj arrived) known
      · rintro call value seconds ready present ⟨⟩
  · next response waits answered =>
      refine linked.settle taken ?_ ?_ fun _ _ => trivial
      · rintro body id ⟨⟩
      · intro call value seconds' ready present arrived known truth
        have honest := linked.fetches present
        rw [answered] at honest
        exact honest.2 (Settlement.result.inj arrived).1 known truth
  · cases taken

theorem Linked.loses {caller : ℕ} (linked : Linked labels before)
    (taken : Site.step before (.lose caller) = some after) : Linked labels after := by
  rw [Site.step] at taken
  split at taken
  · refine linked.settle taken ?_ ?_ fun _ _ => trivial
    · rintro body id ⟨⟩
    · rintro call value seconds ready present ⟨⟩
  · refine linked.settle taken ?_ ?_ fun _ _ => trivial
    · rintro body id ⟨⟩
    · rintro call value seconds ready present ⟨⟩
  · refine linked.settle taken ?_ ?_ fun _ _ => trivial
    · rintro body id ⟨⟩
    · rintro call value seconds ready present ⟨⟩
  · cases taken

/-- The site after the endpoint for results has taken up a fetch. -/
theorem Linked.asks {caller : ℕ} {query : Query} (linked : Linked labels before)
    (taken : Site.step before (.ask caller query) = some after) : Linked labels after := by
  rw [Site.step] at taken
  split at taken
  · next call present fetch =>
      split at taken
      · next round id waits known =>
          rcases Option.map_eq_some_iff.mp taken with ⟨serving, stepped, rfl⟩
          refine (linked.serves (List.Subset.refl _) stepped).setFetch fun {call'} present' => ?_
          rw [present] at present'
          cases present'
          refine ⟨round, id, waits, known, ?_⟩
          rw [Serving.step] at stepped
          split at stepped
          · cases stepped
            rw [Serving.requests_setRequest, Function.update_self]
            rfl
          · cases stepped
      · cases taken
        exact linked.setFetch fun _ =>
          ⟨fun _ => fails_unprocessable.identifies, fails_unprocessable.informs⟩
      · cases taken
  · cases taken

theorem Linked.answers {caller : ℕ} {whole : Bool} (linked : Linked labels before)
    (taken : Site.step before (.answer caller whole) = some after) : Linked labels after := by
  rw [Site.step] at taken
  split at taken
  · next query asking =>
      split at taken
      · next endpoint id answer answered =>
          cases taken
          refine linked.setFetch fun {call} present => ?_
          have honest := linked.fetches present
          rw [asking] at honest
          rcases honest with ⟨round, id', waits, known, about⟩
          rw [answered] at about
          cases about
          rcases linked.sound with ⟨lives, sound⟩
          have isSound := sound.requests query
          rw [answered] at isSound
          refine ⟨?_, known ▸ informs_answerResponse whole isSound⟩
          rintro (uploading | uploading)
          · cases waits.symm.trans uploading
          · cases waits.symm.trans uploading
      · cases taken
  · cases taken

theorem Linked.step (linked : Linked earlier before) (taken : Site.step before label = some after) :
    Linked (earlier ++ [label]) after := by
  have more : earlier ⊆ earlier ++ [label] := List.subset_append_left _ _
  cases label with
  | serve move =>
      rcases Option.map_eq_some_iff.mp taken with ⟨serving, stepped, rfl⟩
      exact linked.serves more stepped
  | start =>
      rw [Site.step] at taken
      rcases Option.map_eq_some_iff.mp taken with ⟨page, stepped, rfl⟩
      exact (linked.more more).starts stepped
  | submit caller process upload documentId runId =>
      rw [Site.step] at taken
      split at taken
      · next running _ _ present =>
          split at taken
          · rcases Option.map_eq_some_iff.mp taken with ⟨serving, stepped, rfl⟩
            exact linked.submits more (List.mem_append_right _ (List.mem_singleton_self _)) present
              stepped
          · cases taken
      · cases taken
  | respond caller whole =>
      rw [Site.step] at taken
      split at taken
      · next documentId runId submitted =>
          cases taken
          refine (linked.more more).setFetch fun {call} present => ?_
          have honest := (linked.more more).fetches present
          rw [submitted] at honest
          exact ⟨fun _ => identifies_submitResponse whole honest,
            informs_submitResponse documentId runId whole⟩
      · cases taken
  | ask caller query => exact (linked.more more).asks taken
  | answer caller whole => exact (linked.more more).answers taken
  | fail caller raised =>
      have fails := fails_proxied_map raised
      rw [Site.step] at taken
      split at taken
      · cases taken
      · cases taken
        exact (linked.more more).setFetch fun _ => ⟨fun _ => fails.identifies, fails.informs⟩
  | receive caller seconds => exact (linked.more more).receives taken
  | lose caller => exact (linked.more more).loses taken
  | timer caller =>
      refine (linked.more more).settle taken ?_ ?_ fun _ _ => trivial
      · rintro body id ⟨⟩
      · rintro call value seconds ready present ⟨⟩

theorem linked_of_executes (linked : Linked earlier before)
    (execution : (system Process Task Query tools).Executes before labels after) :
    Linked (earlier ++ labels) after :=
  execution.keepsRecord Linked (fun linked taken => linked.step taken) linked

end Steps

/-! ## What the page shows -/

/-- The page shows the document that the upload of its last call has made, and the result that
is stored for its run, with the status that this run had when it was read. -/
structure ShowsResult (labels : List (SiteStep Content Process Task Query))
    (site : Site tools Process Task Query) (value : Json) (documentId runId : UUID)
    (response : ResultResponse) : Prop where
  own : Made labels site.serving.deployment.db site.browser.started documentId runId
  docId : site.browser.page.docId = some (.str documentId)
  body : value = response.json
  stored : ∃ run result status, site.serving.deployment.db.runs runId = some run ∧
    site.serving.deployment.db.results runId = some result ∧
    run.status = finalStatus result.verdict ∧
    response = { resultResponse runId run (some result) with status := status }

theorem Linked.showsResult (linked : Linked labels before) {value : Json}
    (shown : before.browser.page.result = some value) :
    ∃ documentId runId response, ShowsResult labels before value documentId runId response ∧
      response.ready = true ∧ Seen before.serving.deployment.db documentId response := by
  rcases linked.shown shown with ⟨documentId, response, docId, same, ready, seen⟩
  rcases linked.ordered.belongsToLast.docId _ docId with ⟨call, present, known⟩
  rcases linked.documents present known with ⟨_, runId, ⟨⟩, made⟩
  rcases linked.sound with ⟨lives, sound⟩
  have represented := sound.orderly.represented
  rcases seen with ⟨row, run, result, found, its, identity, stored, isResponse⟩
  have seen : Seen before.serving.deployment.db documentId response :=
    ⟨row, run, result, found, its, identity, stored, isResponse⟩
  rcases made with ⟨process, upload, member, document, row', found', its', temperature⟩
  have one : runId = response.runId := represented.separate found' found (its'.trans its.symm)
  refine ⟨documentId, runId, response, ⟨?_, docId, same, row, result, run.status, ?_⟩, ready, seen⟩
  · exact ⟨process, upload, member, document, row', found', its', temperature⟩
  · subst one
    have status := (represented.rows response.runId).of_runs found
    rw [(represented.rows response.runId).eq_finished stored] at status
    rcases status with ⟨_, _, _, status⟩
    simp only [ValidationRun.identity, Prod.mk.injEq] at identity
    refine ⟨found, stored, (Option.some.inj status).symm, ?_⟩
    conv_lhs => rw [isResponse]
    simp only [resultResponse, identity]

variable [DecidableEq Process] [DecidableEq Task] [DecidableEq Query]

/-- The step of the backend that a step of the site is. -/
def move (site : Site tools Process Task Query) :
    SiteStep Content Process Task Query → Option (ServingStep Content Process Task Query)
  | .serve label => some label
  | .submit _ process upload documentId runId =>
      some (.deploy (.submit process upload documentId runId))
  | .ask caller query =>
      match (site.browser.calls caller).bind ValidateCall.documentId with
      | some (.str documentId) => some (.ask query (.ofResult .result) documentId)
      | _ => none
  | _ => none

omit [DecidableEq Process] [DecidableEq Task] [DecidableEq Query] in
theorem serving_of_settle {caller : ℕ} {settled : Settlement} {fetch : Fetch Query}
    (taken : before.settle caller settled fetch = some after) : after.serving = before.serving := by
  rcases Option.map_eq_some_iff.mp taken with ⟨page, _, rfl⟩
  rfl

/-- What a step does to the backend. -/
theorem serving_of_step (taken : Site.step before label = some after) :
    (∃ step, move before label = some step ∧
      Serving.step before.serving step = some after.serving) ∨
    move before label = none ∧ after.serving = before.serving := by
  cases label with
  | serve step =>
      rcases Option.map_eq_some_iff.mp taken with ⟨serving, stepped, rfl⟩
      exact .inl ⟨step, rfl, stepped⟩
  | submit caller process upload documentId runId =>
      rw [Site.step] at taken
      split at taken
      · split at taken
        · rcases Option.map_eq_some_iff.mp taken with ⟨serving, stepped, rfl⟩
          exact .inl ⟨_, rfl, stepped⟩
        · cases taken
      · cases taken
  | ask caller query =>
      rw [Site.step] at taken
      split at taken
      · next call present fetch =>
          split at taken
          · next round id waits known =>
              rcases Option.map_eq_some_iff.mp taken with ⟨serving, stepped, rfl⟩
              refine .inl ⟨_, ?_, stepped⟩
              simp only [move, present, Option.bind_some, known]
          · next round unknown waits =>
              cases taken
              refine .inr ⟨?_, rfl⟩
              simp only [move, present, Option.bind_some]
          · cases taken
      · cases taken
  | receive caller seconds =>
      rw [Site.step] at taken
      refine .inr ⟨rfl, ?_⟩
      split at taken
      · exact serving_of_settle taken
      · exact serving_of_settle taken
      · exact serving_of_settle taken
      · cases taken
  | lose caller =>
      rw [Site.step] at taken
      refine .inr ⟨rfl, ?_⟩
      split at taken
      · exact serving_of_settle taken
      · exact serving_of_settle taken
      · exact serving_of_settle taken
      · cases taken
  | timer caller => exact .inr ⟨rfl, serving_of_settle taken⟩
  | start =>
      rw [Site.step] at taken
      rcases Option.map_eq_some_iff.mp taken with ⟨page, _, rfl⟩
      exact .inr ⟨rfl, rfl⟩
  | respond caller whole =>
      rw [Site.step] at taken
      split at taken
      · cases taken
        exact .inr ⟨rfl, rfl⟩
      · cases taken
  | answer caller whole =>
      rw [Site.step] at taken
      split at taken
      · split at taken
        · cases taken
          exact .inr ⟨rfl, rfl⟩
        · cases taken
      · cases taken
  | fail caller raised =>
      rw [Site.step] at taken
      split at taken
      · cases taken
      · cases taken
        exact .inr ⟨rfl, rfl⟩

/-- The page and its fetches do nothing to the backend but what any client does. -/
def toServing : Refinement (system Process Task Query tools)
    (Serving.system Process Task Query tools) where
  move := move
  Relates := fun site serving => site.serving = serving
  related := by
    rintro before after label _ rfl taken
    refine ⟨after.serving, ?_⟩
    rcases serving_of_step taken with ⟨step, moves, stepped⟩ | ⟨stays, same⟩
    · refine ⟨fun step' moves' => ?_, fun stays => ?_, rfl⟩
      · rw [moves] at moves'
        cases moves'
        exact stepped
      · rw [moves] at stays
        cases stays
    · refine ⟨fun step' moves' => ?_, fun _ => same, rfl⟩
      rw [stays] at moves'
      cases moves'

/-- Whatever is done at the page and behind it, in whatever order: the page shows a result only
of the document that the upload of its last call has made, as it is stored for its run, and
whoever asks for this document from then on is told the same. -/
theorem shown_of_executes {start site : Site tools Process Task Query} (blank : Blank start)
    (execution : (system Process Task Query tools).Executes start labels site) {value : Json}
    (shown : site.browser.page.result = some value) :
    ∃ documentId runId response, ShowsResult labels site value documentId runId response ∧
      ∀ later final query endpoint answer,
        (system Process Task Query tools).Executes site later final →
        site.serving.requests query = .unasked →
        final.serving.requests query = .answered endpoint documentId answer →
          Serving.Repeats documentId response endpoint answer := by
  have none : Linked [] start := blank.linked
  have linked := linked_of_executes none execution
  rw [List.nil_append] at linked
  rcases linked.showsResult shown with ⟨documentId, runId, response, shows, _, seen⟩
  refine ⟨documentId, runId, response, shows, ?_⟩
  intro later final query endpoint answer second unasked answered
  rcases linked.sound with ⟨lives, sound⟩
  rcases toServing.executes second rfl with ⟨_, behind, rfl⟩
  exact Serving.repeats_of_seen sound seen behind unasked answered

end Run

/-! ## An upload on the page -/

section Closed

open Deployment (MachineFile sampleTools)

attribute [local instance] Interpreter.ascii

/-- A page and a deployment, and nothing under way. -/
def freshSite : Site sampleTools ℕ Unit Bool :=
  ⟨Serving.freshServing, opened, fun _ => .sent⟩

theorem blank_freshSite : Blank freshSite :=
  ⟨Serving.blank_freshServing, initial_opened, fun _ => rfl⟩

/-- A document is uploaded and validated, and the page gets its result. -/
def shownSteps : List (SiteStep MachineFile ℕ Unit Bool) :=
  [.serve (.deploy (.start 0 (Deployment.sampleStartup (.api false) .published))), .start,
    .submit 1 0 Service.sampleUpload "document".toList "run".toList, .respond 1 true,
    .receive 1 0, .receive 1 0] ++
    (Deployment.backgroundRun.drop 2 ++ Deployment.finishingSteps).map (.serve <| .deploy ·) ++
    [.ask 1 false, .serve (.read false), .serve (.read false), .answer 1 true, .receive 1 3]

theorem shown_of_executes_shownSteps : ∃ site value documentId runId response,
    (system ℕ Unit Bool sampleTools).Executes freshSite shownSteps site ∧
      site.browser.page.result = some value ∧
      ShowsResult shownSteps site value documentId runId response ∧
      ∀ later final query endpoint answer,
        (system ℕ Unit Bool sampleTools).Executes site later final →
        site.serving.requests query = .unasked →
        final.serving.requests query = .answered endpoint documentId answer →
          Serving.Repeats documentId response endpoint answer := by
  have runs : (((system ℕ Unit Bool sampleTools).execute freshSite shownSteps).map fun site =>
      site.browser.page.result.isSome) = some true := by decide +kernel
  rcases Option.map_eq_some_iff.mp runs with ⟨site, executed, shows⟩
  rcases Option.isSome_iff_exists.mp shows with ⟨value, shown⟩
  have execution : (system ℕ Unit Bool sampleTools).Executes freshSite shownSteps site :=
    executes_of_execute executed
  rcases shown_of_executes blank_freshSite execution shown with
    ⟨documentId, runId, response, told⟩
  exact ⟨site, value, documentId, runId, response, execution, shown, told⟩

end Closed

end Site

end OrcaValidator
