import OrcaValidator.Library.Json
import OrcaValidator.Library.Transition

/-!
# The page's analyses

`validate` of `web/app/page.tsx`: upload a document, then ask for its result until it is
ready.  A call runs without interruption from one `await` to the next; any number of calls
may be under way, and what they wait for settles in any order.  Each call takes a token when
it starts and writes to the page only while its token is the newest.

The calls are numbered in the order of their start, from 1.
-/

namespace OrcaValidator

open Library System

/-! ## The page -/

/-- The state of the component. -/
structure Page where
  busy : Bool
  status : Text
  result : Option Json
  docId : Option Json

/-- A call of a state setter. -/
inductive Write where
  | busy (value : Bool)
  | status (text : Text)
  | result (value : Option Json)
  | docId (value : Option Json)

/-- The page after one of its setters. -/
def Page.apply (page : Page) : Write → Page
  | .busy value => { page with busy := value }
  | .status text => { page with status := text }
  | .result value => { page with result := value }
  | .docId value => { page with docId := value }

/-! ## Values that a body may have -/

/-- `value.key`, `undefined` where there is no such member; it throws on `null`. -/
def property? (value : Json) (key : Text) : Option (Option Json) :=
  match value with
  | .null => none
  | .obj members => some (Dict.find key members.reverse)
  | _ => some none

/-- Whether a value counts as true in a condition of JavaScript. -/
def jsTruthy : Option Json → Bool
  | none | some .null => false
  | some (.bool value) => value
  | some (.int value) => value ≠ 0
  | some (.float .nan) => false
  | some (.float value) => value.truthy
  | some (.str text) => text ≠ []
  | some (.arr _) | some (.obj _) => true

/-! ## One call -/

/-- What a call waits for, or how it ended. -/
inductive Suspension where
  /-- The response to the upload. -/
  | upload
  /-- The body of that response. -/
  | uploadBody
  /-- The body of the result, in a round of the loop. -/
  | result (round : ℕ)
  /-- The timer between two rounds. -/
  | pause (round : ℕ)
  | returned
  | thrown

/-- A call of `validate` that is suspended. -/
structure ValidateCall where
  myToken : ℕ
  suspension : Suspension
  documentId : Option Json
  /-- `r`, the result as it was last received. -/
  latest : Option Json

/-- How a promise that a call waits for settles; a rejection is `none`. -/
inductive Settlement where
  /-- A response, with its `ok`. -/
  | response (ok : Option Bool)
  | uploadBody (body : Option Json)
  /-- With the seconds since the upload, as they are shown. -/
  | result (body : Option Json) (seconds : ℤ)
  | timer

/-- How often the page asks for a result. -/
def maxRounds : ℕ := 240

/-- The status while the page polls. -/
def analyzing (seconds : ℤ) : Text :=
  "analyzing… ".toList ++ (toString seconds).toList ++
    "s — long documents can take a few minutes".toList

/-- What a call writes between two suspensions, and where it is then; `current` says whether
its token is the newest. -/
def ValidateCall.resume (call : ValidateCall) (current : Bool) :
    Settlement → Option (List Write × ValidateCall)
  | .response ok =>
      match call.suspension, ok with
      | .upload, none => some ([], { call with suspension := .thrown })
      | .upload, some ok =>
          if !current then some ([], { call with suspension := .returned })
          else if !ok then
            some ([.status "upload failed".toList, .busy false],
              { call with suspension := .returned })
          else some ([], { call with suspension := .uploadBody })
      | _, _ => none
  | .uploadBody body =>
      match call.suspension, body.bind (property? · "document_id".toList) with
      | .uploadBody, none => some ([], { call with suspension := .thrown })
      | .uploadBody, some documentId =>
          if !current then some ([], { call with suspension := .returned })
          else some ([.docId documentId],
            { call with suspension := .result 0, documentId := documentId })
      | _, _ => none
  | .result body seconds =>
      match call.suspension, body with
      | .result _, none => some ([], { call with suspension := .thrown })
      | .result round, some value =>
          if !current then
            some ([], { call with suspension := .returned, latest := some value })
          else
            match property? value "ready".toList with
            | none => some ([], { call with suspension := .thrown, latest := some value })
            | some ready =>
                if jsTruthy ready then
                  some ([.result (some value), .status "done".toList, .busy false],
                    { call with suspension := .returned, latest := some value })
                else
                  some ([.status (analyzing seconds)],
                    { call with suspension := .pause round, latest := some value })
      | _, _ => none
  | .timer =>
      match call.suspension with
      | .pause round =>
          if round + 1 < maxRounds then some ([], { call with suspension := .result (round + 1) })
          else some (if current then [.busy false] else [],
            { call with suspension := .returned })
      | _ => none

/-! ## The calls -/

/-- The page with the calls that are under way. -/
structure Browser where
  page : Page
  /-- `runToken.current`. -/
  runToken : ℕ
  /-- How many calls have been started. -/
  started : ℕ
  calls : ℕ → Option ValidateCall

/-- A new call, or an awaited promise of one that is settled. -/
inductive BrowserStep where
  /-- A document is dropped, chosen or pasted. -/
  | start
  | settle (caller : ℕ) (settled : Settlement)

/-- What `validate` writes when it is called. -/
def startWrites : List Write :=
  [.busy true, .result none, .docId none, .status "uploading…".toList]

/-- The writes of a step, the call that makes them, and where that call is then. -/
def Browser.segment (state : Browser) : BrowserStep → Option (List Write × ℕ × ValidateCall)
  | .start => some (startWrites, state.started + 1, ⟨state.runToken + 1, .upload, none, none⟩)
  | .settle caller settled =>
      (state.calls caller).bind fun call =>
        (call.resume (state.runToken == call.myToken) settled).map fun taken =>
          (taken.1, caller, taken.2)

/-- The page from its opening on. -/
def browser : System Browser BrowserStep where
  initial := fun state => state.page.busy = false ∧ state.page.result = none ∧
    state.page.docId = none ∧ state.runToken = 0 ∧ state.started = 0 ∧
    ∀ caller, state.calls caller = none
  step := fun state label =>
    (state.segment label).map fun (writes, caller, call) =>
      { page := writes.foldl Page.apply state.page
        runToken := match label with
          | .start => state.runToken + 1
          | .settle .. => state.runToken
        started := match label with
          | .start => state.started + 1
          | .settle .. => state.started
        calls := Function.update state.calls caller (some call) }

/-! ## What a call does when it is resumed -/

/-- A rejection, a body that is not JSON, and `null` where a member is read. -/
def Settlement.Fails : Settlement → Prop
  | .response ok => ok = none
  | .uploadBody body => body.bind (property? · "document_id".toList) = none
  | .result body _ => body.bind (property? · "ready".toList) = none
  | .timer => False

namespace ValidateCall

/-- A call that has not ended. -/
def Running (call : ValidateCall) : Prop :=
  call.suspension ≠ .returned ∧ call.suspension ≠ .thrown

/-- The ways from one suspension to the next. -/
inductive Resumes (call : ValidateCall) : Bool → Settlement → List Write → ValidateCall → Prop
  | throws {current : Bool} {settled : Settlement} (latest : Option Json) (fails : settled.Fails) :
      Resumes call current settled [] { call with suspension := .thrown, latest := latest }
  | superseded {settled : Settlement} (latest : Option Json) :
      Resumes call false settled [] { call with suspension := .returned, latest := latest }
  | refused :
      Resumes call true (.response (some false))
        [.status "upload failed".toList, .busy false] { call with suspension := .returned }
  | accepted :
      Resumes call true (.response (some true)) [] { call with suspension := .uploadBody }
  | identified {body : Json} {documentId : Option Json}
      (known : property? body "document_id".toList = some documentId) :
      Resumes call true (.uploadBody (some body)) [.docId documentId]
        { call with suspension := .result 0, documentId := documentId }
  | ready {value : Json} {seconds : ℤ} {member : Option Json}
      (known : property? value "ready".toList = some member) :
      Resumes call true (.result (some value) seconds)
        [.result (some value), .status "done".toList, .busy false]
        { call with suspension := .returned, latest := some value }
  | waits {value : Json} {seconds : ℤ} {member : Option Json} (round : ℕ)
      (known : property? value "ready".toList = some member) :
      Resumes call true (.result (some value) seconds) [.status (analyzing seconds)]
        { call with suspension := .pause round, latest := some value }
  | repeats {current : Bool} (round : ℕ) :
      Resumes call current .timer [] { call with suspension := .result round }
  | exhausted {current : Bool} :
      Resumes call current .timer (if current then [.busy false] else [])
        { call with suspension := .returned }

theorem resumes_of_resume {call next : ValidateCall} {current : Bool} {settled : Settlement}
    {writes : List Write} (resumed : call.resume current settled = some (writes, next)) :
    call.Running ∧ call.Resumes current settled writes next := by
  rcases call with ⟨token, suspension, documentId, latest⟩
  cases settled with
  | response ok =>
      cases suspension with
      | upload =>
          refine ⟨⟨nofun, nofun⟩, ?_⟩
          cases ok with
          | none =>
              cases resumed
              exact .throws _ rfl
          | some ok =>
              cases current <;> cases ok <;> cases resumed
              · exact .superseded _
              · exact .superseded _
              · exact .refused
              · exact .accepted
      | _ => cases resumed
  | uploadBody body =>
      cases suspension with
      | uploadBody =>
          refine ⟨⟨nofun, nofun⟩, ?_⟩
          cases known : body.bind (property? · "document_id".toList) with
          | none =>
              simp only [resume, known, Option.some.injEq, Prod.mk.injEq] at resumed
              rcases resumed with ⟨rfl, rfl⟩
              exact .throws _ known
          | some member =>
              rcases Option.bind_eq_some_iff.mp known with ⟨value, rfl, known'⟩
              simp only [resume, known] at resumed
              cases current <;> cases resumed
              · exact .superseded _
              · exact .identified known'
      | _ => simp [resume] at resumed
  | result body seconds =>
      cases suspension with
      | result round =>
          refine ⟨⟨nofun, nofun⟩, ?_⟩
          cases body with
          | none =>
              cases resumed
              exact .throws _ rfl
          | some value =>
              cases current with
              | false =>
                  cases resumed
                  exact .superseded _
              | true =>
                  cases known : property? value "ready".toList with
                  | none =>
                      simp only [resume, known] at resumed
                      cases resumed
                      exact .throws _ known
                  | some member =>
                      simp only [resume, known] at resumed
                      cases truth : jsTruthy member <;> rw [truth] at resumed <;> cases resumed
                      · exact .waits round known
                      · exact .ready known
      | _ => cases resumed
  | timer =>
      cases suspension with
      | pause round =>
          refine ⟨⟨nofun, nofun⟩, ?_⟩
          simp only [resume] at resumed
          split at resumed
          · cases resumed
            exact .repeats _
          · cases resumed
            exact .exhausted
      | _ => cases resumed

variable {call next : ValidateCall} {current : Bool} {settled : Settlement} {writes : List Write}

theorem Resumes.myToken (resumes : call.Resumes current settled writes next) :
    next.myToken = call.myToken := by
  cases resumes <;> rfl

/-- A call whose token is not the newest writes nothing. -/
theorem Resumes.silent (resumes : call.Resumes false settled writes next) : writes = [] := by
  cases resumes <;> rfl

theorem Resumes.thrown_iff (resumes : call.Resumes true settled writes next) :
    next.suspension = .thrown ↔ settled.Fails := by
  cases resumes with
  | throws latest fails => exact iff_of_true rfl fails
  | refused => exact iff_of_false nofun nofun
  | accepted => exact iff_of_false nofun nofun
  | identified known =>
      exact iff_of_false nofun fun fails => Option.some_ne_none _ (known.symm.trans fails)
  | ready known =>
      exact iff_of_false nofun fun fails => Option.some_ne_none _ (known.symm.trans fails)
  | waits round known =>
      exact iff_of_false nofun fun fails => Option.some_ne_none _ (known.symm.trans fails)
  | repeats round => exact iff_of_false nofun id
  | exhausted => exact iff_of_false nofun id

end ValidateCall

/-! ## What the page shows -/

/-- The page shows the document of a call and what it received, and is busy until the call
returns. -/
structure Page.Shows (page : Page) (call : ValidateCall) : Prop where
  docId : page.docId = call.documentId
  result : page.result = none ∨ page.result = call.latest ∧ call.suspension = .returned
  free : page.busy = false ↔ call.suspension = .returned

theorem Page.Shows.resume {page : Page} {call next : ValidateCall} {settled : Settlement}
    {writes : List Write} (shown : page.Shows call) (running : call.Running)
    (resumes : call.Resumes true settled writes next) :
    (writes.foldl Page.apply page).Shows next := by
  have noResult : page.result = none := shown.result.resolve_right fun received =>
    running.1 received.2
  have busy : page.busy = true := by
    rw [← Bool.not_eq_false, shown.free]
    exact running.1
  cases resumes with
  | throws latest fails =>
      exact ⟨shown.docId, Or.inl noResult, iff_of_false (by simp [busy]) nofun⟩
  | refused => exact ⟨shown.docId, Or.inl noResult, iff_of_true rfl rfl⟩
  | accepted => exact ⟨shown.docId, Or.inl noResult, iff_of_false (by simp [busy]) nofun⟩
  | identified known =>
      exact ⟨rfl, Or.inl noResult, iff_of_false (by simp [Page.apply, busy]) nofun⟩
  | ready known => exact ⟨shown.docId, Or.inr ⟨rfl, rfl⟩, iff_of_true rfl rfl⟩
  | waits round known =>
      exact ⟨shown.docId, Or.inl noResult, iff_of_false (by simp [Page.apply, busy]) nofun⟩
  | repeats round =>
      exact ⟨shown.docId, Or.inl noResult, iff_of_false (by simp [busy]) nofun⟩
  | exhausted => exact ⟨shown.docId, Or.inl noResult, iff_of_true rfl rfl⟩

/-- The page shows the call that was started last, or nothing yet. -/
def Browser.ShowsLast (state : Browser) : Prop :=
  match state.calls state.started with
  | some call => state.page.Shows call
  | none => state.started = 0 ∧ state.page.busy = false ∧ state.page.result = none ∧
      state.page.docId = none

/-- Every call has the token of its number, and the page shows the last one. -/
structure Browser.Ordered (state : Browser) : Prop where
  token : state.runToken = state.started
  calls : ∀ caller call, state.calls caller = some call →
    call.myToken = caller ∧ caller ≤ state.started
  shown : state.ShowsLast

/-- Every write of a step is made by the call that was started last. -/
def WrittenByLast (before : Browser) (label : BrowserStep) (after : Browser) : Prop :=
  ∀ writes caller call, before.segment label = some (writes, caller, call) → writes ≠ [] →
    caller = after.started

variable {before after : Browser} {label : BrowserStep}

theorem Browser.ordered_of_initial (initial : browser.initial before) : before.Ordered := by
  rcases initial with ⟨busy, result, docId, token, started, none⟩
  refine ⟨token.trans started.symm, fun caller call present => ?_, ?_⟩
  · rw [none caller] at present
    cases present
  · rw [ShowsLast, none before.started]
    exact ⟨started, busy, result, docId⟩

theorem Browser.Ordered.start (ordered : before.Ordered)
    (taken : browser.step before .start = some after) :
    after.Ordered ∧ WrittenByLast before .start after := by
  cases taken
  refine ⟨⟨congrArg (· + 1) ordered.token, fun caller call present => ?_, ?_⟩, ?_⟩
  · dsimp only at present ⊢
    rw [Function.update_apply] at present
    split_ifs at present with newest
    · cases present
      exact ⟨newest ▸ congrArg (· + 1) ordered.token, newest.le⟩
    · rcases ordered.calls caller call present with ⟨token, number⟩
      exact ⟨token, by omega⟩
  · simp only [ShowsLast, Function.update_self]
    exact ⟨rfl, Or.inl rfl, iff_of_false nofun nofun⟩
  · intro writes caller call made _
    cases made
    rfl

/-- A step of a call, and the segment that it runs. -/
theorem Browser.exists_resumed {caller : ℕ} {settled : Settlement}
    (taken : browser.step before (.settle caller settled) = some after) :
    ∃ call writes next, before.calls caller = some call ∧
      call.resume (before.runToken == call.myToken) settled = some (writes, next) ∧
      before.segment (.settle caller settled) = some (writes, caller, next) ∧
      after = { before with
        page := writes.foldl Page.apply before.page
        calls := Function.update before.calls caller (some next) } := by
  rcases Option.map_eq_some_iff.mp taken with ⟨⟨writes, number, next⟩, segment, rfl⟩
  rcases Option.bind_eq_some_iff.mp segment with ⟨call, present, mapped⟩
  rcases Option.map_eq_some_iff.mp mapped with ⟨⟨made, resumption⟩, resumed, same⟩
  cases same
  exact ⟨call, made, resumption, present, resumed, segment, rfl⟩

/-- A call finds its own token exactly if no other call was started after it. -/
theorem Browser.Ordered.current_eq {caller : ℕ} {call : ValidateCall} (ordered : before.Ordered)
    (present : before.calls caller = some call) :
    (before.runToken == call.myToken) = decide (caller = before.started) := by
  rw [ordered.token, (ordered.calls caller call present).1, Bool.eq_iff_iff, beq_iff_eq,
    decide_eq_true_eq]
  exact eq_comm

theorem Browser.Ordered.settle {caller : ℕ} {settled : Settlement} (ordered : before.Ordered)
    (taken : browser.step before (.settle caller settled) = some after) :
    after.Ordered ∧ WrittenByLast before (.settle caller settled) after := by
  rcases exists_resumed taken with ⟨call, writes, next, present, resumed, segment, rfl⟩
  rcases ValidateCall.resumes_of_resume resumed with ⟨running, resumes⟩
  rcases ordered.calls caller call present with ⟨token, number⟩
  have calls : ∀ other call', Function.update before.calls caller (some next) other =
      some call' → call'.myToken = other ∧ other ≤ before.started := by
    intro other call' found
    rw [Function.update_apply] at found
    split_ifs at found with same
    · cases found
      exact ⟨by rw [resumes.myToken, token, same], by omega⟩
    · exact ordered.calls other call' found
  by_cases last : caller = before.started
  · rw [ordered.current_eq present, decide_eq_true last] at resumes
    have shown := ordered.shown
    rw [ShowsLast, ← last, present] at shown
    refine ⟨⟨ordered.token, calls, ?_⟩, fun _ _ _ made _ => ?_⟩
    · simp only [ShowsLast, ← last, Function.update_self]
      exact shown.resume running resumes
    · rw [segment] at made
      cases made
      exact last
  · rw [ordered.current_eq present, decide_eq_false last] at resumes
    have silent := resumes.silent
    refine ⟨⟨ordered.token, calls, ?_⟩, fun _ _ _ made written => ?_⟩
    · have shown := ordered.shown
      simp only [ShowsLast, Function.update_of_ne (Ne.symm last), silent] at shown ⊢
      exact shown
    · rw [segment] at made
      cases made
      exact absurd silent written

theorem Browser.Ordered.step (ordered : before.Ordered)
    (taken : browser.step before label = some after) :
    after.Ordered ∧ WrittenByLast before label after := by
  cases label with
  | start => exact ordered.start taken
  | settle caller settled => exact ordered.settle taken

/-- What the page shows belongs to the call that was started last: the id is the one its
upload got, and the result the one it received. -/
structure BelongsToLast (state : Browser) : Prop where
  docId : ∀ id, state.page.docId = some id →
    ∃ call, state.calls state.started = some call ∧ call.documentId = some id
  result : ∀ value, state.page.result = some value →
    ∃ call, state.calls state.started = some call ∧ call.latest = some value ∧
      call.documentId = state.page.docId

theorem Browser.Ordered.belongsToLast (ordered : before.Ordered) : BelongsToLast before := by
  have shown := ordered.shown
  rw [ShowsLast] at shown
  split at shown
  · next call present =>
      refine ⟨fun id known => ⟨call, present, shown.docId.symm.trans known⟩,
        fun value known => ⟨call, present, ?_, shown.docId.symm⟩⟩
      rcases shown.result with none | received
      · rw [none] at known
        cases known
      · exact received.1.symm.trans known
  · rcases shown with ⟨_, _, noResult, noId⟩
    refine ⟨fun id known => ?_, fun value known => ?_⟩
    · rw [noId] at known
      cases known
    · rw [noResult] at known
      cases known

/-- Whatever calls are started and however their promises settle, every write is made by the
call that was started last, and what the page shows belongs to it. -/
theorem writtenByLast_of_executes {labels : List BrowserStep}
    (initial : browser.initial before) (execution : browser.Executes before labels after) :
    browser.Execution WrittenByLast before labels after ∧ BelongsToLast after := by
  have transferred := execution.transfer Browser.Ordered
    (fun ordered taken _ => ordered.step taken) (Browser.ordered_of_initial initial)
  exact ⟨transferred.2, transferred.1.belongsToLast⟩

/-- The page before anything is uploaded. -/
def opened : Browser := ⟨⟨false, [], none, none⟩, 0, 0, fun _ => none⟩

theorem initial_opened : browser.initial opened :=
  ⟨rfl, rfl, rfl, rfl, rfl, fun _ => rfl⟩

/-- Two uploads that overlap: the first is answered when the second has been started. -/
def overlapping : List BrowserStep :=
  [.start, .start, .settle 1 (.response (some true)), .settle 2 (.response (some false))]

theorem writtenByLast_overlapping :
    ∃ after, browser.Execution WrittenByLast opened overlapping after ∧ BelongsToLast after :=
  ⟨_, writtenByLast_of_executes initial_opened (executes_of_execute rfl)⟩

/-! ## Whether the page is busy in the end -/

/-- A call ended by an exception. -/
def Browser.Threw (state : Browser) (caller : ℕ) : Prop :=
  ∃ call, state.calls caller = some call ∧ call.suspension = .thrown

/-- Every call that was started has returned or thrown. -/
def Browser.Quiet (state : Browser) : Prop :=
  ∀ caller call, state.calls caller = some call → ¬call.Running

theorem started_le (taken : browser.step before label = some after) :
    before.started ≤ after.started := by
  rcases Option.map_eq_some_iff.mp taken with ⟨made, _, rfl⟩
  cases label with
  | start => exact Nat.le_succ _
  | settle caller settled => exact le_rfl

theorem Browser.Ordered.threw_start {last : ℕ} (ordered : before.Ordered)
    (taken : browser.step before .start = some after) : after.Threw last ↔ before.Threw last := by
  cases taken
  by_cases newest : last = before.started + 1
  · rw [newest]
    refine iff_of_false ?_ ?_
    · rintro ⟨call, made, thrown⟩
      dsimp only at made
      rw [Function.update_self, Option.some.injEq] at made
      rw [← made] at thrown
      cases thrown
    · rintro ⟨call, present, _⟩
      have number := (ordered.calls _ call present).2
      omega
  · simp only [Threw, Function.update_of_ne newest]

/-- The last call throws exactly where something that it waits for fails. -/
theorem Browser.Ordered.threw_settle {last caller : ℕ} {settled : Settlement}
    (ordered : before.Ordered) (bound : before.started ≤ last)
    (taken : browser.step before (.settle caller settled) = some after) :
    after.Threw last ↔ before.Threw last ∨ (caller = last ∧ settled.Fails) := by
  rcases exists_resumed taken with ⟨call, writes, next, present, resumed, _, rfl⟩
  rcases ValidateCall.resumes_of_resume resumed with ⟨running, resumes⟩
  have number := (ordered.calls caller call present).2
  by_cases same : caller = last
  · subst same
    have newest : caller = before.started := by omega
    rw [ordered.current_eq present, decide_eq_true newest] at resumes
    have alive : ¬before.Threw caller := by
      rintro ⟨other, found, ended⟩
      rw [present, Option.some.injEq] at found
      exact running.2 (found ▸ ended)
    simp only [alive, false_or, true_and, ← resumes.thrown_iff]
    simp [Threw]
  · simp only [Threw, Function.update_of_ne (Ne.symm same), same, false_and, or_false]

theorem started_le_of_executes {labels : List BrowserStep}
    (execution : browser.Executes before labels after) : before.started ≤ after.started := by
  induction execution with
  | refl state => exact le_rfl
  | step taken _ rest ih => exact (started_le taken).trans ih

theorem threw_iff_of_executes {labels : List BrowserStep} (ordered : before.Ordered)
    (execution : browser.Executes before labels after) :
    after.Threw after.started ↔ before.Threw after.started ∨
      ∃ settled, .settle after.started settled ∈ labels ∧ settled.Fails := by
  induction execution with
  | refl state => simp
  | @step before next after label labels taken _ rest ih =>
      have bound := (started_le taken).trans (started_le_of_executes rest)
      rw [ih (ordered.step taken).1]
      cases label with
      | start => simp only [ordered.threw_start taken, List.mem_cons, reduceCtorEq, false_or]
      | settle caller settled =>
          have here : (∃ x, (after.started = caller ∧ x = settled) ∧ x.Fails) ↔
              caller = after.started ∧ settled.Fails := by
            constructor
            · rintro ⟨x, ⟨same, rfl⟩, fails⟩
              exact ⟨same.symm, fails⟩
            · rintro ⟨same, fails⟩
              exact ⟨settled, ⟨same.symm, rfl⟩, fails⟩
          simp only [ordered.threw_settle bound taken, List.mem_cons, BrowserStep.settle.injEq,
            or_and_right, exists_or, or_assoc, here]

/-- Once every call has ended, the page is free exactly if nothing that the last call waited
for failed. -/
theorem free_iff {labels : List BrowserStep} (initial : browser.initial before)
    (execution : browser.Executes before labels after) (quiet : after.Quiet) :
    after.page.busy = false ↔
      ∀ settled, .settle after.started settled ∈ labels → ¬settled.Fails := by
  have ordered := Browser.ordered_of_initial initial
  have unthrown : ¬before.Threw after.started := by
    rintro ⟨call, present, _⟩
    rw [initial.2.2.2.2.2 after.started] at present
    cases present
  have threw := threw_iff_of_executes ordered execution
  rw [or_iff_right unthrown] at threw
  have failed : (∀ settled, .settle after.started settled ∈ labels → ¬settled.Fails) ↔
      ¬after.Threw after.started := by
    rw [threw]
    simp only [not_exists, not_and]
  rw [failed]
  have shown := (execution.transfer Browser.Ordered
    (fun ordered taken _ => ordered.step taken) ordered).1.shown
  rw [Browser.ShowsLast] at shown
  split at shown
  · next call present =>
      have done := quiet _ call present
      rw [shown.free]
      constructor
      · rintro returned ⟨other, found, thrown⟩
        rw [present, Option.some.injEq] at found
        rw [found, thrown] at returned
        cases returned
      · intro unthrown
        by_contra stays
        exact done ⟨stays, fun thrown => unthrown ⟨call, present, thrown⟩⟩
  · next none =>
      refine iff_of_true shown.2.1 ?_
      rintro ⟨call, present, _⟩
      rw [none] at present
      cases present

theorem free_overlapping :
    ∃ after, browser.Executes opened overlapping after ∧ after.page.busy = false := by
  have executes : browser.Executes opened overlapping _ := executes_of_execute rfl
  refine ⟨_, executes, (free_iff initial_opened executes ?_).mpr ?_⟩
  · intro caller call present running
    by_cases second : caller = 2
    · subst second
      cases present
      exact running.1 rfl
    · by_cases first : caller = 1
      · subst first
        cases present
        exact running.1 rfl
      · simp [Function.update_of_ne, first, second, opened] at present
  · intro settled member fails
    have answered : settled = .response (some false) := by
      simpa [overlapping, opened] using member
    rw [answered] at fails
    cases fails

/-- A call whose upload is rejected ends, and leaves the page busy. -/
theorem busy_of_rejected :
    ¬∀ (before after : Browser) (labels : List BrowserStep), browser.initial before →
      browser.Executes before labels after → after.Quiet → after.page.busy = false := by
  intro free
  have busy := free opened _ [.start, .settle 1 (.response none)] initial_opened
    (executes_of_execute rfl) ?_
  · cases busy
  · intro caller call present running
    by_cases first : caller = 1
    · subst first
      cases present
      exact running.2 rfl
    · simp [Function.update_of_ne, first, opened] at present

end OrcaValidator
