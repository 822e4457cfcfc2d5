import Mathlib.Data.Finset.Card
import Mathlib.Data.List.Perm.Subperm
import OrcaValidator.Api.Documents
import OrcaValidator.Library.Transition

/-!
# The visit log

`record_visit` appends to the log, and `list_visits` reads it with four statements, each of
which sees what is committed at that time.  The visits are dated when they are inserted and
appear when they are committed, so that the newest of them need not be the last.

What a listing shows lies between the log as it was when it was asked for and the log as it is
now, figure by figure.
-/

namespace OrcaValidator

open Library System

/-! ## The key -/

/-- The answer to a request without the API key. -/
def unauthorized : PyException := httpException 401 "invalid or missing API key".toList

/-- `secrets.compare_digest` takes no other strings. -/
def nonAscii : PyException :=
  ⟨"TypeError".toList,
    "comparing strings with non-ASCII characters is not supported".toList⟩

/-- `require_api_key`. -/
def requireApiKey (apiKey authorization : Text) : Except PyException Text :=
  let expected := "Bearer ".toList ++ apiKey
  if authorization = [] then .error unauthorized
  else if ¬(authorization ++ expected).all fun char => decide (char.toNat < 128) then
    .error nonAscii
  else if authorization = expected then .ok "api-key-subject".toList
  else .error unauthorized

theorem authorization_eq {apiKey authorization subject : Text}
    (passes : requireApiKey apiKey authorization = .ok subject) :
    authorization = "Bearer ".toList ++ apiKey := by
  unfold requireApiKey at passes
  dsimp only at passes
  split at passes
  · cases passes
  · split at passes
    · cases passes
    · split at passes
      · assumption
      · cases passes

/-! ## Visits -/

/-- The body of `POST /visits`. -/
structure VisitIn where
  ip : Text
  path : Text
  userAgent : Option Text

/-- A row of `visits`. -/
structure Visit where
  ip : Text
  path : Text
  userAgent : Option Text
  /-- The time on the clock of the database. -/
  hitAt : ℕ
  deriving DecidableEq

/-- `APP_PATHS`. -/
def appPaths : List Text :=
  ["/".toList, "/privacy".toList, "/tos".toList, "/visits".toList]

/-- The row that `record_visit` adds. -/
def recordedVisit (body : VisitIn) (now : ℕ) : Visit where
  ip := body.ip.take 64
  path := (if body.path = [] then "/".toList else body.path).take 512
  userAgent :=
    let agent := (body.userAgent.getD []).take 512
    if agent = [] then none else some agent
  hitAt := now

/-- The visit fits the columns of the table. -/
structure Visit.Fits (visit : Visit) : Prop where
  ip : visit.ip.length ≤ 64
  path : visit.path.length ≤ 512
  someplace : visit.path ≠ []
  userAgent : ∀ agent ∈ visit.userAgent, agent ≠ [] ∧ agent.length ≤ 512

theorem fits_recordedVisit (body : VisitIn) (now : ℕ) : (recordedVisit body now).Fits where
  ip := List.length_take_le ..
  path := List.length_take_le ..
  someplace := by
    have here : (if body.path = [] then "/".toList else body.path) ≠ [] := by
      split
      · decide
      · assumption
    simpa only [recordedVisit, ne_eq, List.take_eq_nil_iff, not_or] using ⟨by decide, here⟩
  userAgent := by
    intro agent present
    simp only [recordedVisit] at present
    split at present
    · cases present
    · next proper =>
        cases present
        exact ⟨proper, List.length_take_le ..⟩

/-- The parameters of `GET /visits`. -/
structure VisitQuery where
  limit : ℤ
  appOnly : Bool

/-- `max(1, min(5000, limit))`. -/
def clampLimit (limit : ℤ) : ℕ := (max 1 (min 5000 limit)).toNat

/-- The visit is one of the pages of the application. -/
def Visit.isApp (visit : Visit) : Bool := visit.path ∈ appPaths

/-- The visit is in the query, not only in the view. -/
def VisitQuery.selects (query : VisitQuery) (visit : Visit) : Bool :=
  !query.appOnly || visit.isApp

/-- The body of the response to `GET /visits`. -/
structure VisitsResponse where
  total : ℕ
  appTotal : ℕ
  uniqueIps : ℕ
  appOnly : Bool
  showing : ℕ
  visits : List Visit

/-- `count(distinct ip)`. -/
def uniqueIps (visits : List Visit) : ℕ := (visits.map Visit.ip).dedup.length

/-! ## The statements of the requests -/

/-- Where a request is, with what it has read. -/
inductive VisitRequest where
  | unasked
  | raised (error : PyException)
  | inserting (visit : Visit)
  | recorded (visit : Visit)
  | asked (query : VisitQuery)
  | readRows (query : VisitQuery) (rows : List Visit)
  | readTotal (query : VisitQuery) (rows : List Visit) (total : ℕ)
  | readAppTotal (query : VisitQuery) (rows : List Visit) (total appTotal : ℕ)
  | answered (query : VisitQuery) (response : VisitsResponse)

/-- The clock, the statements of `record_visit` and those of `list_visits`. -/
inductive VisitStep (Request : Type) where
  | tick
  | post (request : Request) (authorization : Text) (body : VisitIn)
  | commit (request : Request)
  | fail (request : Request) (error : PyException)
  | get (request : Request) (authorization : Text) (query : VisitQuery)
  /-- `ORDER BY hit_at DESC` does not say in which order visits of the same time come. -/
  | select (request : Request) (ordered : List Visit)
  | count (request : Request)

/-- The clock of the database, its visits and the requests. -/
structure VisitLog (Request : Type) where
  now : ℕ
  /-- The rows, in the order of their commits. -/
  visits : List Visit
  requests : Request → VisitRequest

/-- The rows of the query with the newest first. -/
def VisitQuery.Ordered (query : VisitQuery) (log ordered : List Visit) : Prop :=
  ordered.Perm (log.filter query.selects) ∧ ordered.Pairwise fun one other => other.hitAt ≤ one.hitAt

instance (query : VisitQuery) (log ordered : List Visit) :
    Decidable (query.Ordered log ordered) :=
  inferInstanceAs (Decidable (_ ∧ _))

/-- The next count of a listing. -/
def VisitRequest.next (log : List Visit) : VisitRequest → Option VisitRequest
  | readRows query rows => some (readTotal query rows log.length)
  | readTotal query rows total => some (readAppTotal query rows total (log.countP Visit.isApp))
  | readAppTotal query rows total appTotal => some (answered query
      ⟨total, appTotal, uniqueIps log, query.appOnly, rows.length, rows⟩)
  | _ => none

namespace VisitLog

variable {Request : Type} [DecidableEq Request]

/-- Where the request is now. -/
def setRequest (log : VisitLog Request) (request : Request) (stage : VisitRequest) :
    VisitLog Request :=
  { log with requests := Function.update log.requests request stage }

/-- One step.  Each statement of a listing sees the visits that are committed by then. -/
def step (apiKey : Text) (log : VisitLog Request) :
    VisitStep Request → Option (VisitLog Request)
  | .tick => some { log with now := log.now + 1 }
  | .post request authorization body =>
      match log.requests request with
      | .unasked => some (log.setRequest request
          (match requireApiKey apiKey authorization with
          | .error error => .raised error
          | .ok _ => .inserting (recordedVisit body log.now)))
      | _ => none
  | .commit request =>
      match log.requests request with
      | .inserting visit =>
          some { log.setRequest request (.recorded visit) with visits := log.visits ++ [visit] }
      | _ => none
  | .fail request error =>
      match log.requests request with
      | .inserting _ => some (log.setRequest request (.raised error))
      | _ => none
  | .get request authorization query =>
      match log.requests request with
      | .unasked => some (log.setRequest request
          (match requireApiKey apiKey authorization with
          | .error error => .raised error
          | .ok _ => .asked query))
      | _ => none
  | .select request ordered =>
      match log.requests request with
      | .asked query =>
          if query.Ordered log.visits ordered then
            some (log.setRequest request
              (.readRows query (ordered.take (clampLimit query.limit))))
          else none
      | _ => none
  | .count request => ((log.requests request).next log.visits).map (log.setRequest request)

/-- Nobody has visited and nothing has been asked. -/
def Blank (log : VisitLog Request) : Prop :=
  log.visits = [] ∧ ∀ request, log.requests request = .unasked

variable (Request) in
/-- The log of visits, empty at first. -/
def system (apiKey : Text) : System (VisitLog Request) (VisitStep Request) where
  initial := Blank
  step := step apiKey

end VisitLog

/-! ## What a listing has read -/

/-- The rows are those that the query shows of the log. -/
def VisitQuery.Shows (query : VisitQuery) (log rows : List Visit) : Prop :=
  ∃ ordered, query.Ordered log ordered ∧ rows = ordered.take (clampLimit query.limit)

/-- What the request has read of the log, which has grown since the request came. -/
def VisitRequest.Reads (before : List Visit) (query : VisitQuery) (log : List Visit) :
    VisitRequest → Prop
  | asked same => same = query ∧ before <+: log
  | readRows same rows => same = query ∧ ∃ first, before <+: first ∧ first <+: log ∧
      query.Shows first rows
  | readTotal same rows total => same = query ∧ ∃ first second, before <+: first ∧
      first <+: second ∧ second <+: log ∧ query.Shows first rows ∧ total = second.length
  | readAppTotal same rows total appTotal => same = query ∧ ∃ first second third,
      before <+: first ∧ first <+: second ∧ second <+: third ∧ third <+: log ∧
        query.Shows first rows ∧ total = second.length ∧ appTotal = third.countP Visit.isApp
  | answered same response => same = query ∧ ∃ first second third fourth,
      before <+: first ∧ first <+: second ∧ second <+: third ∧ third <+: fourth ∧
        fourth <+: log ∧ query.Shows first response.visits ∧ response.total = second.length ∧
        response.appTotal = third.countP Visit.isApp ∧ response.uniqueIps = uniqueIps fourth ∧
        response.appOnly = query.appOnly ∧ response.showing = response.visits.length
  | _ => False

/-- The request is no listing. -/
def VisitRequest.Posts : VisitRequest → Prop
  | raised _ | inserting _ | recorded _ => True
  | _ => False

variable {before log after : List Visit} {query : VisitQuery} {request counted : VisitRequest}

/-- The log may go on growing. -/
theorem VisitRequest.Reads.grow (reads : request.Reads before query log) (grows : log <+: after) :
    request.Reads before query after := by
  cases request with
  | asked same => exact ⟨reads.1, reads.2.trans grows⟩
  | readRows same rows =>
      rcases reads with ⟨same, first, begins, ends, rest⟩
      exact ⟨same, first, begins, ends.trans grows, rest⟩
  | readTotal same rows total =>
      rcases reads with ⟨same, first, second, begins, later, ends, rest⟩
      exact ⟨same, first, second, begins, later, ends.trans grows, rest⟩
  | readAppTotal same rows total appTotal =>
      rcases reads with ⟨same, first, second, third, begins, later, later', ends, rest⟩
      exact ⟨same, first, second, third, begins, later, later', ends.trans grows, rest⟩
  | answered same response =>
      rcases reads with ⟨same, first, second, third, fourth, begins, later, later', later'', ends,
        rest⟩
      exact ⟨same, first, second, third, fourth, begins, later, later', later'',
        ends.trans grows, rest⟩
  | unasked => exact reads
  | raised error => exact reads
  | inserting visit => exact reads
  | recorded visit => exact reads

/-- The rows are read of the log as it is. -/
theorem VisitRequest.Reads.select {same : VisitQuery} {ordered : List Visit}
    (reads : (asked same).Reads before query log) (isOrdered : same.Ordered log ordered) :
    (readRows same (ordered.take (clampLimit same.limit))).Reads before query log := by
  obtain ⟨rfl, begins⟩ := reads
  exact ⟨rfl, log, begins, List.prefix_refl log, ordered, isOrdered, rfl⟩

/-- Each count is one of the log as it is. -/
theorem VisitRequest.Reads.next (reads : request.Reads before query log)
    (counts : request.next log = some counted) : counted.Reads before query log := by
  have now := List.prefix_refl log
  cases request with
  | readRows same rows =>
      cases counts
      rcases reads with ⟨same, first, begins, ends, shows⟩
      exact ⟨same, first, log, begins, ends, now, shows, rfl⟩
  | readTotal same rows total =>
      cases counts
      rcases reads with ⟨same, first, second, begins, later, ends, shows, isTotal⟩
      exact ⟨same, first, second, log, begins, later, ends, now, shows, isTotal, rfl⟩
  | readAppTotal same rows total appTotal =>
      cases counts
      rcases reads with ⟨rfl, first, second, third, begins, later, later', ends, shows, isTotal,
        isAppTotal⟩
      exact ⟨rfl, first, second, third, log, begins, later, later', ends, now, shows, isTotal,
        isAppTotal, rfl, rfl, rfl⟩
  | unasked => cases counts
  | raised error => cases counts
  | inserting visit => cases counts
  | recorded visit => cases counts
  | asked same => cases counts
  | answered same response => cases counts

/-- What a listing says of a log that was `before` when it was asked for and is `after` now. -/
structure ListingFaithful (before after : List Visit) (query : VisitQuery)
    (response : VisitsResponse) : Prop where
  showing : response.showing = response.visits.length
  limited : response.showing ≤ clampLimit query.limit
  counted : response.showing ≤ if query.appOnly then response.appTotal else response.total
  shown : response.visits.Subperm (after.filter query.selects)
  sorted : response.visits.Pairwise fun one other => other.hitAt ≤ one.hitAt
  /-- A visit is shown as often as it was there, or the listing is full of visits that are as
  new. -/
  newest : ∀ visit, query.selects visit → before.count visit ≤ response.visits.count visit ∨
    (response.showing = clampLimit query.limit ∧
      ∀ shown ∈ response.visits, visit.hitAt ≤ shown.hitAt)
  total : before.length ≤ response.total ∧ response.total ≤ after.length
  appTotal : before.countP Visit.isApp ≤ response.appTotal ∧
    response.appTotal ≤ after.countP Visit.isApp
  uniqueIps : uniqueIps before ≤ response.uniqueIps ∧ response.uniqueIps ≤ uniqueIps after
  /-- The visits that the page calls probes are never too many. -/
  probes : response.total ≤ response.appTotal + after.countP fun visit => !visit.isApp

theorem uniqueIps_le (grows : log <+: after) : uniqueIps log ≤ uniqueIps after := by
  unfold uniqueIps
  rw [← List.card_toFinset, ← List.card_toFinset]
  refine Finset.card_le_card fun ip present => ?_
  rw [List.mem_toFinset] at present ⊢
  exact (List.map_subset _ grows.subset) present

theorem countP_le (grows : log <+: after) (kind : Visit → Bool) :
    log.countP kind ≤ after.countP kind := grows.sublist.countP_le

/-- A visit that is selected is shown as often as it is there, or the list is full of visits
that are as new. -/
theorem VisitQuery.Shows.newest {rows : List Visit} (shows : query.Shows log rows) {visit : Visit}
    (selected : query.selects visit) :
    log.count visit ≤ rows.count visit ∨ (rows.length = clampLimit query.limit ∧
      ∀ shown ∈ rows, visit.hitAt ≤ shown.hitAt) := by
  rcases shows with ⟨ordered, ⟨same, sorted⟩, rfl⟩
  have listed : ordered.count visit = log.count visit := by
    rw [same.count_eq, List.count_filter selected]
  rw [← List.take_append_drop (clampLimit query.limit) ordered, List.count_append] at listed
  rw [← List.take_append_drop (clampLimit query.limit) ordered] at sorted
  by_cases hidden : visit ∈ ordered.drop (clampLimit query.limit)
  · refine .inr ⟨?_, fun other shown => (List.pairwise_append.mp sorted).2.2 other shown _ hidden⟩
    have more : 0 < (ordered.drop (clampLimit query.limit)).length :=
      List.length_pos_of_mem hidden
    rw [List.length_drop] at more
    rw [List.length_take]
    omega
  · rw [List.count_eq_zero_of_not_mem hidden] at listed
    exact .inl listed.ge

theorem VisitQuery.Shows.length_le {rows : List Visit} (shows : query.Shows log rows) :
    rows.length ≤ clampLimit query.limit ∧ rows.length ≤ log.countP query.selects := by
  rcases shows with ⟨ordered, ⟨same, _⟩, rfl⟩
  rw [List.length_take, List.countP_eq_length_filter, ← same.length_eq]
  exact ⟨Nat.min_le_left .., Nat.min_le_right ..⟩

theorem VisitRequest.Reads.faithful {response : VisitsResponse}
    (reads : (answered query response).Reads before query log) :
    ListingFaithful before log query response := by
  rcases reads with ⟨_, first, second, third, fourth, begins, later, later', later'', ends, shows,
    total, appTotal, unique, appOnly, showing⟩
  have secondLog : second <+: log := later'.trans (later''.trans ends)
  have lengths := shows.length_le
  refine ⟨showing, showing ▸ lengths.1, ?_, ?_, ?_, ?_, ?_, ?_, ?_, ?_⟩
  · rw [showing]
    refine lengths.2.trans ?_
    by_cases only : query.appOnly = true
    · have same : query.selects = Visit.isApp := by
        funext visit
        simp [VisitQuery.selects, only]
      rw [if_pos only, same, appTotal]
      exact countP_le (later.trans later') _
    · rw [if_neg only, total]
      exact List.countP_le_length.trans later.length_le
  · rcases shows with ⟨ordered, ⟨same, _⟩, rows⟩
    rw [rows]
    have grown : (first.filter query.selects).Sublist (log.filter query.selects) :=
      (later.trans secondLog).sublist.filter _
    exact ((List.take_sublist _ _).subperm.trans same.subperm).trans grown.subperm
  · rcases shows with ⟨ordered, ⟨_, sorted⟩, rows⟩
    rw [rows]
    exact sorted.sublist (List.take_sublist _ _)
  · intro visit selected
    rw [showing]
    exact (shows.newest selected).imp_left ((begins.sublist.count_le visit).trans ·)
  · rw [total]
    exact ⟨(begins.trans later).length_le, secondLog.length_le⟩
  · rw [appTotal]
    exact ⟨countP_le (begins.trans (later.trans later')) _, countP_le (later''.trans ends) _⟩
  · rw [unique]
    exact ⟨uniqueIps_le (begins.trans (later.trans (later'.trans later''))), uniqueIps_le ends⟩
  · have apps := countP_le later' Visit.isApp
    have probes := countP_le secondLog fun visit => !visit.isApp
    have both : second.length = second.countP Visit.isApp +
        second.countP fun visit => !visit.isApp := by
      rw [List.length_eq_countP_add_countP Visit.isApp]
      simp
    omega

/-! ## The steps -/

section Steps

variable {Request : Type} {apiKey : Text}

/-- What a step does with one of the requests, and with the log. -/
inductive Turn (apiKey : Text) (log : VisitLog Request) (label : VisitStep Request)
    (request : Request) : VisitRequest → VisitRequest → List Visit → Prop
  | raises {stage : VisitRequest} (error : PyException)
      (unread : stage = .unasked ∨ ∃ visit, stage = .inserting visit) :
      Turn apiKey log label request stage (.raised error) log.visits
  | inserts (body : VisitIn) :
      Turn apiKey log label request .unasked (.inserting (recordedVisit body log.now)) log.visits
  | commits (visit : Visit) :
      Turn apiKey log label request (.inserting visit) (.recorded visit) (log.visits ++ [visit])
  | asks {authorization subject : Text} {query : VisitQuery}
      (isGet : label = .get request authorization query)
      (passes : requireApiKey apiKey authorization = .ok subject) :
      Turn apiKey log label request .unasked (.asked query) log.visits
  | selects (query : VisitQuery) (ordered : List Visit)
      (isOrdered : query.Ordered log.visits ordered) :
      Turn apiKey log label request (.asked query)
        (.readRows query (ordered.take (clampLimit query.limit))) log.visits
  | counts {stage counted : VisitRequest} (next : stage.next log.visits = some counted) :
      Turn apiKey log label request stage counted log.visits

variable [DecidableEq Request] {log next : VisitLog Request} {label : VisitStep Request}

namespace VisitLog

/-- A step is the turn of one request, unless only time passes. -/
theorem turn_of_step (taken : VisitLog.step apiKey log label = some next) :
    (next.requests = log.requests ∧ next.visits = log.visits) ∨ ∃ request stage,
      Turn apiKey log label request (log.requests request) stage next.visits ∧
        next.requests = Function.update log.requests request stage := by
  cases label with
  | tick =>
      cases taken
      exact .inl ⟨rfl, rfl⟩
  | post request authorization body =>
      rw [VisitLog.step] at taken
      split at taken
      · next unasked =>
          cases taken
          refine .inr ⟨request, _, ?_, rfl⟩
          rw [unasked]
          split
          · exact .raises _ (.inl rfl)
          · exact .inserts body
      · cases taken
  | commit request =>
      rw [VisitLog.step] at taken
      split at taken
      · next visit inserting =>
          cases taken
          refine .inr ⟨request, _, ?_, rfl⟩
          rw [inserting]
          exact .commits visit
      · cases taken
  | fail request error =>
      rw [VisitLog.step] at taken
      split at taken
      · next visit inserting =>
          cases taken
          exact .inr ⟨request, _, .raises error (.inr ⟨visit, inserting⟩), rfl⟩
      · cases taken
  | get request authorization query =>
      rw [VisitLog.step] at taken
      split at taken
      · next unasked =>
          cases taken
          refine .inr ⟨request, _, ?_, rfl⟩
          rw [unasked]
          split
          · exact .raises _ (.inl rfl)
          · next passes => exact .asks rfl passes
      · cases taken
  | select request ordered =>
      rw [VisitLog.step] at taken
      split at taken
      · next query asked =>
          split at taken
          · next isOrdered =>
              cases taken
              refine .inr ⟨request, _, ?_, rfl⟩
              rw [asked]
              exact .selects query ordered isOrdered
          · cases taken
      · cases taken
  | count request =>
      rcases Option.map_eq_some_iff.mp taken with ⟨counted, counts, rfl⟩
      exact .inr ⟨request, counted, .counts counts, rfl⟩

variable {request : Request} {stage stage' : VisitRequest} {visits : List Visit}

omit [DecidableEq Request] in
/-- The log only grows. -/
theorem grows_of_turn (turn : Turn apiKey log label request stage stage' visits) :
    log.visits <+: visits := by
  cases turn with
  | commits visit => exact List.prefix_append ..
  | raises error unread => exact List.prefix_refl _
  | inserts body => exact List.prefix_refl _
  | asks isGet passes => exact List.prefix_refl _
  | selects query ordered isOrdered => exact List.prefix_refl _
  | counts next => exact List.prefix_refl _

omit [DecidableEq Request] in
/-- A listing goes on reading. -/
theorem reads_of_turn (turn : Turn apiKey log label request stage stage' visits)
    (reads : stage.Reads before query log.visits) : stage'.Reads before query visits := by
  cases turn with
  | raises error unread =>
      rcases unread with rfl | ⟨visit, rfl⟩
      · exact reads.elim
      · exact reads.elim
  | inserts body => exact reads.elim
  | commits visit => exact reads.elim
  | asks isGet passes => exact reads.elim
  | selects query ordered isOrdered => exact reads.select isOrdered
  | counts next => exact reads.next next

theorem reads_of_step (reads : (log.requests request).Reads before query log.visits)
    (taken : VisitLog.step apiKey log label = some next) :
    (next.requests request).Reads before query next.visits := by
  rcases turn_of_step taken with ⟨requests, visits⟩ | ⟨other, stage, turn, requests⟩
  · rwa [requests, visits]
  · rw [requests]
    by_cases same : request = other
    · subst same
      rw [Function.update_self]
      exact reads_of_turn turn reads
    · rw [Function.update_of_ne same]
      exact reads.grow (grows_of_turn turn)

/-- What is in the log or on its way there fits the table, and what has been acknowledged is in
the log. -/
structure Sound (log : VisitLog Request) : Prop where
  fits : ∀ visit ∈ log.visits, visit.Fits
  inserting : ∀ {request visit}, log.requests request = .inserting visit → visit.Fits
  recorded : ∀ {request visit}, log.requests request = .recorded visit → visit ∈ log.visits

omit [DecidableEq Request] in
theorem Blank.sound (blank : log.Blank) : log.Sound where
  fits := by
    rw [blank.1]
    exact fun _ none => absurd none List.not_mem_nil
  inserting := by
    intro request visit stage
    cases (blank.2 request).symm.trans stage
  recorded := by
    intro request visit stage
    cases (blank.2 request).symm.trans stage

omit [DecidableEq Request] in
theorem Sound.turn (sound : log.Sound)
    (turn : Turn apiKey log label request (log.requests request) stage' visits) :
    (∀ visit ∈ visits, visit.Fits) ∧ (∀ visit, stage' = .inserting visit → visit.Fits) ∧
      ∀ visit, stage' = .recorded visit → visit ∈ visits := by
  generalize found : log.requests request = stage at turn
  cases turn with
  | raises error unread => exact ⟨sound.fits, by rintro _ ⟨⟩, by rintro _ ⟨⟩⟩
  | inserts body =>
      refine ⟨sound.fits, ?_, by rintro _ ⟨⟩⟩
      rintro _ ⟨⟩
      exact fits_recordedVisit body log.now
  | commits visit =>
      refine ⟨?_, by rintro _ ⟨⟩, ?_⟩
      · exact List.forall_mem_append.mpr
          ⟨sound.fits, List.forall_mem_singleton.mpr (sound.inserting found)⟩
      · rintro _ ⟨⟩
        exact List.mem_append_right _ List.mem_cons_self
  | asks isGet passes => exact ⟨sound.fits, by rintro _ ⟨⟩, by rintro _ ⟨⟩⟩
  | selects query ordered isOrdered => exact ⟨sound.fits, by rintro _ ⟨⟩, by rintro _ ⟨⟩⟩
  | counts next =>
      refine ⟨sound.fits, ?_, ?_⟩
      · rintro visit rfl
        cases stage <;> cases next
      · rintro visit rfl
        cases stage <;> cases next

theorem Sound.step (sound : log.Sound) (taken : VisitLog.step apiKey log label = some next) :
    next.Sound := by
  rcases turn_of_step taken with ⟨requests, visits⟩ | ⟨request, stage, turn, requests⟩
  · refine ⟨?_, ?_, ?_⟩
    · rw [visits]
      exact sound.fits
    · rw [requests]
      exact sound.inserting
    · rw [requests, visits]
      exact sound.recorded
  · rcases sound.turn turn with ⟨fits, inserting, recorded⟩
    refine ⟨fits, ?_, ?_⟩
    · intro other visit at'
      rw [requests] at at'
      by_cases same : other = request
      · rw [same, Function.update_self] at at'
        exact inserting visit at'
      · rw [Function.update_of_ne same] at at'
        exact sound.inserting at'
    · intro other visit at'
      rw [requests] at at'
      by_cases same : other = request
      · rw [same, Function.update_self] at at'
        exact recorded visit at'
      · rw [Function.update_of_ne same] at at'
        exact (grows_of_turn turn).subset (sound.recorded at')

theorem posts_of_step (posts : (log.requests request).Posts)
    (taken : VisitLog.step apiKey log label = some next) : (next.requests request).Posts := by
  rcases turn_of_step taken with ⟨requests, _⟩ | ⟨other, stage, turn, requests⟩
  · rwa [requests]
  · rw [requests]
    by_cases same : request = other
    · subst same
      rw [Function.update_self]
      generalize log.requests request = old at turn posts
      generalize next.visits = visits at turn
      cases turn with
      | raises error unread => trivial
      | inserts body => trivial
      | commits visit => trivial
      | asks isGet passes => exact posts.elim
      | selects query ordered isOrdered => exact posts.elim
      | counts counts => cases old <;> first | exact posts.elim | cases counts
    · rwa [Function.update_of_ne same]

/-- An answered listing has been asked for, with the key, and has read on from there. -/
theorem exists_get {start reached : VisitLog Request} {labels : List (VisitStep Request)}
    {response : VisitsResponse} (executes : (system Request apiKey).Executes start labels reached)
    (unasked : start.requests request = .unasked)
    (answered : reached.requests request = .answered query response) :
    ∃ earlier later authorization before,
      labels = earlier ++ .get request authorization query :: later ∧
      (system Request apiKey).Executes start earlier before ∧
      authorization = "Bearer ".toList ++ apiKey ∧
      (reached.requests request).Reads before.visits query reached.visits := by
  induction executes with
  | refl state => cases unasked.symm.trans answered
  | @step start next reached label labels taken _ rest ih =>
      have again (still : next.requests request = .unasked) : ∃ earlier later authorization before,
          label :: labels = earlier ++ .get request authorization query :: later ∧
          (system Request apiKey).Executes start earlier before ∧
          authorization = "Bearer ".toList ++ apiKey ∧
          (reached.requests request).Reads before.visits query reached.visits := by
        rcases ih still answered with ⟨earlier, later, authorization, before, split, first, others⟩
        exact ⟨label :: earlier, later, authorization, before, by rw [split]; rfl,
          .step taken trivial first, others⟩
      have never (posts : (next.requests request).Posts) : False := by
        have ends := rest.keeps (fun state => (state.requests request).Posts)
          (fun posts taken => posts_of_step posts taken) posts
        rw [answered] at ends
        exact ends
      rcases turn_of_step taken with ⟨requests, _⟩ | ⟨other, stage, turn, requests⟩
      · exact again (by rw [requests]; exact unasked)
      · by_cases same : request = other
        · subst same
          rw [unasked] at turn
          have now : next.requests request = stage := by rw [requests, Function.update_self]
          have reads (query : VisitQuery) (asked : stage = .asked query) :
              (reached.requests request).Reads next.visits query reached.visits := by
            refine rest.keeps (fun state => (state.requests request).Reads next.visits query
              state.visits) (fun reads taken => reads_of_step reads taken) ?_
            rw [now, asked]
            exact ⟨rfl, List.prefix_refl _⟩
          generalize visited : next.visits = visits at turn reads
          cases turn with
          | raises error unread => exact (never (by rw [now]; trivial)).elim
          | inserts body => exact (never (by rw [now]; trivial)).elim
          | counts counts => cases counts
          | @asks authorization subject query' isGet passes =>
              have here := reads query' rfl
              obtain rfl : query = query' := by
                rw [answered] at here
                exact here.1
              exact ⟨[], labels, authorization, start, by rw [isGet]; rfl, .refl start,
                authorization_eq passes, here⟩
        · exact again (by rw [requests, Function.update_of_ne same]; exact unasked)

/-- Whoever is shown a listing has asked for it with the key, and what is shown is faithful to the
log: it leaves out no visit that had been acknowledged by then but for newer ones, and each of
its figures lies between the log as it was then and the log as it is now. -/
theorem faithful_of_executes {start reached : VisitLog Request}
    {labels : List (VisitStep Request)} {response : VisitsResponse} (blank : start.Blank)
    (executes : (system Request apiKey).Executes start labels reached)
    (answered : reached.requests request = .answered query response) :
    ∃ earlier later authorization before,
      labels = earlier ++ .get request authorization query :: later ∧
      authorization = "Bearer ".toList ++ apiKey ∧
      (system Request apiKey).Executes start earlier before ∧
      (∀ other visit, before.requests other = .recorded visit → visit ∈ before.visits) ∧
      (∀ visit ∈ reached.visits, visit.Fits) ∧
      ListingFaithful before.visits reached.visits query response := by
  rcases exists_get executes (blank.2 request) answered with
    ⟨earlier, later, authorization, before, split, first, key, reads⟩
  have sound : before.Sound := first.keeps Sound (fun sound taken => sound.step taken) blank.sound
  have ends : reached.Sound :=
    executes.keeps Sound (fun sound taken => sound.step taken) blank.sound
  rw [answered] at reads
  exact ⟨earlier, later, authorization, before, split, key, first,
    fun other visit recorded => sound.recorded recorded, ends.fits, reads.faithful⟩

end VisitLog

end Steps

section Sample

/-- Nobody has visited yet. -/
def emptyLog : VisitLog ℕ := ⟨0, [], fun _ => .unasked⟩

/-- A visit that is committed between two statements of a listing. -/
def overtakenListing : List (VisitStep ℕ) :=
  [.post 0 "Bearer key".toList ⟨"192.0.2.1".toList, "/wp-login.php".toList, none⟩, .commit 0,
    .tick, .get 1 "Bearer key".toList ⟨10, false⟩,
    .select 1 [⟨"192.0.2.1".toList, "/wp-login.php".toList, none, 0⟩], .count 1,
    .post 2 "Bearer key".toList ⟨"192.0.2.2".toList, [], some "curl".toList⟩, .commit 2,
    .count 1, .count 1]

theorem faithful_of_executes_overtakenListing : ∃ reached before,
    (VisitLog.system ℕ "key".toList).execute emptyLog overtakenListing = some reached ∧
      ListingFaithful before reached.visits ⟨10, false⟩
        ⟨1, 1, 2, false, 1, [⟨"192.0.2.1".toList, "/wp-login.php".toList, none, 0⟩]⟩ := by
  have executed : ∃ reached,
      (VisitLog.system ℕ "key".toList).execute emptyLog overtakenListing = some reached ∧
        reached.requests 1 = .answered ⟨10, false⟩
          ⟨1, 1, 2, false, 1, [⟨"192.0.2.1".toList, "/wp-login.php".toList, none, 0⟩]⟩ :=
    ⟨_, rfl, rfl⟩
  rcases executed with ⟨reached, executed, answered⟩
  have blank : emptyLog.Blank := ⟨rfl, fun _ => rfl⟩
  rcases VisitLog.faithful_of_executes blank
    (executes_of_execute executed) answered with
    ⟨_, _, _, before, _, _, _, _, _, faithful⟩
  exact ⟨reached, before.visits, executed, faithful⟩

end Sample

end OrcaValidator
