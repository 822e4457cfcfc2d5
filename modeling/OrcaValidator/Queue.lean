import OrcaValidator.Models
import OrcaValidator.Library.Json

/-!
# The queue of run ids

`enqueue` and `dequeue` over the list that the Redis server keeps.  A call of the client
may raise whether or not the server has carried out the command, and a blocking pop that
times out on the client is read as `None` even when the server has popped an id.
-/

namespace OrcaValidator

open Library

/-- What comes of an `LPUSH`. -/
inductive PushReply where
  | done
  /-- The client raises; `stored` says whether the server has stored the id. -/
  | raised (error : PyException) (stored : Bool)

/-- What comes of a `BRPOP`. -/
inductive PopReply where
  | item
  /-- The server has nothing to pop. -/
  | nothing
  /-- The client raises a `TimeoutError`; `popped` says whether the server has popped an id. -/
  | timedOut (popped : Bool)
  | raised (error : PyException) (popped : Bool)

/-- The server has stored the id. -/
def PushReply.stored : PushReply → Bool
  | .done => true
  | .raised _ stored => stored

/-- The server pops an id that the caller does not get. -/
def PopReply.lost : PopReply → Bool
  | .item | .nothing => false
  | .timedOut popped | .raised _ popped => popped

/-- `enqueue`: `LPUSH` puts the id at the head of the list. -/
def enqueue (runId : UUID) (reply : PushReply) (queue : List UUID) :
    Except PyException Unit × List UUID :=
  (match reply with
    | .done => .ok ⟨⟩
    | .raised error _ => .error error,
    if reply.stored then runId :: queue else queue)

/-- The list after a pop that the server carries out, or does not. -/
def popIf (popped : Bool) (queue : List UUID) : Option (List UUID) :=
  if popped then queue.getLast?.map fun _ => queue.dropLast else some queue

/-- `dequeue`: `BRPOP` takes the id at the tail of the list. -/
def dequeue (reply : PopReply) (queue : List UUID) :
    Option (Except PyException (Option UUID) × List UUID) :=
  match reply with
  | .item => queue.getLast?.map fun runId => (.ok (some runId), queue.dropLast)
  | .nothing => some (.ok none, queue)
  | .timedOut popped => (popIf popped queue).map fun rest => (.ok none, rest)
  | .raised error popped => (popIf popped queue).map fun rest => (.error error, rest)

variable {reply : PopReply} {queue rest : List UUID}
  {outcome : Except PyException (Option UUID)}

theorem popIf_cases {popped : Bool} (taken : popIf popped queue = some rest) :
    (popped = false ∧ rest = queue) ∨ (popped = true ∧ ∃ runId, queue = rest ++ [runId]) := by
  cases popped with
  | false => exact .inl ⟨rfl, (Option.some.inj taken).symm⟩
  | true =>
      rcases Option.map_eq_some_iff.mp taken with ⟨runId, last, rfl⟩
      exact .inr ⟨rfl, runId, (List.dropLast_append_getLast? runId last).symm⟩

/-- A dequeued id was the last one of the list; without one the list is as it was, unless an
id was lost. -/
theorem dequeue_cases (taken : dequeue reply queue = some (outcome, rest)) :
    (∃ runId, reply.lost = false ∧ outcome = .ok (some runId) ∧ queue = rest ++ [runId]) ∨
      ((∀ runId, outcome ≠ .ok (some runId)) ∧
        ((reply.lost = false ∧ rest = queue) ∨
          (reply.lost = true ∧ ∃ runId, queue = rest ++ [runId]))) := by
  cases reply with
  | item =>
      rcases Option.map_eq_some_iff.mp taken with ⟨runId, last, ⟨⟩⟩
      exact .inl ⟨runId, rfl, rfl, (List.dropLast_append_getLast? runId last).symm⟩
  | nothing =>
      cases taken
      exact .inr ⟨by simp, .inl ⟨rfl, rfl⟩⟩
  | timedOut popped =>
      rcases Option.map_eq_some_iff.mp taken with ⟨rest', popped', ⟨⟩⟩
      exact .inr ⟨by simp, popIf_cases popped'⟩
  | raised error popped =>
      rcases Option.map_eq_some_iff.mp taken with ⟨rest', popped', ⟨⟩⟩
      exact .inr ⟨by simp, popIf_cases popped'⟩

end OrcaValidator
