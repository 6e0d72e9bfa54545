import Stel.Mcp.Service
import Stel.Hashing.Known

/-!
# The query log of the context server

`ContextService.search_context` with `_OperationLimiter.run`: any number of calls, whose callers and
workers take their steps in any order. A call collects its row while its operation runs, and hands
it to the log after the outcome of the call has been decided.

## Main definitions

* `Limiter`, `Call`, `CallEvent`: the shared state, one call, and the steps of its two threads.
* `Call.step`, `ServerState.step`, `ServerState.run`: the system.
* `Call.meets`: the steps after which the log still agrees with the response.
* `Served`: the rows that a response calls for.

## Main results

* `Call.consistent_step`: what one step preserves.
* `served_iff`: a call that returned is logged as it was served exactly if its steps met the
  condition.
-/

namespace Stel.Mcp

namespace QueryLog

open ContextService Hashing

/-! ### One call -/

/-- The thread that runs the operation of a call. -/
inductive Worker
  | absent
  | queued
  | running
  | ended (outcome : Except ContextException SearchContextResponse)
  | released (outcome : Except ContextException SearchContextResponse)
  | finished (outcome : Except ContextException SearchContextResponse)
  | cancelled

/-- The thread that made a call: before the three steps of the limiter, waiting for the worker, in
the loop over the pending rows at a position, or back with the response. -/
inductive Caller
  | arrived
  | admitted
  | acquired
  | waiting
  | logging (response : SearchContextResponse) (position : ℕ)
  | returned (response : SearchContextResponse)

/-- A call of `search_context`, with the rows that it collected and those handed to the log. -/
structure Call where
  request : SearchContextRequest
  caller : Caller := .arrived
  worker : Worker := .absent
  pending : List QueryLogRow := []
  logged : List QueryLogRow := []

/-- What the calls share in `_OperationLimiter`. -/
structure Limiter where
  requestTimes : List ℚ
  permits : ℕ
  shutDown : Bool

/-- A step of one of the threads of a call. The worker runs the operation with the answers of the
repository and the search, which may be exceptions. -/
inductive CallEvent
  | checkRateLimit (now : ℚ)
  | acquire
  | submit
  | begin
  | work (answer : (o : ServiceOp) → Except ContextException (ServiceRet o)) (loggedAt : String)
      (elapsedMs : ℚ)
  | release
  | finish
  | receive
  | expire
  | log
  | leave

section Steps

variable (service : ContextService) (size : SearchContextResponse → ℕ)

/-- `ContextService._respond` for a search. -/
def response (outcome : Except ContextException SearchContextResponse) : SearchContextResponse :=
  service.respond size (fun error => { error := some error }) outcome

/-- The exception at the request rate limit. -/
def rateLimited : ContextException :=
  .contextServiceError .busy "The context server is at its request rate limit" true

/-- The exception at the concurrency limit. -/
def concurrencyLimited : ContextException :=
  .contextServiceError .busy "The context server is at its concurrency limit" true

/-- The call with an outcome that was decided. -/
def Call.settle (call : Call) (outcome : Except ContextException SearchContextResponse) : Call :=
  { call with caller := .logging (response service size outcome) 0 }

/-- The operation of a call, with the row that it collects. -/
def Call.operate (call : Call)
    (answer : (o : ServiceOp) → Except ContextException (ServiceRet o)) (loggedAt : String)
    (elapsedMs : ℚ) : Except ContextException (SearchContextResponse × QueryLogRow) :=
  (service.searchContext call.request loggedAt elapsedMs).evaluate answer

/-- The call after its operation. -/
def Call.work (call : Call) (operated : Except ContextException (SearchContextResponse × QueryLogRow)) :
    Call :=
  match operated with
  | .ok (served, row) => { call with worker := .ended (.ok served), pending := call.pending ++ [row] }
  | .error e => { call with worker := .ended (.error e) }

/-- `_OperationLimiter._check_rate_limit`. -/
def Call.checkRateLimit (limiter : Limiter) (call : Call) (now : ℚ) : Limiter × Call :=
  let times := limiter.requestTimes.dropWhile fun time => time ≤ now - 60
  if service.settings.maxRequestsPerMinute ≤ times.length then
    ({ limiter with requestTimes := times }, call.settle service size (.error rateLimited))
  else ({ limiter with requestTimes := times ++ [now] }, { call with caller := .admitted })

/-- The steps of a call, where they are possible. -/
def Call.step (limiter : Limiter) (call : Call) : CallEvent → Option (Limiter × Call)
  | .checkRateLimit now =>
    match call.caller with
    | .arrived => some (call.checkRateLimit service size limiter now)
    | _ => none
  | .acquire =>
    match call.caller with
    | .admitted =>
      if limiter.permits = 0 then
        some (limiter, call.settle service size (.error concurrencyLimited))
      else some ({ limiter with permits := limiter.permits - 1 }, { call with caller := .acquired })
    | _ => none
  | .submit =>
    match call.caller with
    | .acquired =>
      if limiter.shutDown then
        some ({ limiter with permits := limiter.permits + 1 },
          call.settle service size (.error .other))
      else some (limiter, { call with caller := .waiting, worker := .queued })
    | _ => none
  | .begin =>
    match call.worker with
    | .queued => some (limiter, { call with worker := .running })
    | _ => none
  | .work answer loggedAt elapsedMs =>
    match call.worker with
    | .running => some (limiter, call.work (call.operate service answer loggedAt elapsedMs))
    | _ => none
  | .release =>
    match call.worker with
    | .ended outcome =>
      some ({ limiter with permits := limiter.permits + 1 }, { call with worker := .released outcome })
    | _ => none
  | .finish =>
    match call.worker with
    | .released outcome => some (limiter, { call with worker := .finished outcome })
    | _ => none
  | .receive =>
    match call.caller, call.worker with
    | .waiting, .finished outcome => some (limiter, call.settle service size outcome)
    | .waiting, .cancelled => some (limiter, call.settle service size (.error .other))
    | _, _ => none
  | .expire =>
    match call.caller, call.worker with
    | .waiting, .finished _ | .waiting, .cancelled => none
    | .waiting, _ => some (limiter, call.settle service size (.error .timeoutError))
    | _, _ => none
  | .log =>
    match call.caller with
    | .logging response position =>
      match call.pending[position]? with
      | some row => some (limiter, { call with
          caller := .logging response (position + 1), logged := call.logged ++ [row] })
      | none => none
    | _ => none
  | .leave =>
    match call.caller with
    | .logging response position =>
      if call.pending.length ≤ position then
        some (limiter, { call with caller := .returned response })
      else none
    | _ => none

/-! ### The condition -/

/-- The steps after which the log still agrees with the response: the response that is received has
an allowed size; the time limit is reached before the row is collected; and no row is collected
between the time limit and the return of the call. -/
def Call.meets (call : Call) : CallEvent → Prop
  | .receive => ∀ served, call.worker = .finished (.ok served) →
      size served ≤ service.settings.maxResponseBytes
  | .expire => call.pending = []
  | .work answer loggedAt elapsedMs => (∃ response position, call.caller = .logging response position) →
      ∃ e, call.operate service answer loggedAt elapsedMs = .error e
  | _ => True

/-- The row records the response. -/
def Records (row : QueryLogRow) (response : SearchContextResponse) : Prop :=
  row.resultCount = response.results.length ∧
    row.returnedChunkIds = response.results.map SearchContextResult.chunkId

/-- The rows that a response calls for: one that records it if it is a success, else none. -/
def Served (response : SearchContextResponse) (rows : List QueryLogRow) : Prop :=
  (response.error = none → ∃ row, rows = [row] ∧ Records row response) ∧
    (response.error ≠ none → rows = [])

/-! ### What one step preserves -/

/-- The rows that a call collected, by the state of its worker. -/
def Call.Collected (call : Call) : Prop :=
  match call.worker with
  | .ended (.ok served) | .released (.ok served) | .finished (.ok served) =>
    served.error = none ∧ ∃ row, call.pending = [row] ∧ Records row served
  | _ => call.pending = []

/-- The state of a call whose steps have all met the condition, or not. -/
def Call.Consistent (ok : Prop) (call : Call) : Prop :=
  match call.caller with
  | .arrived | .admitted | .acquired =>
    ok ∧ call.worker = .absent ∧ call.pending = [] ∧ call.logged = []
  | .waiting => ok ∧ call.Collected ∧ call.logged = []
  | .logging response position => call.Collected ∧ position ≤ call.pending.length ∧
    call.logged = call.pending.take position ∧ (response.error = none → call.pending ≠ []) ∧
    (ok ↔ Served response call.pending)
  | .returned response => ok ↔ Served response call.logged

variable {service size}

theorem served_nil {response : SearchContextResponse} (herror : response.error ≠ none) :
    Served response [] :=
  ⟨fun h => absurd h herror, fun _ => rfl⟩

theorem not_served_cons {response : SearchContextResponse} {row : QueryLogRow}
    {rows : List QueryLogRow} (herror : response.error ≠ none) :
    ¬ Served response (row :: rows) := by
  intro h
  cases h.2 herror

variable (service size) in
theorem response_error (e : ContextException) :
    (response service size (.error e)).error ≠ none := by
  simp [response, respond]

theorem response_ok {served : SearchContextResponse}
    (h : size served ≤ service.settings.maxResponseBytes) :
    response service size (.ok served) = served :=
  if_neg (not_lt.mpr h)

theorem response_oversize {served : SearchContextResponse}
    (h : service.settings.maxResponseBytes < size served) :
    (response service size (.ok served)).error ≠ none := by
  simp [response, respond, h]

/-- The operation collects a row that records its response. -/
theorem Call.operate_eq_ok {call : Call}
    {answer : (o : ServiceOp) → Except ContextException (ServiceRet o)} {loggedAt : String}
    {elapsedMs : ℚ} {served : SearchContextResponse} {row : QueryLogRow}
    (h : call.operate service answer loggedAt elapsedMs = .ok (served, row)) :
    served.error = none ∧ Records row served := by
  unfold Call.operate searchContext at h
  simp only [Prog.evaluate_bind, bind_eq_ok] at h
  obtain ⟨authorized, -, search, -, hits, -, results, -, logRow, hrow, hserved⟩ := h
  cases hserved
  rw [Prog.evaluate_ofExcept, queryLogRow, bind_eq_ok] at hrow
  obtain ⟨fingerprint, -, hrow⟩ := hrow
  cases hrow
  exact ⟨rfl, rfl, rfl⟩

theorem served_iff_of_error {response : SearchContextResponse} {rows : List QueryLogRow}
    (herror : response.error ≠ none) : Served response rows ↔ rows = [] :=
  ⟨fun h => h.2 herror, fun h => h ▸ served_nil herror⟩

/-- A call that is decided with an exception is consistent if the flag says whether its worker
collected a row. -/
theorem Call.consistent_settle_error {ok : Prop} {call : Call} (e : ContextException)
    (hcollected : call.Collected) (hlogged : call.logged = []) (hok : ok ↔ call.pending = []) :
    (call.settle service size (.error e)).Consistent ok := by
  have herror := response_error service size e
  refine ⟨hcollected, Nat.zero_le _, hlogged, fun h => absurd h herror, ?_⟩
  rw [served_iff_of_error herror]
  exact hok

/-- The same for a call without a worker. -/
theorem Call.consistent_settle_absent {ok : Prop} {call : Call} (e : ContextException) (hok : ok)
    (hworker : call.worker = .absent) (hpending : call.pending = []) (hlogged : call.logged = []) :
    (call.settle service size (.error e)).Consistent ok := by
  have hcollected : call.Collected := by
    unfold Call.Collected
    rw [hworker]
    exact hpending
  exact consistent_settle_error e hcollected hlogged (iff_of_true hok hpending)

/-- A step of the worker without a new row. -/
theorem Call.Consistent.worker {ok : Prop} {call : Call} {worker : Worker}
    (h : call.Consistent ok) (hworker : call.worker ≠ .absent)
    (hcollected : call.Collected → ({ call with worker := worker } : Call).Collected) :
    ({ call with worker := worker } : Call).Consistent ok := by
  unfold Call.Consistent at h ⊢
  cases hcaller : call.caller with
  | arrived | admitted | acquired =>
    simp only [hcaller] at h
    exact absurd h.2.1 hworker
  | waiting =>
    simp only [hcaller] at h
    exact ⟨h.1, hcollected h.2.1, h.2.2⟩
  | logging response position =>
    simp only [hcaller] at h
    exact ⟨hcollected h.1, h.2⟩
  | returned response =>
    simp only [hcaller] at h
    exact h

/-- The worker runs the operation. -/
theorem Call.Consistent.work {ok : Prop} {call : Call} (h : call.Consistent ok)
    (hworker : call.worker = .running)
    (answer : (o : ServiceOp) → Except ContextException (ServiceRet o)) (loggedAt : String)
    (elapsedMs : ℚ) :
    (call.work (call.operate service answer loggedAt elapsedMs)).Consistent
      (ok ∧ call.meets service size (.work answer loggedAt elapsedMs)) := by
  have hempty : call.Collected → call.pending = [] := by
    intro hcollected
    unfold Call.Collected at hcollected
    rw [hworker] at hcollected
    exact hcollected
  cases hoperate : call.operate service answer loggedAt elapsedMs with
  | error e =>
    have hmeets : call.meets service size (.work answer loggedAt elapsedMs) :=
      fun _ => ⟨e, hoperate⟩
    rw [and_iff_left hmeets]
    refine h.worker (by rw [hworker]; simp) fun hcollected => ?_
    exact hempty hcollected
  | ok operated =>
    obtain ⟨served, row⟩ := operated
    obtain ⟨herror, hrecords⟩ := Call.operate_eq_ok hoperate
    have hcollected (hpending : call.pending = []) :
        (call.work (.ok (served, row))).Collected := by
      refine ⟨herror, row, ?_, hrecords⟩
      show call.pending ++ [row] = [row]
      rw [hpending, List.nil_append]
    unfold Call.Consistent at h ⊢
    cases hcaller : call.caller with
    | arrived | admitted | acquired =>
      simp only [hcaller, hworker] at h
      cases h.2.1
    | waiting =>
      simp only [hcaller] at h
      have hmeets : call.meets service size (.work answer loggedAt elapsedMs) := by
        rintro ⟨response, position, hlogging⟩
        rw [hcaller] at hlogging
        cases hlogging
      simp only [Call.work, hcaller]
      exact ⟨⟨h.1, hmeets⟩, hcollected (hempty h.2.1), h.2.2⟩
    | logging response position =>
      simp only [hcaller] at h
      obtain ⟨hcollected', hposition, hlogged, hsuccess, hok⟩ := h
      have hpending := hempty hcollected'
      have hfailed : response.error ≠ none := fun hnone => hsuccess hnone hpending
      have hviolated : ¬ call.meets service size (.work answer loggedAt elapsedMs) := by
        intro hmeets
        obtain ⟨e, he⟩ := hmeets ⟨response, position, hcaller⟩
        rw [hoperate] at he
        cases he
      simp only [Call.work, hcaller]
      -- The loop over the rows has not ended, so it finds the new row.
      have hstart : position = 0 := by
        rw [hpending] at hposition
        exact Nat.le_zero.mp hposition
      refine ⟨hcollected hpending, by simp [hstart], ?_, by simp, ?_⟩
      · rw [hlogged, hstart, List.take_zero, List.take_zero]
      · rw [hpending]
        exact iff_of_false (fun hall => hviolated hall.2) (not_served_cons hfailed)
    | returned response =>
      simp only [hcaller] at h
      have hmeets : call.meets service size (.work answer loggedAt elapsedMs) := by
        rintro ⟨response, position, hlogging⟩
        rw [hcaller] at hlogging
        cases hlogging
      simp only [Call.work, hcaller]
      rw [and_iff_left hmeets]
      exact h

/-- The caller receives the outcome of the worker. -/
theorem Call.Consistent.receive {ok : Prop} {call : Call}
    {outcome : Except ContextException SearchContextResponse} (h : call.Consistent ok)
    (hcaller : call.caller = .waiting) (hworker : call.worker = .finished outcome) :
    (call.settle service size outcome).Consistent (ok ∧ call.meets service size .receive) := by
  unfold Call.Consistent at h
  simp only [hcaller] at h
  obtain ⟨hok, hcollected, hlogged⟩ := h
  cases outcome with
  | error e =>
    have hmeets : call.meets service size .receive := by
      intro served hserved
      rw [hworker] at hserved
      cases hserved
    have hpending : call.pending = [] := by
      unfold Call.Collected at hcollected
      rw [hworker] at hcollected
      exact hcollected
    exact Call.consistent_settle_error e hcollected hlogged (iff_of_true ⟨hok, hmeets⟩ hpending)
  | ok served =>
    have hrow : served.error = none ∧ ∃ row, call.pending = [row] ∧ Records row served := by
      unfold Call.Collected at hcollected
      rw [hworker] at hcollected
      exact hcollected
    obtain ⟨hnone, row, hpending, hrecords⟩ := hrow
    have hmeets : call.meets service size .receive ↔
        size served ≤ service.settings.maxResponseBytes := by
      constructor
      · intro hmeets
        exact hmeets served hworker
      · intro hsize served' hserved'
        rw [hworker] at hserved'
        cases hserved'
        exact hsize
    have hne : call.pending ≠ [] := by simp [hpending]
    refine ⟨hcollected, Nat.zero_le _, hlogged, fun _ => hne, ?_⟩
    show _ ↔ Served (response service size (.ok served)) call.pending
    rw [hmeets, hpending, and_iff_right hok]
    by_cases hsize : size served ≤ service.settings.maxResponseBytes
    · rw [response_ok hsize]
      exact iff_of_true hsize ⟨fun _ => ⟨row, rfl, hrecords⟩, fun h => absurd hnone h⟩
    · exact iff_of_false hsize (not_served_cons (response_oversize (not_le.mp hsize)))

/-- A call that is not submitted yet. -/
theorem Call.Consistent.early {ok : Prop} {call : Call} (h : call.Consistent ok)
    (hcaller : call.caller = .arrived ∨ call.caller = .admitted ∨ call.caller = .acquired) :
    ok ∧ call.worker = .absent ∧ call.pending = [] ∧ call.logged = [] := by
  unfold Call.Consistent at h
  rcases hcaller with hcaller | hcaller | hcaller <;> simpa only [hcaller] using h

/-- The call reaches its time limit. -/
theorem Call.Consistent.expire {ok : Prop} {call : Call} (h : call.Consistent ok)
    (hcaller : call.caller = .waiting) :
    (call.settle service size (.error .timeoutError)).Consistent
      (ok ∧ call.meets service size .expire) := by
  unfold Call.Consistent at h
  simp only [hcaller] at h
  exact Call.consistent_settle_error _ h.2.1 h.2.2 (and_iff_right h.1)

/-- The loop over the rows hands one to the log. -/
theorem Call.Consistent.log {ok : Prop} {call : Call} {response : SearchContextResponse}
    {position : ℕ} {row : QueryLogRow} (h : call.Consistent ok)
    (hcaller : call.caller = .logging response position)
    (hrow : call.pending[position]? = some row) :
    ({ call with caller := .logging response (position + 1), logged := call.logged ++ [row] } :
      Call).Consistent ok := by
  unfold Call.Consistent at h
  simp only [hcaller] at h
  obtain ⟨hcollected, -, hlogged, hrest⟩ := h
  obtain ⟨hlt, hget⟩ := List.getElem?_eq_some_iff.mp hrow
  refine ⟨hcollected, hlt, ?_, hrest⟩
  show call.logged ++ [row] = call.pending.take (position + 1)
  rw [hlogged, List.take_add_one, hrow, Option.toList_some]

/-- The loop over the rows ends. -/
theorem Call.Consistent.leave {ok : Prop} {call : Call} {response : SearchContextResponse}
    {position : ℕ} (h : call.Consistent ok) (hcaller : call.caller = .logging response position)
    (hend : call.pending.length ≤ position) :
    ({ call with caller := .returned response } : Call).Consistent ok := by
  unfold Call.Consistent at h
  simp only [hcaller] at h
  obtain ⟨-, -, hlogged, -, hok⟩ := h
  rw [List.take_of_length_le hend] at hlogged
  show ok ↔ Served response call.logged
  rw [hlogged]
  exact hok

/-- Every step of a call keeps it consistent, with the flag lowered by a step that does not meet the
condition. -/
theorem Call.consistent_step {ok : Prop} {limiter limiter' : Limiter} {call call' : Call}
    {event : CallEvent} (h : call.Consistent ok)
    (hstep : call.step service size limiter event = some (limiter', call')) :
    call'.Consistent (ok ∧ call.meets service size event) := by
  cases event with
  | checkRateLimit now =>
    simp only [Call.step] at hstep
    split at hstep
    · rename_i hcaller
      obtain ⟨hok, hworker, hpending, hlogged⟩ := h.early (.inl hcaller)
      unfold Call.checkRateLimit at hstep
      dsimp only at hstep
      split_ifs at hstep
      · cases hstep
        exact Call.consistent_settle_absent _ ⟨hok, trivial⟩ hworker hpending hlogged
      · cases hstep
        exact ⟨⟨hok, trivial⟩, hworker, hpending, hlogged⟩
    · cases hstep
  | acquire =>
    simp only [Call.step] at hstep
    split at hstep
    · rename_i hcaller
      obtain ⟨hok, hworker, hpending, hlogged⟩ := h.early (.inr (.inl hcaller))
      split_ifs at hstep
      · cases hstep
        exact Call.consistent_settle_absent _ ⟨hok, trivial⟩ hworker hpending hlogged
      · cases hstep
        exact ⟨⟨hok, trivial⟩, hworker, hpending, hlogged⟩
    · cases hstep
  | submit =>
    simp only [Call.step] at hstep
    split at hstep
    · rename_i hcaller
      obtain ⟨hok, hworker, hpending, hlogged⟩ := h.early (.inr (.inr hcaller))
      split_ifs at hstep
      · cases hstep
        exact Call.consistent_settle_absent _ ⟨hok, trivial⟩ hworker hpending hlogged
      · cases hstep
        exact ⟨⟨hok, trivial⟩, hpending, hlogged⟩
    · cases hstep
  | begin =>
    simp only [Call.step] at hstep
    split at hstep
    · rename_i hworker
      cases hstep
      rw [and_iff_left (show call.meets service size .begin from trivial)]
      refine h.worker (by simp [hworker]) fun hcollected => ?_
      simpa only [Call.Collected, hworker] using hcollected
    · cases hstep
  | work answer loggedAt elapsedMs =>
    simp only [Call.step] at hstep
    split at hstep
    · rename_i hworker
      cases hstep
      exact h.work hworker answer loggedAt elapsedMs
    · cases hstep
  | release =>
    simp only [Call.step] at hstep
    split at hstep
    · rename_i outcome hworker
      cases hstep
      rw [and_iff_left (show call.meets service size .release from trivial)]
      refine h.worker (by simp [hworker]) fun hcollected => ?_
      cases outcome <;> simpa only [Call.Collected, hworker] using hcollected
    · cases hstep
  | finish =>
    simp only [Call.step] at hstep
    split at hstep
    · rename_i outcome hworker
      cases hstep
      rw [and_iff_left (show call.meets service size .finish from trivial)]
      refine h.worker (by simp [hworker]) fun hcollected => ?_
      cases outcome <;> simpa only [Call.Collected, hworker] using hcollected
    · cases hstep
  | receive =>
    simp only [Call.step] at hstep
    split at hstep
    · rename_i outcome hcaller hworker
      cases hstep
      exact h.receive hcaller hworker
    · rename_i hcaller hworker
      cases hstep
      unfold Call.Consistent at h
      simp only [hcaller] at h
      have hpending : call.pending = [] := by
        simpa only [Call.Collected, hworker] using h.2.1
      have hmeets : call.meets service size .receive := by
        intro served hserved
        rw [hworker] at hserved
        cases hserved
      exact Call.consistent_settle_error _ h.2.1 h.2.2 (iff_of_true ⟨h.1, hmeets⟩ hpending)
    · cases hstep
  | expire =>
    simp only [Call.step] at hstep
    split at hstep
    · cases hstep
    · cases hstep
    · rename_i hcaller _ _
      cases hstep
      exact h.expire hcaller
    · cases hstep
  | log =>
    simp only [Call.step] at hstep
    split at hstep
    · rename_i response position hcaller
      split at hstep
      · rename_i row hrow
        cases hstep
        rw [and_iff_left (show call.meets service size .log from trivial)]
        exact h.log hcaller hrow
      · cases hstep
    · cases hstep
  | leave =>
    simp only [Call.step] at hstep
    split at hstep
    · rename_i response position hcaller
      split_ifs at hstep with hend
      cases hstep
      rw [and_iff_left (show call.meets service size .leave from trivial)]
      exact h.leave hcaller hend
    · cases hstep

/-! ### Runs -/

/-- The state of the server: what the calls share, and the calls that were made. -/
structure ServerState where
  limiter : Limiter
  calls : List Call

variable (service) in
/-- A server that was started. -/
def ServerState.initial : ServerState := ⟨⟨[], service.settings.maxConcurrency, false⟩, []⟩

/-- A step of the server: a new call, a step of one of the calls, or `ContextService.close`, which
cancels the operations that no worker has begun. -/
inductive ServerEvent
  | arrive (request : SearchContextRequest)
  | call (id : ℕ) (event : CallEvent)
  | close

/-- A call after `shutdown(cancel_futures=True)`. -/
def Call.close (call : Call) : Call :=
  match call.worker with
  | .queued => { call with worker := .cancelled }
  | _ => call

variable (service size) in
/-- The steps of the server. -/
def ServerState.step (state : ServerState) : ServerEvent → Option ServerState
  | .arrive request => some { state with calls := state.calls ++ [{ request := request }] }
  | .call id event => do
    let call ← state.calls[id]?
    let (limiter, call) ← call.step service size state.limiter event
    return ⟨limiter, state.calls.set id call⟩
  | .close => some ⟨{ state.limiter with shutDown := true }, state.calls.map Call.close⟩

variable (service size) in
/-- A run of the server. -/
def ServerState.run (state : ServerState) : List ServerEvent → Option ServerState
  | [] => some state
  | event :: events => (state.step service size event).bind fun next => next.run events

variable (service size) in
/-- A step meets the condition on the steps of a call, if it is one of them. -/
def ServerState.meets (state : ServerState) (id : ℕ) : ServerEvent → Prop
  | .call id' event => id' = id → ∀ call, state.calls[id]? = some call →
      call.meets service size event
  | _ => True

variable (service size) in
/-- All steps of a call in a run meet the condition. -/
def ServerState.allMeet (state : ServerState) (id : ℕ) : List ServerEvent → Prop
  | [] => True
  | event :: events => state.meets service size id event ∧
      ∀ next, state.step service size event = some next → next.allMeet id events

/-- The call with an index, if it was made, is consistent. -/
def ServerState.Consistent (ok : Prop) (state : ServerState) (id : ℕ) : Prop :=
  match state.calls[id]? with
  | some call => call.Consistent ok
  | none => ok

theorem Call.Consistent.close {ok : Prop} {call : Call} (h : call.Consistent ok) :
    call.close.Consistent ok := by
  unfold Call.close
  split
  · rename_i hworker
    refine h.worker (by simp [hworker]) fun hcollected => ?_
    simpa only [Call.Collected, hworker] using hcollected
  · exact h

/-- What one step of the server preserves. -/
theorem ServerState.consistent_step {ok : Prop} {state next : ServerState} {id : ℕ}
    {event : ServerEvent} (h : state.Consistent ok id)
    (hstep : state.step service size event = some next) :
    next.Consistent (ok ∧ state.meets service size id event) id := by
  cases event with
  | arrive request =>
    cases hstep
    rw [and_iff_left (show state.meets service size id (.arrive request) from trivial)]
    unfold ServerState.Consistent at h ⊢
    rw [List.getElem?_append]
    split_ifs with hlt
    · exact h
    · rw [List.getElem?_eq_none (not_lt.mp hlt)] at h
      cases hnew : ([{ request := request }] : List Call)[id - state.calls.length]? with
      | none => exact h
      | some call =>
        obtain rfl : call = { request := request } := by
          simpa using List.mem_of_getElem? hnew
        exact ⟨h, rfl, rfl, rfl⟩
  | close =>
    cases hstep
    rw [and_iff_left (show state.meets service size id .close from trivial)]
    unfold ServerState.Consistent at h ⊢
    rw [List.getElem?_map]
    cases hcall : state.calls[id]? with
    | none => simpa [hcall] using h
    | some call =>
      rw [hcall] at h
      exact Call.Consistent.close h
  | call id' event =>
    simp only [ServerState.step, Option.bind_eq_bind, Option.bind_eq_some_iff] at hstep
    obtain ⟨call, hcall, ⟨limiter, call'⟩, hcallStep, hnext⟩ := hstep
    cases hnext
    unfold ServerState.Consistent at h ⊢
    by_cases hid : id' = id
    · subst hid
      rw [hcall] at h
      have hlt : id' < state.calls.length := (List.getElem?_eq_some_iff.mp hcall).1
      rw [List.getElem?_set_self hlt]
      have hmeets : state.meets service size id' (.call id' event) ↔
          call.meets service size event := by
        constructor
        · intro hmeets
          exact hmeets rfl call hcall
        · intro hmeets _ other hother
          rw [hcall] at hother
          cases hother
          exact hmeets
      rw [hmeets]
      exact Call.consistent_step h hcallStep
    · rw [List.getElem?_set_ne hid]
      have hmeets : state.meets service size id (.call id' event) := fun heq => absurd heq hid
      rw [and_iff_left hmeets]
      exact h

/-- What a run of the server preserves. -/
theorem ServerState.consistent_run {ok : Prop} {state final : ServerState} {id : ℕ}
    {events : List ServerEvent} (h : state.Consistent ok id)
    (hrun : state.run service size events = some final) :
    final.Consistent (ok ∧ state.allMeet service size id events) id := by
  induction events generalizing state ok with
  | nil =>
    cases hrun
    rw [and_iff_left (show final.allMeet service size id [] from trivial)]
    exact h
  | cons event events ih =>
    obtain ⟨next, hstep, hrest⟩ := Option.bind_eq_some_iff.mp hrun
    have hnext := ih (ServerState.consistent_step h hstep) hrest
    have hall : state.allMeet service size id (event :: events) ↔
        state.meets service size id event ∧ next.allMeet service size id events := by
      refine and_congr_right fun _ => ?_
      rw [hstep]
      simp
    rw [hall, ← and_assoc]
    exact hnext

end Steps

/-- A call that returned was logged as it was served, with one row that records a success and with
none for an error, exactly if all its steps met the condition. -/
theorem served_iff (service : ContextService) (size : SearchContextResponse → ℕ)
    (events : List ServerEvent) (final : ServerState) (id : ℕ) (call : Call)
    (response : SearchContextResponse)
    (hrun : (ServerState.initial service).run service size events = some final)
    (hcall : final.calls[id]? = some call) (hreturned : call.caller = .returned response) :
    Served response call.logged ↔
      (ServerState.initial service).allMeet service size id events := by
  have hinitial : (ServerState.initial service).Consistent True id := trivial
  have hfinal := ServerState.consistent_run hinitial hrun
  unfold ServerState.Consistent at hfinal
  rw [hcall] at hfinal
  simp only [Call.Consistent, hreturned, true_and] at hfinal
  exact hfinal.symm

/-! ### A search that ends after its time limit -/

/-- The value that is fingerprinted for a query, with its digest. -/
def refundQuery : List (PyValue × List UInt8) :=
  [(.mapping [(.str "query", .str "refund window")],
    [231, 111, 182, 216, 78, 204, 86, 53, 164, 111, 17, 209, 218, 33, 180, 21])]

/-- The functions of the standard library on the values of the example. -/
def refundEnv : ServiceEnv where
  loads := fun _ => none
  blake2b := knownDigest (knownInputs "mcp-query" refundQuery)
  str := fun _ => ""
  parseInt := fun _ => none
  parseFloat := fun _ => none
  base64Encode := id
  base64Decode := fun _ => none
  casefold := id
  optionalDatetime := fun _ => none
  jsonField := fun _ => none
  citationDescriptor := fun _ => none
  now := 0

/-- A public resource. -/
def policies : ContextResource where
  name := "policies"
  uniqueId := "search_index.support.policies"
  description := none
  access := .«public»
  contextRelation := "policy_chunks"
  registryRelation := "policy_documents"
  entityRelations := []
  schemaFields := []
  businessFilters := []
  policyAttributes := []
  modes := ["text"]
  consistency := "strong"
  idField := "context_id"
  storeType := "lancedb"
  lineageResources := []
  lastSuccessfulMaterialization := none

/-- A principal without claims. -/
def analyst : Principal where
  subjectId := "analyst"
  tenantId := none
  accessGroups := []
  policyClaims := []
  subject_ne := by decide
  sorted := .nil
  groups_ne := by decide
  nodup := .nil

/-- A server of the resource. -/
def policyService : ContextService where
  catalog := ⟨[policies], by decide⟩
  principal := some analyst
  settings := {}
  env := refundEnv
  capturesText := false

/-- A text search. -/
def refundRequest : SearchContextRequest where
  model := "policies"
  query := "refund window"
  mode := .text
  limit := 10
  filters := []
  model_ne := by decide
  query_ne := by decide
  limit_mem := by decide

/-- A warehouse without rows and a search without hits. -/
def emptyWorld : World where
  warehouse := fun _ => none
  execute := fun _ _ => .ok []

/-- The row of the search. -/
def refundRow : QueryLogRow where
  loggedAt := "2026-01-01T00:00:31+00:00"
  principalId := "analyst"
  tenantId := none
  modelName := "policies"
  mode := .text
  queryFingerprint := "e76fb6d84ecc5635a46f11d1da21b415"
  queryText := none
  requestedLimit := 10
  resultCount := 0
  zeroResults := true
  returnedChunkIds := []
  topScore := none
  elapsedMs := 31000

theorem queryFingerprint_refund :
    queryFingerprint refundEnv "refund window" = .ok "e76fb6d84ecc5635a46f11d1da21b415" := by
  have hknown := @canonicalFingerprint_known refundQuery "mcp-query" (by decide) (by decide +kernel)
    (by decide) (List.nodup_singleton _) _ _ List.mem_cons_self
  have hhex : hex [231, 111, 182, 216, 78, 204, 86, 53, 164, 111, 17, 209, 218, 33, 180, 21] =
      "e76fb6d84ecc5635a46f11d1da21b415" := by decide +kernel
  have hwords : " ".intercalate (Text.splitWords "refund window") = "refund window" := by
    decide +kernel
  rw [hhex] at hknown
  unfold queryFingerprint
  rw [hwords]
  exact hknown

/-- The operation of the search. -/
theorem operate_refund :
    ({ request := refundRequest } : Call).operate policyService emptyWorld.answer
      "2026-01-01T00:00:31+00:00" 31000 = .ok ({}, refundRow) := by
  have hauthorized : policyService.authorizeResource refundRequest.model =
      .ok ⟨analyst, policies, []⟩ := rfl
  have hbytes : ¬ 32768 < (utf8 refundRequest.query).length := by decide +kernel
  have hsearch : policyService.searchRequest policies refundRequest =
      .ok ⟨"policies", "refund window", .text, 10, []⟩ := by
    unfold searchRequest
    rw [if_neg (by decide), if_neg (by decide)]
    exact bind_eq_ok.mpr ⟨[], rfl, if_neg hbytes⟩
  have hresults : (policyService.resultsOfHits policies analyst 10 []).evaluate emptyWorld.answer =
      .ok [] := rfl
  have hrow : policyService.queryLogRow refundRequest analyst "policies" []
      "2026-01-01T00:00:31+00:00" 31000 = .ok refundRow := by
    unfold queryLogRow
    rw [show queryFingerprint policyService.env refundRequest.query = _ from queryFingerprint_refund]
    rfl
  unfold Call.operate searchContext
  simp only [Prog.evaluate_bind, Prog.evaluate_ofExcept, hauthorized, evaluate_execute,
    bind_eq_ok]
  exact ⟨_, rfl, _, hsearch, [], rfl, [], hresults, refundRow, hrow, rfl⟩

/-- The bytes of a response without results. -/
def emptySize : SearchContextResponse → ℕ := fun _ => 61

/-- The steps of a search up to its decision. -/
def searchSteps : List CallEvent :=
  [.checkRateLimit 0, .acquire, .submit, .begin,
    .work emptyWorld.answer "2026-01-01T00:00:31+00:00" 31000]

/-- The steps of a server with one search, which is decided in some way. -/
def searchEvents (decision : List CallEvent) : List ServerEvent :=
  .arrive refundRequest :: (searchSteps ++ decision ++ [CallEvent.log, CallEvent.leave]).map (ServerEvent.call 0)

/-- The call after a search. -/
def searchedCall (worker : Worker) (response : SearchContextResponse) : Call where
  request := refundRequest
  caller := .returned response
  worker := worker
  pending := [refundRow]
  logged := [refundRow]

/-- The response at the time limit. -/
def timeoutResponse : SearchContextResponse where
  error := some ⟨.timeout, "The context operation exceeded its time limit", true⟩

theorem run_late : (ServerState.initial policyService).run policyService emptySize
    (searchEvents [.expire]) =
      some ⟨⟨[0], 3, false⟩, [searchedCall (.ended (.ok {})) timeoutResponse]⟩ := by
  have hoperate := operate_refund
  simp only [Call.operate] at hoperate
  have hpermits : policyService.settings.maxConcurrency = 4 := rfl
  have hrate : policyService.settings.maxRequestsPerMinute = 120 := rfl
  simp [searchEvents, searchSteps, ServerState.initial, ServerState.run, ServerState.step, Call.step,
    Call.checkRateLimit, Call.work, Call.operate, Call.settle, hoperate, response, respond,
    toolError, searchedCall, timeoutResponse, hpermits, hrate]

theorem served_iff_late :
    (ServerState.initial policyService).run policyService emptySize (searchEvents [.expire]) =
      some ⟨⟨[0], 3, false⟩, [searchedCall (.ended (.ok {})) timeoutResponse]⟩ ∧
    (Served timeoutResponse [refundRow] ↔
      (ServerState.initial policyService).allMeet policyService emptySize 0
        (searchEvents [.expire])) :=
  ⟨run_late, served_iff policyService emptySize _ _ 0 _ _ run_late rfl rfl⟩

/-- A search whose operation ends after the time limit is answered with an error, and logged. -/
theorem late_search_logged :
    ∃ (service : ContextService) (size : SearchContextResponse → ℕ) (events : List ServerEvent)
      (final : ServerState) (call : Call) (response : SearchContextResponse),
      (ServerState.initial service).run service size events = some final ∧
      final.calls[0]? = some call ∧ call.caller = .returned response ∧
      response.error ≠ none ∧ call.logged ≠ [] ∧ ¬ Served response call.logged := by
  refine ⟨policyService, emptySize, searchEvents [.expire], _, _, timeoutResponse, run_late, rfl, rfl,
    by simp [timeoutResponse], by simp [searchedCall], ?_⟩
  exact not_served_cons (by simp [timeoutResponse])

end QueryLog

end Stel.Mcp
