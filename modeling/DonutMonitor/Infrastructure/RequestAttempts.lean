import DonutMonitor.Infrastructure.EndlessBlock
import DonutMonitor.Infrastructure.LongOutage

/-!
# The attempts of a request

A call of `_request_page` follows its outcomes: while they are failures of the connection or 5xx
statuses and attempts are left, it backs off and tries again, and the first other outcome, or the
last attempt, ends it.  `Stage` lists the stages of a call that keeps to this, and every step of the
client leads from one stage to the next, unless an outcome is not handled: a transport error that
is neither a timeout nor a network error, which leaves the call uncaught, or a transient error
after 1024 others, whose record raises `OverflowError`.

## Main definitions

* `DonutApiClient.CallStep` — what a step of the client does to one call.
* `DonutApiClient.Stage` — the stages of a call, by the outcomes that it has received.
* `DonutApiClient.Conforms` — what is expected of a call along a run.
* `DonutApiClient.Handled` — the step is not one of the outcomes that are not handled.

## Main results

* `DonutApiClient.stage_of_run` — along handled outcomes a call passes from stage to stage.
* `DonutApiClient.conforms_iff` — a call conforms if and only if all of its outcomes are handled.
-/

open Transition

namespace DonutMonitor

/-- The outcomes that are worth another attempt: a failure of the connection or a 5xx status. -/
def HttpOutcome.isFailure : HttpOutcome → Bool
  | .response r => 500 ≤ r.statusCode ∧ r.statusCode ≤ 599
  | .transportError _ => true

theorem HttpOutcome.isFailure_of_isTransient {outcome : HttpOutcome}
    (h : outcome.isTransient = true) : outcome.isFailure = true := by
  cases outcome with
  | response response => exact h
  | transportError error => rfl

/-- The outcome that the call `i` receives in an event. -/
def ClientEvent.outcome? (i : ℕ) : ClientEvent → Option HttpOutcome
  | .respond j outcome _ => if j = i then some outcome else none
  | .start _ | .tryAcquire _ | .nextAttempt _ => none

/-- The outcomes that the call `i` receives along a run. -/
def outcomes (i : ℕ) (events : List (ℚ × ClientEvent)) : List HttpOutcome :=
  events.filterMap fun e => e.2.outcome? i

/-- The call has returned or raised. -/
def CallPhase.isEnded : CallPhase → Bool
  | returned _ | raised _ => true
  | acquiring _ | inFlight | backingOff _ => false

/-- The phase after an attempt. -/
def AttemptResult.phase (now : ℚ) : AttemptResult → CallPhase
  | returned payload => .returned payload
  | raised failure => .raised failure
  | backoff delay => .backingOff ((PyFloat.fin now).add delay)

namespace DonutApiClient

variable {client : DonutApiClient} {s s' : ClientState} {now : ℚ} {event : ClientEvent} {i : ℕ}

/-! ### The steps of one call -/

/-- What a step of the client does to the call `i`. -/
inductive CallStep (client : DonutApiClient) (s : ClientState) (now : ℚ) (i : ℕ) :
    ClientEvent → Option PageCall → PageCall → Prop
  /-- The step is about another call. -/
  | other {event : ClientEvent} {c : PageCall} (h : event.call ≠ some i) :
    CallStep client s now i event (some c) c
  /-- The call begins. -/
  | started (args : PageArgs) :
    CallStep client s now i (.start args) none (client.start now args)
  /-- The limiter grants the next attempt, and the request is sent. -/
  | granted {c : PageCall} {wakeAt : PyFloat} (hphase : c.phase = .acquiring wakeAt)
    (hgrant : ((s.limiter.states c.args.tokenKey).tryAcquire s.limiter.limits now
      c.args.interactive).1 = true) :
    CallStep client s now i (.tryAcquire i) (some c) { c with phase := .inFlight }
  /-- The limiter refuses the next attempt, and the call waits. -/
  | refused {c : PageCall} {wakeAt wakeAt' : PyFloat} (hphase : c.phase = .acquiring wakeAt)
    (hrefused : ((s.limiter.states c.args.tokenKey).tryAcquire s.limiter.limits now
      c.args.interactive).1 = false) :
    CallStep client s now i (.tryAcquire i) (some c) { c with phase := .acquiring wakeAt' }
  /-- The request comes back. -/
  | answered {c : PageCall} (outcome : HttpOutcome) (utcNow : ℚ) (hphase : c.phase = .inFlight) :
    CallStep client s now i (.respond i outcome utcNow) (some c)
      { c with phase := (client.handleOutcome now utcNow c.attempt outcome
        (s.limiter.states c.args.tokenKey)).1.phase now }
  /-- The call is over its backoff. -/
  | resumed {c : PageCall} {wakeAt : PyFloat} (hphase : c.phase = .backingOff wakeAt) :
    CallStep client s now i (.nextAttempt i) (some c)
      { c with attempt := c.attempt + 1, phase := .acquiring wakeAt }

theorem callStep_of_step (hstep : client.step s (now, event) = some s') {c' : PageCall}
    (hc' : s'.calls[i]? = some c') : CallStep client s now i event s.calls[i]? c' := by
  by_cases hevent : event.call = some i
  · cases event with
    | start args => cases hevent
    | tryAcquire j =>
      obtain rfl := Option.some.inj hevent
      obtain ⟨-, c, wakeAt, hc, hphase, -, rfl⟩ := client.step_tryAcquire.mp hstep
      have hlt := (List.getElem?_eq_some_iff.mp hc).1
      rw [hc]
      simp only [acquireStep] at hc'
      split at hc'
      · rename_i hgrant
        rw [ClientState.setPhase, ClientState.setLimit_calls, List.getElem?_set_self hlt] at hc'
        obtain rfl := Option.some.inj hc'
        exact .granted hphase hgrant
      · rename_i hrefused
        rw [ClientState.setPhase, ClientState.setLimit_calls, List.getElem?_set_self hlt] at hc'
        obtain rfl := Option.some.inj hc'
        exact .refused hphase (by simpa using hrefused)
    | respond j outcome utcNow =>
      obtain rfl := Option.some.inj hevent
      obtain ⟨-, c, hc, hphase, rfl⟩ := client.step_respond.mp hstep
      rw [respondStep, ClientState.setPhase, ClientState.setLimit_calls,
        List.getElem?_set_self (List.getElem?_eq_some_iff.mp hc).1] at hc'
      obtain rfl := Option.some.inj hc'
      rw [hc]
      exact .answered outcome utcNow hphase
    | nextAttempt j =>
      obtain rfl := Option.some.inj hevent
      obtain ⟨-, c, wakeAt, hc, hphase, -, rfl⟩ := client.step_nextAttempt.mp hstep
      rw [ClientState.setPhase, List.getElem?_set_self (List.getElem?_eq_some_iff.mp hc).1] at hc'
      obtain rfl := Option.some.inj hc'
      rw [hc]
      exact .resumed hphase
  · cases hc : s.calls[i]? with
    | some c =>
      obtain ⟨c'', hc'', -, hsame⟩ := client.step_call hstep hc
      obtain rfl := Option.some.inj (hc''.symm.trans hc')
      rw [hsame hevent]
      exact .other hevent
    | none =>
      obtain ⟨args, rfl, rfl⟩ := client.step_newCall hstep hc hc'
      exact .started args

/-- A call that has ended does not move. -/
theorem CallStep.of_isEnded {c c' : PageCall} (h : CallStep client s now i event (some c) c')
    (hended : c.phase.isEnded = true) : c' = c := by
  cases h with
  | other => rfl
  | granted hphase | refused hphase | answered _ _ hphase | resumed hphase =>
    rw [hphase] at hended
    cases hended

/-! ### Grants and attempts -/

/-- The limiter grants a request of the call `i` in this step. -/
def grants (i : ℕ) (s : ClientState) : ℚ × ClientEvent → ClientState → ℕ
  | (now, .tryAcquire j), _ =>
    if j = i then
      (s.calls[i]?).elim 0 fun c =>
        ((s.limiter.states c.args.tokenKey).tryAcquire s.limiter.limits now
          c.args.interactive).1.toNat
    else 0
  | _, _ => 0

/-- A request of the call `i` is sent in this step. -/
def attempts (i : ℕ) (s : ClientState) (_ : ℚ × ClientEvent) (s' : ClientState) : ℕ :=
  if s.isInFlight i = false ∧ s'.isInFlight i = true then 1 else 0

/-! ### Stages -/

/-- The response is a 2xx with a JSON object whose `status` is 0 or the HTTP status. -/
def Succeeds (response : HttpResponse) (payload : List (String × Json)) : Prop :=
  200 ≤ response.statusCode ∧ response.statusCode < 300 ∧
    response.json = some (.object payload) ∧
    ∃ status, Json.field? payload "status" = some (.int status) ∧
      (status = 0 ∨ status = response.statusCode)

/-- The stages of a call that has received the listed outcomes in the given number of attempts. -/
inductive Stage (client : DonutApiClient) : List HttpOutcome → ℕ → PageCall → Prop
  /-- There is no attempt to make. -/
  | exhausted (args : PageArgs) (h : client.maxRetries < 0) :
    Stage client [] 0 { args, phase := .raised (.api (.transient "Retry limit exhausted")) }
  /-- The call waits for its next grant. -/
  | acquiring {received : List HttpOutcome} (args : PageArgs) (wakeAt : PyFloat)
    (hfail : ∀ o ∈ received, o.isFailure = true) (hleft : received.length ≤ client.maxRetries) :
    Stage client received received.length
      { args, attempt := received.length, phase := .acquiring wakeAt }
  /-- The request of the next attempt is sent. -/
  | inFlight {received : List HttpOutcome} (args : PageArgs)
    (hfail : ∀ o ∈ received, o.isFailure = true) (hleft : received.length ≤ client.maxRetries) :
    Stage client received (received.length + 1)
      { args, attempt := received.length, phase := .inFlight }
  /-- The last attempt has failed, and there is another one. -/
  | backingOff {received : List HttpOutcome} {last : HttpOutcome} (args : PageArgs)
    (wakeAt : PyFloat) (hfail : ∀ o ∈ received, o.isFailure = true)
    (hlast : last.isFailure = true) (hleft : received.length < client.maxRetries) :
    Stage client (received ++ [last]) (received.length + 1)
      { args, attempt := received.length, phase := .backingOff wakeAt }
  /-- The last attempt has succeeded. -/
  | returned {received : List HttpOutcome} {last : HttpResponse}
    {payload : List (String × Json)} (args : PageArgs)
    (hfail : ∀ o ∈ received, o.isFailure = true) (hleft : received.length ≤ client.maxRetries)
    (hlast : (HttpOutcome.response last).isFailure = false) (hok : Succeeds last payload) :
    Stage client (received ++ [.response last]) (received.length + 1)
      { args, attempt := received.length, phase := .returned payload }
  /-- The last attempt has failed for good, or is the last one that there is. -/
  | raised {received : List HttpOutcome} {last : HttpOutcome} (args : PageArgs)
    (error : DonutApiError) (hfail : ∀ o ∈ received, o.isFailure = true)
    (hleft : received.length ≤ client.maxRetries)
    (hlast : last.isFailure = true → client.maxRetries ≤ received.length) :
    Stage client (received ++ [last]) (received.length + 1)
      { args, attempt := received.length, phase := .raised (.api error) }

/-- The step does not bring the call `i` an outcome that it does not handle: a transport error
other than a timeout or a network error, or a transient error to retry after 1024 others. -/
def Handled (client : DonutApiClient) (i : ℕ) (s : ClientState) : ℚ × ClientEvent → Prop
  | (_, event) =>
    ∀ outcome c, event.outcome? i = some outcome → s.calls[i]? = some c →
      outcome.isFailure = true → outcome.isTransient = true ∧
        (c.attempt < client.maxRetries →
          (s.limiter.states c.args.tokenKey).consecutiveErrors < 1024)

theorem outcome?_of_call_ne (h : event.call ≠ some i) : event.outcome? i = none := by
  cases event with
  | respond j outcome utcNow => exact if_neg fun hj => h (congrArg some hj)
  | _ => rfl

theorem attempts_of_calls {e : ℚ × ClientEvent} {c c' : PageCall} (hc : s.calls[i]? = some c)
    (hc' : s'.calls[i]? = some c') : attempts i s e s' =
      if c.phase.isInFlight = false ∧ c'.phase.isInFlight = true then 1 else 0 := by
  rw [attempts, ClientState.isInFlight, ClientState.isInFlight, hc, hc']
  rfl

theorem attempts_of_none {e : ℚ × ClientEvent} (h : s'.isInFlight i = false) :
    attempts i s e s' = 0 := if_neg fun hsent => by rw [h] at hsent; cases hsent.2

/-- Every request that is sent has a grant of its own. -/
theorem attempts_eq_grants (hstep : client.step s (now, event) = some s') :
    attempts i s (now, event) s' = grants i s (now, event) s' := by
  cases hc' : s'.calls[i]? with
  | none =>
    have hc : s.calls[i]? = none := by
      cases hc : s.calls[i]? with
      | none => rfl
      | some c =>
        obtain ⟨c'', hc'', -, -⟩ := client.step_call hstep hc
        cases hc'.symm.trans hc''
    rw [attempts_of_none (by rw [ClientState.isInFlight, hc']; rfl)]
    cases event with
    | tryAcquire j => simp [grants, hc]
    | _ => rfl
  | some c' =>
    have hcall := callStep_of_step hstep hc'
    cases hc : s.calls[i]? with
    | none =>
      rw [hc] at hcall
      cases hcall with
      | started args =>
        rw [attempts_of_none (by rw [ClientState.isInFlight, hc']; exact start_isInFlight args)]
        rfl
    | some c =>
      rw [hc] at hcall
      rw [attempts_of_calls hc hc']
      cases hcall with
      | other hevent =>
        rw [if_neg fun h => by rw [h.1] at h; cases h.2]
        cases event with
        | tryAcquire j => exact (if_neg fun hj => hevent (congrArg some hj)).symm
        | _ => rfl
      | granted hphase hgrant => simp [grants, hc, hphase, hgrant, CallPhase.isInFlight]
      | refused hphase hrefused => simp [grants, hc, hrefused, CallPhase.isInFlight]
      | answered outcome utcNow hphase => simp [grants, hphase, CallPhase.isInFlight]
      | resumed hphase => simp [grants, CallPhase.isInFlight]

/-! ### From stage to stage -/

private theorem succeeds_of_status {response : HttpResponse} {fields : List (String × Json)}
    (hjson : response.json = some (.object fields))
    (h : isSuccessApiStatus (Json.field? fields "status") response.statusCode = true) :
    Succeeds response fields := by
  unfold isSuccessApiStatus at h
  split at h
  · rename_i status hstatus
    simp only [decide_eq_true_eq] at h
    exact ⟨h.1, h.2.1, hjson, status, hstatus, h.2.2⟩
  · cases h

/-- A transient error that follows fewer than 1024 others is recorded. -/
private theorem recordTransientError_ne_none {state : TokenLimitState} {maximum : PyFloat}
    (h : state.consecutiveErrors < 1024) :
    (state.recordTransientError now maximum).1 ≠ none := by
  rw [TokenLimitState.recordTransientError_fst, if_pos h]
  exact Option.some_ne_none _

/-- The phase after a handled outcome. -/
private theorem stage_of_outcome {received : List HttpOutcome} {outcome : HttpOutcome}
    {state : TokenLimitState} (now utcNow : ℚ) (args : PageArgs)
    (hfail : ∀ o ∈ received, o.isFailure = true) (hleft : received.length ≤ client.maxRetries)
    (hhandled : outcome.isFailure = true → outcome.isTransient = true ∧
      (received.length < client.maxRetries → state.consecutiveErrors < 1024)) :
    Stage client (received ++ [outcome]) (received.length + 1)
      { args, attempt := received.length,
        phase := (client.handleOutcome now utcNow received.length outcome state).1.phase now } := by
  rcases client.handleOutcome_cases now utcNow received.length outcome state with
    ⟨htransient, reason, h⟩ | ⟨htransient, ⟨error, rfl, h⟩ |
      ⟨response, fields, rfl, hjson, hsuccess, h⟩ | ⟨response, error, rfl, h, -⟩⟩
  · rw [h]
    have hfailure := HttpOutcome.isFailure_of_isTransient htransient
    rcases client.retry_cases now received.length reason state with
      ⟨hused, hretry⟩ | ⟨hmore, hnone, -⟩ | ⟨hmore, delay, -, hretry⟩
    · rw [hretry]
      exact .raised args _ hfail hleft fun _ => hused
    · exact absurd hnone (recordTransientError_ne_none ((hhandled hfailure).2 hmore))
    · rw [hretry]
      exact .backingOff args _ hfail hfailure hmore
  · rw [(hhandled rfl).1] at htransient
    cases htransient
  · rw [h]
    exact .returned args hfail hleft htransient (succeeds_of_status hjson hsuccess)
  · rw [h]
    refine .raised args error hfail hleft fun hfailure => ?_
    rw [(hhandled hfailure).1] at htransient
    cases htransient

/-- A step whose outcome is handled leads from one stage to the next. -/
theorem CallStep.stage {c c' : PageCall} {received : List HttpOutcome} {n : ℕ}
    (h : CallStep client s now i event (some c) c') (hc : s.calls[i]? = some c)
    (hc' : s'.calls[i]? = some c') (hhandled : client.Handled i s (now, event))
    (hstage : Stage client received n c) :
    Stage client (received ++ (event.outcome? i).toList) (n + attempts i s (now, event) s') c' := by
  rw [attempts_of_calls hc hc']
  cases h with
  | other hevent =>
    rw [outcome?_of_call_ne hevent, if_neg fun h => by rw [h.1] at h; cases h.2]
    simpa using hstage
  | granted hphase hgrant =>
    cases hstage with
    | acquiring args wakeAt hfail hleft =>
      simpa [ClientEvent.outcome?, CallPhase.isInFlight] using Stage.inFlight args hfail hleft
    | _ => cases hphase
  | refused hphase hrefused =>
    cases hstage with
    | acquiring args wakeAt hfail hleft =>
      simpa [ClientEvent.outcome?, CallPhase.isInFlight] using
        Stage.acquiring args _ hfail hleft
    | _ => cases hphase
  | answered outcome utcNow hphase =>
    cases hstage with
    | inFlight args hfail hleft =>
      have hnext := stage_of_outcome now utcNow args hfail hleft
        (hhandled outcome _ (if_pos rfl) hc)
      simpa [ClientEvent.outcome?, CallPhase.isInFlight] using hnext
    | _ => cases hphase
  | resumed hphase =>
    cases hstage with
    | backingOff args wakeAt hfail hlast hleft =>
      rename_i received last
      rw [← CallPhase.backingOff.inj hphase]
      have hall : ∀ o ∈ received ++ [last], o.isFailure = true := by
        simpa [or_imp, forall_and] using ⟨hfail, hlast⟩
      have hattempts : (received ++ [last]).length ≤ client.maxRetries := by
        rw [List.length_append, List.length_singleton]
        omega
      have hnext := Stage.acquiring args wakeAt hall hattempts
      simpa [ClientEvent.outcome?, CallPhase.isInFlight] using hnext
    | _ => cases hphase

/-! ### Runs -/

variable {limits : RateLimits} {clock : ℚ} {events : List (ℚ × ClientEvent)}

/-- Along handled outcomes a call passes from stage to stage, and a call that has not begun has
sent and received nothing. -/
theorem stage_of_run (hrun : run client.step (initial limits clock) events = some s)
    (hhandled : Along client.step (client.Handled i) (initial limits clock) events) :
    (∀ c, s.calls[i]? = some c → Stage client (outcomes i events)
      (total client.step (attempts i) (initial limits clock) events) c) ∧
    (s.calls[i]? = none → outcomes i events = [] ∧
      total client.step (attempts i) (initial limits clock) events = 0) := by
  induction events using List.reverseRecOn generalizing s with
  | nil =>
    obtain rfl := Option.some.inj hrun
    exact ⟨fun c hc => by simp [initial] at hc, fun _ => ⟨rfl, rfl⟩⟩
  | append_singleton events e ih =>
    obtain ⟨m, hm, hlast⟩ := (run_append client.step).mp hrun
    rw [run_singleton] at hlast
    obtain ⟨hbefore, hafter⟩ := (along_append client.step).mp hhandled
    obtain ⟨now, event⟩ := e
    obtain ⟨hstage, habsent⟩ := ih hm hbefore
    have houtcomes : outcomes i (events ++ [(now, event)]) =
        outcomes i events ++ (event.outcome? i).toList := by
      rw [outcomes, List.filterMap_append, outcomes]
      cases h : event.outcome? i <;> simp [h]
    rw [houtcomes, total_concat client.step hm hlast]
    refine ⟨fun c' hc' => ?_, fun hnone => ?_⟩
    · have hcall := callStep_of_step hlast hc'
      cases hc : m.calls[i]? with
      | none =>
        rw [hc] at hcall
        obtain ⟨hout, htotal⟩ := habsent hc
        cases hcall with
        | started args =>
          have hother : (ClientEvent.start args).outcome? i = none :=
            outcome?_of_call_ne (Option.some_ne_none i).symm
          rw [hout, htotal, List.nil_append, hother,
            attempts_of_none (by rw [ClientState.isInFlight, hc']; exact start_isInFlight args)]
          by_cases hleft : 0 ≤ client.maxRetries
          · rw [client.start_of_nonneg hleft]
            exact .acquiring args _ (by simp) hleft
          · rw [client.start_of_neg (not_le.mp hleft)]
            exact .exhausted args (not_le.mp hleft)
      | some c =>
        rw [hc] at hcall
        exact hcall.stage hc hc' (hafter m hm).1 (hstage c hc)
    · have hc : m.calls[i]? = none := by
        cases hc : m.calls[i]? with
        | none => rfl
        | some c =>
          obtain ⟨c', hc', -, -⟩ := client.step_call hlast hc
          cases hnone.symm.trans hc'
      obtain ⟨hout, htotal⟩ := habsent hc
      rw [hout, htotal, attempts_of_none (by rw [ClientState.isInFlight, hnone]; rfl)]
      refine ⟨?_, rfl⟩
      rw [outcome?_of_call_ne fun hevent => ?_]
      · rfl
      · rcases client.step_calls hlast with ⟨hcall, -⟩ | ⟨j, c, -, hj, hc', -⟩
        · cases hcall.symm.trans hevent
        · obtain rfl := Option.some.inj (hj.symm.trans hevent)
          cases hc.symm.trans hc'

/-- An attempt that fails while others are left is recorded as a transient error, and the call
sleeps for the delay that the record returns. -/
def BacksOff (client : DonutApiClient) (i : ℕ) (s : ClientState) : ℚ × ClientEvent → Prop
  | (now, event) =>
    ∀ outcome c s', event.outcome? i = some outcome → s.calls[i]? = some c →
      outcome.isFailure = true → c.attempt < client.maxRetries →
      client.step s (now, event) = some s' →
      ∃ delay, ((s.limiter.states c.args.tokenKey).recordTransientError now (.fin 60)).1 =
          some delay ∧
        s'.limiter.states c.args.tokenKey =
          ((s.limiter.states c.args.tokenKey).recordTransientError now (.fin 60)).2 ∧
        (s'.calls[i]?).map PageCall.phase = some (.backingOff ((PyFloat.fin now).add delay))

/-- What is expected of the call `i`, which a run from the initial state has led to `c`. -/
structure Conforms (client : DonutApiClient) (i : ℕ) (s₀ : ClientState)
    (events : List (ℚ × ClientEvent)) (c : PageCall) : Prop where
  /-- There are at most `max_retries + 1` attempts. -/
  bounded : total client.step (attempts i) s₀ events ≤ (client.maxRetries + 1).toNat
  /-- Every attempt has a grant of its own. -/
  granted : total client.step (attempts i) s₀ events = total client.step (grants i) s₀ events
  /-- All attempts but the one in flight have come back. -/
  answered : (outcomes i events).length + (if c.phase.isInFlight = true then 1 else 0) =
    total client.step (attempts i) s₀ events
  /-- The call goes on after failures only. -/
  retried : ∀ o ∈ (outcomes i events).dropLast, o.isFailure = true
  /-- Before another attempt the call backs off. -/
  backsOff : Along client.step (client.BacksOff i) s₀ events
  /-- An outcome that is not a failure ends the call, as does the last attempt. -/
  ended : c.phase.isEnded = true ↔
    (client.maxRetries + 1).toNat ≤ (outcomes i events).length ∨
      ∃ o ∈ outcomes i events, o.isFailure = false
  /-- A payload is returned from a response that succeeds. -/
  returns : ∀ payload, c.phase = .returned payload →
    ∃ response, (outcomes i events).getLast? = some (.response response) ∧
      Succeeds response payload
  /-- Only subclasses of `DonutApiError` are raised. -/
  raises : ∀ failure, c.phase = .raised failure → ∃ error, failure = .api error

/-- A call that has received failures only, and has attempts left, goes on. -/
private theorem not_over {received : List HttpOutcome} (hfail : ∀ o ∈ received, o.isFailure = true)
    (hleft : received.length ≤ client.maxRetries) :
    ¬ ((client.maxRetries + 1).toNat ≤ received.length ∨ ∃ o ∈ received, o.isFailure = false) := by
  rintro (hfull | ⟨o, ho, hlast⟩)
  · omega
  · rw [hfail o ho] at hlast
    cases hlast

/-- What a stage says about the outcomes and attempts of the call. -/
private theorem Stage.counts {received : List HttpOutcome} {n : ℕ} {c : PageCall}
    (h : Stage client received n c) :
    n ≤ (client.maxRetries + 1).toNat ∧
      received.length + (if c.phase.isInFlight = true then 1 else 0) = n ∧
      (∀ o ∈ received.dropLast, o.isFailure = true) ∧
      (c.phase.isEnded = true ↔ (client.maxRetries + 1).toNat ≤ received.length ∨
        ∃ o ∈ received, o.isFailure = false) := by
  have hlength : ∀ (received : List HttpOutcome) (last : HttpOutcome),
      (received ++ [last]).length = received.length + 1 := fun _ _ => by simp
  cases h with
  | exhausted args hnone =>
    refine ⟨Nat.zero_le _, rfl, by simp, iff_of_true rfl (.inl ?_)⟩
    rw [List.length_nil]
    omega
  | acquiring args wakeAt hfail hleft =>
    refine ⟨by omega, rfl, fun o ho => hfail o ((List.dropLast_sublist received).subset ho), ?_⟩
    exact iff_of_false Bool.false_ne_true (not_over hfail hleft)
  | inFlight args hfail hleft =>
    refine ⟨by omega, rfl, fun o ho => hfail o ((List.dropLast_sublist received).subset ho), ?_⟩
    exact iff_of_false Bool.false_ne_true (not_over hfail hleft)
  | backingOff args wakeAt hfail hlast hleft =>
    refine ⟨by omega, hlength _ _, by simpa using hfail, ?_⟩
    refine iff_of_false Bool.false_ne_true (not_over ?_ ?_)
    · simpa [or_imp, forall_and] using ⟨hfail, hlast⟩
    · rw [hlength]
      omega
  | returned args hfail hleft hlast hok =>
    refine ⟨by omega, hlength _ _, by simpa using hfail, ?_⟩
    exact iff_of_true rfl (.inr ⟨_, List.mem_append_right _ (List.mem_singleton_self _), hlast⟩)
  | raised args error hfail hleft hlast =>
    rename_i received last
    refine ⟨by omega, hlength _ _, by simpa using hfail, iff_of_true rfl ?_⟩
    cases hfailure : last.isFailure with
    | true =>
      have := hlast hfailure
      rw [hlength]
      exact .inl (by omega)
    | false => exact .inr ⟨last, List.mem_append_right _ (List.mem_singleton_self _), hfailure⟩

/-- How a call at a stage has ended. -/
private theorem Stage.ends {received : List HttpOutcome} {n : ℕ} {c : PageCall}
    (h : Stage client received n c) :
    (∀ payload, c.phase = .returned payload →
      ∃ response, received.getLast? = some (.response response) ∧ Succeeds response payload) ∧
    ∀ failure, c.phase = .raised failure → ∃ error, failure = .api error := by
  cases h with
  | returned args hfail hleft hlast hok =>
    refine ⟨fun payload hpayload => ?_, fun failure hfailure => by cases hfailure⟩
    rw [← CallPhase.returned.inj hpayload]
    exact ⟨_, List.getLast?_concat, hok⟩
  | exhausted | raised =>
    refine ⟨fun payload hpayload => (by cases hpayload), fun failure hfailure => ?_⟩
    exact ⟨_, (CallPhase.raised.inj hfailure).symm⟩
  | _ =>
    exact ⟨fun payload hpayload => (by cases hpayload), fun failure hfailure => by cases hfailure⟩

/-- The grants of a call along a run are its attempts. -/
private theorem total_attempts (hrun : run client.step (initial limits clock) events = some s) :
    total client.step (attempts i) (initial limits clock) events =
      total client.step (grants i) (initial limits clock) events := by
  induction events using List.reverseRecOn generalizing s with
  | nil => rfl
  | append_singleton events e ih =>
    obtain ⟨m, hm, hlast⟩ := (run_append client.step).mp hrun
    rw [run_singleton] at hlast
    rw [total_concat client.step hm hlast, total_concat client.step hm hlast, ih hm,
      attempts_eq_grants hlast]

/-- The step in which a call receives an outcome. -/
theorem step_outcome (hstep : client.step s (now, event) = some s') {outcome : HttpOutcome}
    (houtcome : event.outcome? i = some outcome) {c : PageCall} (hc : s.calls[i]? = some c) :
    ∃ utcNow, s'.calls[i]? = some { c with
        phase := (client.handleOutcome now utcNow c.attempt outcome
          (s.limiter.states c.args.tokenKey)).1.phase now } ∧
      s'.limiter.states c.args.tokenKey = (client.handleOutcome now utcNow c.attempt outcome
        (s.limiter.states c.args.tokenKey)).2 := by
  cases event with
  | respond j outcome' utcNow =>
    by_cases hj : j = i
    · subst hj
      obtain rfl : outcome' = outcome := Option.some.inj ((if_pos rfl).symm.trans houtcome)
      obtain ⟨-, c', hc', -, rfl⟩ := client.step_respond.mp hstep
      obtain rfl := Option.some.inj (hc'.symm.trans hc)
      refine ⟨utcNow, List.getElem?_set_self (List.getElem?_eq_some_iff.mp hc).1, ?_⟩
      simp [respondStep]
    · cases (if_neg hj).symm.trans houtcome
  | _ => cases houtcome

/-- A handled failure is recorded before another attempt. -/
private theorem backsOff_of_handled {e : ℚ × ClientEvent} (h : client.Handled i s e) :
    client.BacksOff i s e := by
  obtain ⟨now, event⟩ := e
  intro outcome c s' houtcome hc hfailure hleft hstep
  obtain ⟨htransient, hcount⟩ := h outcome c houtcome hc hfailure
  obtain ⟨utcNow, hcall, hstate⟩ := step_outcome hstep houtcome hc
  obtain ⟨reason, hretry⟩ := client.handleOutcome_of_isTransient now utcNow c.attempt htransient
    (s.limiter.states c.args.tokenKey)
  rcases client.retry_cases now c.attempt reason (s.limiter.states c.args.tokenKey) with
    ⟨hused, -⟩ | ⟨-, hnone, -⟩ | ⟨-, delay, hdelay, hresult⟩
  · omega
  · exact absurd hnone (recordTransientError_ne_none (hcount hleft))
  · exact ⟨delay, hdelay, by rw [hstate, hretry, hresult], by rw [hcall, hretry, hresult]; rfl⟩

/-- A call whose outcome is not handled raises something else than a `DonutApiError`. -/
private theorem raised_of_not_handled (hstep : client.step s (now, event) = some s')
    (h : ¬ client.Handled i s (now, event)) :
    ∃ c failure, s'.calls[i]? = some c ∧ c.phase = .raised failure ∧
      ∀ error, failure ≠ .api error := by
  simp only [Handled, not_forall] at h
  obtain ⟨outcome, c, houtcome, hc, hfailure, hbad⟩ := h
  obtain ⟨utcNow, hcall, -⟩ := step_outcome hstep houtcome hc
  have hraised : ∀ failure, (client.handleOutcome now utcNow c.attempt outcome
      (s.limiter.states c.args.tokenKey)).1 = .raised failure → (∀ error, failure ≠ .api error) →
      ∃ c failure, s'.calls[i]? = some c ∧ c.phase = .raised failure ∧
        ∀ error, failure ≠ .api error := fun failure hresult hne =>
    ⟨_, failure, hcall, by rw [hresult]; rfl, hne⟩
  rcases client.handleOutcome_cases now utcNow c.attempt outcome
    (s.limiter.states c.args.tokenKey) with ⟨htransient, reason, hretry⟩ | ⟨htransient, hother⟩
  · rcases client.retry_cases now c.attempt reason (s.limiter.states c.args.tokenKey) with
      ⟨hused, -⟩ | ⟨-, -, hresult⟩ | ⟨-, delay, hdelay, -⟩
    · exact absurd ⟨htransient, fun hleft => absurd hused (not_le.mpr hleft)⟩ hbad
    · exact hraised .overflowError (by rw [hretry, hresult]) fun error h => by cases h
    · rw [TokenLimitState.recordTransientError_fst] at hdelay
      refine absurd ⟨htransient, fun _ => ?_⟩ hbad
      by_contra hlarge
      rw [if_neg hlarge] at hdelay
      cases hdelay
  · cases outcome with
    | response response =>
      rw [HttpOutcome.isTransient, ← HttpOutcome.isFailure, hfailure] at htransient
      cases htransient
    | transportError error =>
      rcases hother with ⟨error', -, hresult⟩ | ⟨response, fields, h, -⟩ | ⟨response, error, h, -⟩
      · exact hraised (.transport error') (by rw [hresult]) fun error h => by cases h
      · cases h
      · cases h

/-- A call that has ended stays as it is. -/
private theorem run_of_isEnded (hrun : run client.step s events = some s') {c : PageCall}
    (hc : s.calls[i]? = some c) (hended : c.phase.isEnded = true) : s'.calls[i]? = some c := by
  refine run_invariant client.step (I := fun s => s.calls[i]? = some c) (fun s e t hs hstep => ?_)
    hrun hc
  obtain ⟨now, event⟩ := e
  obtain ⟨c', hc', -, -⟩ := client.step_call hstep hs
  have hcall := callStep_of_step hstep hc'
  rw [hs] at hcall
  rw [hc', hcall.of_isEnded hended]

/-- All outcomes of a call that raises nothing but a `DonutApiError` are handled. -/
private theorem handled_of_raises (hrun : run client.step s events = some s') {c : PageCall}
    (hc : s'.calls[i]? = some c)
    (hraises : ∀ failure, c.phase = .raised failure → ∃ error, failure = .api error) :
    Along client.step (client.Handled i) s events := by
  induction events generalizing s with
  | nil => trivial
  | cons e events ih =>
    obtain ⟨now, event⟩ := e
    obtain ⟨m, hm, hrest⟩ := (run_cons client.step).mp hrun
    refine ⟨by_contra fun hbad => ?_, fun t ht => ?_⟩
    · obtain ⟨c', failure, hc', hphase, hfailure⟩ := raised_of_not_handled hm hbad
      have hc'' := run_of_isEnded hrest hc' (by rw [hphase]; rfl)
      obtain rfl := Option.some.inj (hc''.symm.trans hc)
      obtain ⟨error, rfl⟩ := hraises failure hphase
      exact hfailure error rfl
    · obtain rfl := Option.some.inj (hm.symm.trans ht)
      exact ih hrest

/-- A call of `_request_page` conforms if and only if all of its outcomes are handled. -/
theorem conforms_iff (limits : RateLimits) (clock : ℚ) (events : List (ℚ × ClientEvent))
    {s : ClientState} (hrun : run client.step (initial limits clock) events = some s) {i : ℕ}
    {c : PageCall} (hc : s.calls[i]? = some c) :
    Conforms client i (initial limits clock) events c ↔
      Along client.step (client.Handled i) (initial limits clock) events := by
  constructor
  · exact fun h => handled_of_raises hrun hc h.raises
  · intro hhandled
    have hstage := (stage_of_run hrun hhandled).1 c hc
    obtain ⟨hbounded, hanswered, hretried, hended⟩ := hstage.counts
    obtain ⟨hreturns, hraises⟩ := hstage.ends
    exact ⟨hbounded, total_attempts hrun, hanswered, hretried,
      hhandled.of_invariant client.step (I := fun _ => True) (fun _ _ _ _ _ _ => trivial)
        (fun _ _ _ h => backsOff_of_handled h) trivial, hended, hreturns, hraises⟩

/-- A 503, a backoff of a second, and a second attempt that succeeds. -/
theorem conforms_iff_retried : ∃ s c,
    run (step ⟨twoDigitHeaders, 2⟩) (initial ⟨220, 250, 60, by decide, by decide⟩ 0)
      [(0, .start ⟨"token", "alice", 1, "diamond", false⟩), (0, .tryAcquire 0),
        (1, .respond 0 (.response ⟨503, none, none⟩) 1), (2, .nextAttempt 0), (2, .tryAcquire 0),
        (3, .respond 0 emptyPage 3)] = some s ∧ s.calls[0]? = some c ∧
    (Conforms ⟨twoDigitHeaders, 2⟩ 0 (initial ⟨220, 250, 60, by decide, by decide⟩ 0)
      [(0, .start ⟨"token", "alice", 1, "diamond", false⟩), (0, .tryAcquire 0),
        (1, .respond 0 (.response ⟨503, none, none⟩) 1), (2, .nextAttempt 0), (2, .tryAcquire 0),
        (3, .respond 0 emptyPage 3)] c ↔
      Along (step ⟨twoDigitHeaders, 2⟩) (Handled ⟨twoDigitHeaders, 2⟩ 0)
        (initial ⟨220, 250, 60, by decide, by decide⟩ 0)
        [(0, .start ⟨"token", "alice", 1, "diamond", false⟩), (0, .tryAcquire 0),
          (1, .respond 0 (.response ⟨503, none, none⟩) 1), (2, .nextAttempt 0),
          (2, .tryAcquire 0), (3, .respond 0 emptyPage 3)]) := by
  have hsome : ((run (step ⟨twoDigitHeaders, 2⟩)
      (initial ⟨220, 250, 60, by decide, by decide⟩ 0)
      [(0, .start ⟨"token", "alice", 1, "diamond", false⟩), (0, .tryAcquire 0),
        (1, .respond 0 (.response ⟨503, none, none⟩) 1), (2, .nextAttempt 0), (2, .tryAcquire 0),
        (3, .respond 0 emptyPage 3)]).bind fun s => s.calls[0]?).isSome = true := by
    decide +kernel
  obtain ⟨c, hc⟩ := Option.isSome_iff_exists.mp hsome
  obtain ⟨s, hrun, hc⟩ := Option.bind_eq_some_iff.mp hc
  exact ⟨s, c, hrun, hc, conforms_iff _ _ _ hrun hc⟩

/-- The server disconnects during the first of three attempts: the call raises an error that is no
`DonutApiError`, and makes no other attempt. -/
theorem not_conforms : ∃ s c,
    run (step ⟨twoDigitHeaders, 2⟩) (initial ⟨220, 250, 60, by decide, by decide⟩ 0)
      [(0, .start ⟨"token", "alice", 1, "diamond", false⟩), (0, .tryAcquire 0),
        (1, .respond 0 (.transportError .remoteProtocolError) 1)] = some s ∧
    s.calls[0]? = some c ∧ c.phase = .raised (.transport .remoteProtocolError) ∧
    ¬ Conforms ⟨twoDigitHeaders, 2⟩ 0 (initial ⟨220, 250, 60, by decide, by decide⟩ 0)
      [(0, .start ⟨"token", "alice", 1, "diamond", false⟩), (0, .tryAcquire 0),
        (1, .respond 0 (.transportError .remoteProtocolError) 1)] c := by
  refine ⟨_, _, rfl, rfl, rfl, fun h => ?_⟩
  obtain ⟨error, herror⟩ := h.raises _ rfl
  cases herror

end DonutApiClient

end DonutMonitor
