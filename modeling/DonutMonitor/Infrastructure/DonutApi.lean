import DonutMonitor.Foundations.Json
import DonutMonitor.Foundations.Transition
import DonutMonitor.Infrastructure.RateLimiter

/-!
# Requests to the DonutSMP API

`DonutApiClient._request_page` requests one page of the auction list: it acquires a grant of the
limiter, sends the request and decides by the outcome whether to return the payload, to raise, or
to sleep and try again. Any number of such calls run concurrently and share the limiter. Between
two suspension points a call is atomic; it is suspended while it sleeps in `acquire`, while its
request is in flight and while it sleeps after a transient error.

The HTTP library is a parameter: an outcome is any response, or any exception of the
`TransportError` family. So are the header parsers, `float` and `parsedate_to_datetime`.

## Main definitions

* `HttpOutcome`, `DonutApiError`, `RequestFailure` — what a request comes back with, and what the
  call can raise.
* `DonutApiClient.handleOutcome` — the body of the retry loop after the request.
* `ClientState`, `DonutApiClient.step` — all calls in flight, and one step of one of them.

## Main results

* `DonutApiClient.handleOutcome_of_429` — a 429 blocks the key.
-/

namespace DonutMonitor

/-- The exceptions of `httpx.TransportError`. -/
inductive TransportError where
  | connectTimeout
  | readTimeout
  | writeTimeout
  | poolTimeout
  | connectError
  | readError
  | writeError
  | closeError
  | localProtocolError
  | remoteProtocolError
  | proxyError
  | unsupportedProtocol
  deriving DecidableEq, Repr

namespace TransportError

/-- The subclasses of `httpx.TimeoutException`. -/
def isTimeoutException : TransportError → Bool
  | connectTimeout | readTimeout | writeTimeout | poolTimeout => true
  | _ => false

/-- The subclasses of `httpx.NetworkError`. -/
def isNetworkError : TransportError → Bool
  | connectError | readError | writeError | closeError => true
  | _ => false

/-- `type(exc).__name__`. -/
def name : TransportError → String
  | connectTimeout => "ConnectTimeout"
  | readTimeout => "ReadTimeout"
  | writeTimeout => "WriteTimeout"
  | poolTimeout => "PoolTimeout"
  | connectError => "ConnectError"
  | readError => "ReadError"
  | writeError => "WriteError"
  | closeError => "CloseError"
  | localProtocolError => "LocalProtocolError"
  | remoteProtocolError => "RemoteProtocolError"
  | proxyError => "ProxyError"
  | unsupportedProtocol => "UnsupportedProtocol"

end TransportError

/-- The subclasses of `DonutApiError`. -/
inductive DonutApiError where
  | authentication (message : String)
  | rateLimit (retryAfter : PyFloat)
  | transient (message : String)
  | response (message : String)
  deriving DecidableEq, Repr

/-- What `_request_page` can raise: a `DonutApiError`, a transport error that it does not catch, or
the `OverflowError` of `record_transient_error`. -/
inductive RequestFailure where
  | api (error : DonutApiError)
  | transport (error : TransportError)
  | overflowError
  deriving DecidableEq, Repr

/-- A response. The body is `none` when decoding it raises `ValueError`. -/
structure HttpResponse where
  statusCode : ℤ
  retryAfter : Option String := none
  json : Option Json := none

/-- The outcome of a request. -/
inductive HttpOutcome where
  | response (response : HttpResponse)
  | transportError (error : TransportError)

/-- What `parsedate_to_datetime` makes of a header: a datetime with a time zone, as seconds since
the epoch, a naive datetime, or an exception. -/
inductive ParsedDate where
  | aware (timestamp : ℚ)
  | naive
  | error
  deriving DecidableEq, Repr

/-- The parsers that `_parse_retry_after` calls. -/
structure HeaderParsers where
  /-- `float(value)`, where `none` is `ValueError`. -/
  float : String → Option PyFloat
  parsedate : String → ParsedDate

/-- `_parse_retry_after`, at the reading `utcNow` of the wall clock. Subtracting the aware current
time from a naive datetime raises `TypeError`, which is caught. -/
def parseRetryAfter (parsers : HeaderParsers) (utcNow : ℚ) : Option String → PyFloat
  | none => .fin 1
  | some value =>
    if value = "" then .fin 1
    else
      match parsers.float value with
      | some seconds => seconds.max (.fin 0)
      | none =>
        match parsers.parsedate value with
        | .aware timestamp => (PyFloat.fin (timestamp - utcNow)).max (.fin 0)
        | .naive | .error => .fin 1

/-- `_is_success_api_status`. A `bool` is an `int` in Python and is excluded. -/
def isSuccessApiStatus (value : Option Json) (httpStatus : ℤ) : Bool :=
  match value with
  | some (.int status) => 200 ≤ httpStatus ∧ httpStatus < 300 ∧ (status = 0 ∨ status = httpStatus)
  | _ => false

/-- `httpx.Response.is_error`. -/
def HttpResponse.isError (r : HttpResponse) : Bool := 400 ≤ r.statusCode ∧ r.statusCode ≤ 599

/-- The configuration of a `DonutApiClient` that `_request_page` reads. -/
structure DonutApiClient where
  parsers : HeaderParsers
  maxRetries : ℤ := 2

/-- What one attempt comes to: the payload is returned, an exception leaves the call, or the call
sleeps before its next attempt. -/
inductive AttemptResult where
  | returned (payload : List (String × Json))
  | raised (failure : RequestFailure)
  | backoff (delay : PyFloat)

namespace DonutApiClient

variable (client : DonutApiClient)

/-- The end of an attempt that failed transiently. -/
def retry (now : ℚ) (attempt : ℕ) (reason : String) (s : TokenLimitState) :
    AttemptResult × TokenLimitState :=
  if client.maxRetries ≤ attempt then (.raised (.api (.transient reason)), s)
  else
    match s.recordTransientError now (.fin 60) with
    | (none, s) => (.raised .overflowError, s)
    | (some delay, s) => (.backoff delay, s)

/-- The body of the loop of `_request_page` after the request, on the limiter state of the key. -/
def handleOutcome (now utcNow : ℚ) (attempt : ℕ) (outcome : HttpOutcome) (s : TokenLimitState) :
    AttemptResult × TokenLimitState :=
  match outcome with
  | .transportError error =>
    if error.isTimeoutException || error.isNetworkError then client.retry now attempt error.name s
    else (.raised (.transport error), s)
  | .response response =>
    if response.statusCode = 401 ∨ response.statusCode = 403 then
      (.raised (.api (.authentication "DonutSMP rejected the token")), s)
    else if response.statusCode = 429 then
      let retryAfter := parseRetryAfter client.parsers utcNow response.retryAfter
      (.raised (.api (.rateLimit retryAfter)), s.block now retryAfter)
    else if 500 ≤ response.statusCode ∧ response.statusCode ≤ 599 then
      client.retry now attempt s!"http_{response.statusCode}" s
    else if response.isError then
      (.raised (.api (.response s!"Unexpected HTTP status {response.statusCode}")), s)
    else
      match response.json with
      | none => (.raised (.api (.response "DonutSMP returned invalid JSON")), s)
      | some (.object fields) =>
        if isSuccessApiStatus (Json.field? fields "status") response.statusCode then
          (.returned fields, s.recordSuccess)
        else (.raised (.api (.response "DonutSMP returned an unexpected API status")), s)
      | some _ => (.raised (.api (.response "DonutSMP response is not an object")), s)

end DonutApiClient

/-- A response with which `_request_page` returns: a 2xx status and an object whose `status` is 0
or the HTTP status. -/
def HttpOutcome.succeeds : HttpOutcome → Bool
  | .response ⟨statusCode, _, some (.object fields)⟩ =>
    isSuccessApiStatus (Json.field? fields "status") statusCode
  | _ => false

/-- The outcomes after which `_request_page` makes another attempt: a timeout, a network error or
a 5xx status. -/
def HttpOutcome.isTransient : HttpOutcome → Bool
  | .response r => 500 ≤ r.statusCode ∧ r.statusCode ≤ 599
  | .transportError error => error.isTimeoutException || error.isNetworkError

/-- The arguments of `_request_page`. -/
structure PageArgs where
  token : String
  tokenKey : String
  page : ℤ
  search : String
  interactive : Bool
  deriving DecidableEq, Repr

/-- Where a call of `_request_page` is suspended, or how it ended. -/
inductive CallPhase where
  | acquiring (wakeAt : PyFloat)
  | inFlight
  | backingOff (wakeAt : PyFloat)
  | returned (payload : List (String × Json))
  | raised (failure : RequestFailure)

/-- The request of the attempt has been sent and not been answered. -/
def CallPhase.isInFlight : CallPhase → Bool
  | inFlight => true
  | _ => false

/-- A call of `_request_page`. -/
structure PageCall where
  args : PageArgs
  attempt : ℕ := 0
  phase : CallPhase

/-- The calls of `_request_page` on one client, with the clock and the limiter they share. -/
structure ClientState where
  clock : ℚ
  limiter : PerTokenRateLimiter
  calls : List PageCall

/-- What one call does, or the start of a further one. -/
inductive ClientEvent where
  | start (args : PageArgs)
  | tryAcquire (call : ℕ)
  | respond (call : ℕ) (outcome : HttpOutcome) (utcNow : ℚ)
  | nextAttempt (call : ℕ)

/-- The call that an event is about, unless it starts one. -/
def ClientEvent.call : ClientEvent → Option ℕ
  | start _ => none
  | tryAcquire i | respond i _ _ | nextAttempt i => some i

/-- The sleep until `wakeAt` is over at `now`. -/
def awake (now : ℚ) (wakeAt : PyFloat) : Bool := !(PyFloat.fin now).lt wakeAt

namespace ClientState

/-- The state with the call `i` in another phase. -/
def setPhase (s : ClientState) (i : ℕ) (c : PageCall) (phase : CallPhase) : ClientState :=
  { s with calls := s.calls.set i { c with phase } }

/-- The state with another limiter state of a key. -/
def setLimit (s : ClientState) (key : String) (state : TokenLimitState) : ClientState :=
  { s with limiter := s.limiter.setState key state }

end ClientState

namespace DonutApiClient

variable (client : DonutApiClient)

/-- One turn of the loop of `acquire`: a grant, or a sleep of `retry_after` seconds. -/
def acquireStep (s : ClientState) (i : ℕ) (c : PageCall) : ClientState :=
  let key := c.args.tokenKey
  let result := (s.limiter.states key).tryAcquire s.limiter.limits s.clock c.args.interactive
  if result.1 then (s.setLimit key result.2).setPhase i c .inFlight
  else
    let wait := result.2.retryAfter s.limiter.limits s.clock c.args.interactive
    (s.setLimit key wait.2).setPhase i c (.acquiring ((PyFloat.fin s.clock).add wait.1))

/-- The end of an attempt. -/
def respondStep (s : ClientState) (i : ℕ) (c : PageCall) (outcome : HttpOutcome) (utcNow : ℚ) :
    ClientState :=
  let key := c.args.tokenKey
  let result := client.handleOutcome s.clock utcNow c.attempt outcome (s.limiter.states key)
  (s.setLimit key result.2).setPhase i c <|
    match result.1 with
    | .returned payload => .returned payload
    | .raised failure => .raised failure
    | .backoff delay => .backingOff ((PyFloat.fin s.clock).add delay)

/-- A call begins with its first attempt, if it has one. -/
def start (now : ℚ) (args : PageArgs) : PageCall :=
  if 0 < client.maxRetries + 1 then { args, phase := .acquiring (.fin now) }
  else { args, phase := .raised (.api (.transient "Retry limit exhausted")) }

/-- One step of the calls, at a clock reading that is not before the last one. -/
def step (s : ClientState) : ℚ × ClientEvent → Option ClientState
  | (now, event) =>
    if now < s.clock then none
    else
      let s := { s with clock := now }
      match event with
      | .start args => some { s with calls := s.calls ++ [client.start now args] }
      | .tryAcquire i =>
        match s.calls[i]? with
        | some c =>
          match c.phase with
          | .acquiring wakeAt => if awake now wakeAt then some (acquireStep s i c) else none
          | _ => none
        | none => none
      | .respond i outcome utcNow =>
        match s.calls[i]? with
        | some c =>
          match c.phase with
          | .inFlight => some (client.respondStep s i c outcome utcNow)
          | _ => none
        | none => none
      | .nextAttempt i =>
        match s.calls[i]? with
        | some c =>
          match c.phase with
          | .backingOff wakeAt =>
            if awake now wakeAt then
              some (s.setPhase i { c with attempt := c.attempt + 1 } (.acquiring wakeAt))
            else none
          | _ => none
        | none => none

/-- No call was made yet. -/
def initial (limits : RateLimits) (clock : ℚ) : ClientState := ⟨clock, .new limits, []⟩

/-- The end of an attempt that failed transiently: the attempts are used up, recording the error
fails, or the call sleeps. -/
theorem retry_cases (now : ℚ) (attempt : ℕ) (reason : String) (s : TokenLimitState) :
    (client.maxRetries ≤ attempt ∧
      client.retry now attempt reason s = (.raised (.api (.transient reason)), s)) ∨
    (attempt < client.maxRetries ∧ (s.recordTransientError now (.fin 60)).1 = none ∧
      client.retry now attempt reason s =
        (.raised .overflowError, (s.recordTransientError now (.fin 60)).2)) ∨
    (attempt < client.maxRetries ∧ ∃ delay, (s.recordTransientError now (.fin 60)).1 = some delay ∧
      client.retry now attempt reason s =
        (.backoff delay, (s.recordTransientError now (.fin 60)).2)) := by
  by_cases h : client.maxRetries ≤ attempt
  · exact .inl ⟨h, if_pos h⟩
  · right
    rw [retry, if_neg h]
    generalize s.recordTransientError now (.fin 60) = result
    obtain ⟨_ | delay, s'⟩ := result
    · exact .inl ⟨not_le.mp h, rfl, rfl⟩
    · exact .inr ⟨not_le.mp h, delay, rfl, rfl⟩

theorem retry_snd (now : ℚ) (attempt : ℕ) (reason : String) (s : TokenLimitState) :
    (client.retry now attempt reason s).2 = s ∨
      (client.retry now attempt reason s).2 = (s.recordTransientError now (.fin 60)).2 := by
  rcases client.retry_cases now attempt reason s with ⟨-, h⟩ | ⟨-, -, h⟩ | ⟨-, delay, -, h⟩
  · exact .inl (by rw [h])
  · exact .inr (by rw [h])
  · exact .inr (by rw [h])

section Inversion

variable {s s' : ClientState} {now : ℚ} {i : ℕ}

theorem step_start {args : PageArgs} :
    client.step s (now, .start args) = some s' ↔ s.clock ≤ now ∧
      s' = { s with clock := now, calls := s.calls ++ [client.start now args] } := by
  simp only [step, ite_eq_iff, reduceCtorEq, and_false, false_or, not_lt, Option.some.injEq,
    eq_comm (a := s')]

theorem step_tryAcquire :
    client.step s (now, .tryAcquire i) = some s' ↔ s.clock ≤ now ∧ ∃ c wakeAt,
      s.calls[i]? = some c ∧ c.phase = .acquiring wakeAt ∧ awake now wakeAt = true ∧
        s' = acquireStep { s with clock := now } i c := by
  simp only [step, ite_eq_iff, reduceCtorEq, and_false, false_or, not_lt]
  refine and_congr_right fun _ => ?_
  cases hc : s.calls[i]? with
  | none => simp
  | some c => cases hphase : c.phase <;> simp [hphase, eq_comm (a := s')]

theorem step_respond {outcome : HttpOutcome} {utcNow : ℚ} :
    client.step s (now, .respond i outcome utcNow) = some s' ↔ s.clock ≤ now ∧ ∃ c,
      s.calls[i]? = some c ∧ c.phase = .inFlight ∧
        s' = client.respondStep { s with clock := now } i c outcome utcNow := by
  simp only [step, ite_eq_iff, reduceCtorEq, and_false, false_or, not_lt]
  refine and_congr_right fun _ => ?_
  cases hc : s.calls[i]? with
  | none => simp
  | some c => cases hphase : c.phase <;> simp [hphase, eq_comm (a := s')]

theorem step_nextAttempt :
    client.step s (now, .nextAttempt i) = some s' ↔ s.clock ≤ now ∧ ∃ c wakeAt,
      s.calls[i]? = some c ∧ c.phase = .backingOff wakeAt ∧ awake now wakeAt = true ∧
        s' = ({ s with clock := now } : ClientState).setPhase i
          { c with attempt := c.attempt + 1 } (.acquiring wakeAt) := by
  simp only [step, ite_eq_iff, reduceCtorEq, and_false, false_or, not_lt]
  refine and_congr_right fun _ => ?_
  cases hc : s.calls[i]? with
  | none => simp
  | some c => cases hphase : c.phase <;> simp [hphase, eq_comm (a := s')]

@[simp] theorem start_args (args : PageArgs) : (client.start now args).args = args := by
  rw [start]
  split <;> rfl

theorem start_of_nonneg (h : 0 ≤ client.maxRetries) (args : PageArgs) :
    client.start now args = { args, phase := .acquiring (.fin now) } := if_pos (by omega)

theorem start_of_neg (h : client.maxRetries < 0) (args : PageArgs) : client.start now args =
    { args, phase := .raised (.api (.transient "Retry limit exhausted")) } := if_neg (by omega)

theorem step_start_call {args : PageArgs} (h : client.step s (now, .start args) = some s') :
    s'.calls[s.calls.length]? = some (client.start now args) := by
  obtain ⟨-, rfl⟩ := client.step_start.mp h
  exact List.getElem?_concat_length

theorem step_clock {event : ClientEvent} (h : client.step s (now, event) = some s') :
    s.clock ≤ now ∧ s'.clock = now := by
  cases event with
  | start args =>
    obtain ⟨hnow, rfl⟩ := client.step_start.mp h
    exact ⟨hnow, rfl⟩
  | tryAcquire i =>
    obtain ⟨hnow, c, wakeAt, -, -, -, rfl⟩ := client.step_tryAcquire.mp h
    refine ⟨hnow, ?_⟩
    simp only [acquireStep]
    split <;> rfl
  | respond i outcome utcNow =>
    obtain ⟨hnow, c, -, -, rfl⟩ := client.step_respond.mp h
    exact ⟨hnow, rfl⟩
  | nextAttempt i =>
    obtain ⟨hnow, c, wakeAt, -, -, -, rfl⟩ := client.step_nextAttempt.mp h
    exact ⟨hnow, rfl⟩

theorem acquireStep_calls (s : ClientState) (i : ℕ) (c : PageCall) :
    ∃ phase, (acquireStep s i c).calls = s.calls.set i { c with phase } := by
  simp only [acquireStep]
  split
  · exact ⟨_, rfl⟩
  · exact ⟨_, rfl⟩

/-- A step adds a call, or moves one and keeps its arguments. -/
theorem step_calls {event : ClientEvent} (h : client.step s (now, event) = some s') :
    (event.call = none ∧ ∃ args, s'.calls = s.calls ++ [client.start now args]) ∨
      ∃ j c c', event.call = some j ∧ s.calls[j]? = some c ∧ c'.args = c.args ∧
        s'.calls = s.calls.set j c' := by
  cases event with
  | start args =>
    obtain ⟨-, rfl⟩ := client.step_start.mp h
    exact .inl ⟨rfl, _, rfl⟩
  | tryAcquire j =>
    obtain ⟨-, c, wakeAt, hc, -, -, rfl⟩ := client.step_tryAcquire.mp h
    obtain ⟨phase, hcalls⟩ := acquireStep_calls { s with clock := now } j c
    exact .inr ⟨j, c, { c with phase }, rfl, hc, rfl, hcalls⟩
  | respond j outcome utcNow =>
    obtain ⟨-, c, hc, -, rfl⟩ := client.step_respond.mp h
    refine .inr ⟨j, c, _, rfl, hc, ?_, rfl⟩
    rfl
  | nextAttempt j =>
    obtain ⟨-, c, wakeAt, hc, -, -, rfl⟩ := client.step_nextAttempt.mp h
    refine .inr ⟨j, c, _, rfl, hc, ?_, rfl⟩
    rfl

/-- A call that was not there before a step is one that the step starts. -/
theorem step_newCall {event : ClientEvent} (h : client.step s (now, event) = some s')
    (hc : s.calls[i]? = none) {c' : PageCall} (hc' : s'.calls[i]? = some c') :
    ∃ args, event = .start args ∧ c' = client.start now args := by
  have hlength := List.getElem?_eq_none_iff.mp hc
  rcases client.step_calls h with ⟨hnone, -⟩ | ⟨j, c, c'', -, -, -, hcalls⟩
  · cases event with
    | start args =>
      obtain ⟨-, rfl⟩ := client.step_start.mp h
      rw [List.getElem?_append_right hlength] at hc'
      exact ⟨args, rfl, List.mem_singleton.mp (List.mem_of_getElem? hc')⟩
    | _ => cases hnone
  · rw [List.getElem?_eq_none_iff.mpr (by rwa [hcalls, List.length_set])] at hc'
    cases hc'

/-- A step keeps the arguments of every call, and touches no other call than its own. -/
theorem step_call {event : ClientEvent} (h : client.step s (now, event) = some s')
    {c : PageCall} (hc : s.calls[i]? = some c) :
    ∃ c', s'.calls[i]? = some c' ∧ c'.args = c.args ∧ (event.call ≠ some i → c' = c) := by
  have hlt := (List.getElem?_eq_some_iff.mp hc).1
  rcases client.step_calls h with ⟨-, args, hcalls⟩ | ⟨j, c₀, c', hcall, hc₀, hargs, hcalls⟩
  · exact ⟨c, by rw [hcalls, List.getElem?_append_left hlt, hc], rfl, fun _ => rfl⟩
  · by_cases hij : j = i
    · subst hij
      obtain rfl := Option.some.inj (hc₀.symm.trans hc)
      exact ⟨c', by rw [hcalls, List.getElem?_set_self hlt], hargs, fun hne => absurd hcall hne⟩
    · exact ⟨c, by rw [hcalls, List.getElem?_set_ne hij, hc], rfl, fun _ => rfl⟩

end Inversion

/-- A 429 blocks the key for the parsed number of seconds and raises. -/
theorem handleOutcome_of_429 (now utcNow : ℚ) (attempt : ℕ) {response : HttpResponse}
    (h : response.statusCode = 429) (s : TokenLimitState) :
    client.handleOutcome now utcNow attempt (.response response) s =
      (.raised (.api (.rateLimit (parseRetryAfter client.parsers utcNow response.retryAfter))),
        s.block now (parseRetryAfter client.parsers utcNow response.retryAfter)) := by
  simp [handleOutcome, h]

/-- After a transient outcome the call makes another attempt. -/
theorem handleOutcome_of_isTransient (now utcNow : ℚ) (attempt : ℕ) {outcome : HttpOutcome}
    (h : outcome.isTransient = true) (s : TokenLimitState) :
    ∃ reason, client.handleOutcome now utcNow attempt outcome s =
      client.retry now attempt reason s := by
  cases outcome with
  | response response =>
    have hstatus : 500 ≤ response.statusCode ∧ response.statusCode ≤ 599 := by
      simpa [HttpOutcome.isTransient] using h
    refine ⟨s!"http_{response.statusCode}", ?_⟩
    rw [handleOutcome, if_neg (by omega), if_neg (by omega), if_pos hstatus]
  | transportError error => exact ⟨error.name, if_pos h⟩

/-- What an attempt comes to: a transient outcome is retried, another transport error leaves the
call, and any other response makes it return or raise. -/
theorem handleOutcome_cases (now utcNow : ℚ) (attempt : ℕ) (outcome : HttpOutcome)
    (s : TokenLimitState) :
    (outcome.isTransient = true ∧ ∃ reason, client.handleOutcome now utcNow attempt outcome s =
      client.retry now attempt reason s) ∨
    outcome.isTransient = false ∧
      ((∃ error, outcome = .transportError error ∧
        client.handleOutcome now utcNow attempt outcome s = (.raised (.transport error), s)) ∨
      (∃ response fields, outcome = .response response ∧ response.json = some (.object fields) ∧
        isSuccessApiStatus (Json.field? fields "status") response.statusCode = true ∧
        client.handleOutcome now utcNow attempt outcome s =
          (.returned fields, s.recordSuccess)) ∨
      ∃ response error, outcome = .response response ∧
        (client.handleOutcome now utcNow attempt outcome s).1 = .raised (.api error) ∧
        ((client.handleOutcome now utcNow attempt outcome s).2 = s ∨
          ∃ seconds, (client.handleOutcome now utcNow attempt outcome s).2 =
            s.block now seconds)) := by
  cases htransient : outcome.isTransient with
  | true => exact .inl ⟨rfl, client.handleOutcome_of_isTransient now utcNow attempt htransient s⟩
  | false =>
    refine .inr ⟨rfl, ?_⟩
    cases outcome with
    | transportError error =>
      exact .inl ⟨error, rfl, if_neg (by simpa [HttpOutcome.isTransient] using htransient)⟩
    | response response =>
      have hstatus : ¬ (500 ≤ response.statusCode ∧ response.statusCode ≤ 599) := by
        simpa [HttpOutcome.isTransient] using htransient
      right
      simp only [handleOutcome, if_neg hstatus]
      split_ifs
      · exact .inr ⟨response, _, rfl, rfl, .inl rfl⟩
      · exact .inr ⟨response, _, rfl, rfl, .inr ⟨_, rfl⟩⟩
      · exact .inr ⟨response, _, rfl, rfl, .inl rfl⟩
      · split
        · exact .inr ⟨response, _, rfl, rfl, .inl rfl⟩
        · rename_i fields hjson
          split_ifs with hsuccess
          · exact .inl ⟨response, fields, rfl, hjson, hsuccess, rfl⟩
          · exact .inr ⟨response, _, rfl, rfl, .inl rfl⟩
        · exact .inr ⟨response, _, rfl, rfl, .inl rfl⟩

end DonutApiClient

end DonutMonitor
