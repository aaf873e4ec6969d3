import DonutMonitor.Foundations.Latest
import DonutMonitor.Infrastructure.RequestAttempts
import Mathlib.Algebra.Order.BigOperators.Group.List

/-!
# The bookkeeping of the API client

`_request_page` counts the requests of every token, adds up how long their answers took and notes
the last error of the token and of the whole API. A `MeteredClient` is the API client with these
records; its steps are those of the client. Beside the state of the code it keeps the answers that
have come in.

## Main definitions

* `TokenApiMetrics.answered`, `ApiHealth.answered` — what an answer assigns.
* `MeteredClient.step` — a step of the client with its bookkeeping.
* `TokenApiMetrics.ofAnswers`, `ApiHealth.ofAnswers` — the records as functions of the history.

## Main results

* `MeteredClient.metrics_eq` — the metrics of a token are those of its answers, and one request is
  counted for every grant of the limiter.
* `MeteredClient.health_eq` — the health of the API is that of all answers.
-/

open Latest Transition

namespace DonutMonitor

/-- `TokenApiMetrics`. -/
structure TokenApiMetrics where
  requestCount : ℕ := 0
  rateLimitCount : ℕ := 0
  totalLatencySeconds : ℚ := 0
  lastSuccessAt : Option ℚ := none
  lastError : Option String := none
  deriving DecidableEq

/-- `TokenApiMetrics.average_latency_seconds`. -/
def TokenApiMetrics.averageLatencySeconds (m : TokenApiMetrics) : ℚ :=
  if m.requestCount = 0 then 0 else m.totalLatencySeconds / m.requestCount

/-- `ApiHealth`. -/
structure ApiHealth where
  available : Bool := true
  lastError : Option String := none
  lastSuccessAt : Option ℚ := none
  deriving DecidableEq

/-- An answer to a request: what came back for which token, how long it took by `perf_counter`, and
the reading of the wall clock. -/
structure ApiAnswer where
  tokenKey : String
  outcome : HttpOutcome
  elapsed : ℚ
  receivedAt : ℚ

/-- What `_request_page` assigns to the metrics of the token after its request. -/
def TokenApiMetrics.answered (m : TokenApiMetrics) (answer : ApiAnswer) : TokenApiMetrics :=
  match answer.outcome with
  | .transportError error =>
    if error.isTimeoutException || error.isNetworkError then
      { m with
        totalLatencySeconds := m.totalLatencySeconds + answer.elapsed
        lastError := some error.name }
    else m
  | .response response =>
    let m := { m with totalLatencySeconds := m.totalLatencySeconds + answer.elapsed }
    if response.statusCode = 401 ∨ response.statusCode = 403 then
      { m with lastError := some "authentication" }
    else if response.statusCode = 429 then
      { m with rateLimitCount := m.rateLimitCount + 1, lastError := some "rate_limit" }
    else if 500 ≤ response.statusCode ∧ response.statusCode ≤ 599 then
      { m with lastError := some s!"http_{response.statusCode}" }
    else if response.isError then
      { m with lastError := some s!"http_{response.statusCode}" }
    else
      match response.json with
      | none => { m with lastError := some "invalid_json" }
      | some (.object fields) =>
        if isSuccessApiStatus (Json.field? fields "status") response.statusCode then
          { m with lastSuccessAt := some answer.receivedAt, lastError := none }
        else { m with lastError := some "api_status" }
      | some _ => m

/-- What `_request_page` assigns to the health of the API after a request. -/
def ApiHealth.answered (h : ApiHealth) (answer : ApiAnswer) : ApiHealth :=
  match answer.outcome with
  | .transportError error =>
    if error.isTimeoutException || error.isNetworkError then
      { h with available := false, lastError := some error.name }
    else h
  | .response response =>
    if response.statusCode = 401 ∨ response.statusCode = 403 then h
    else if response.statusCode = 429 then h
    else if 500 ≤ response.statusCode ∧ response.statusCode ≤ 599 then
      { h with available := false, lastError := some s!"http_{response.statusCode}" }
    else if response.isError then h
    else
      match response.json with
      | some (.object fields) =>
        if isSuccessApiStatus (Json.field? fields "status") response.statusCode then
          { h with
            available := true
            lastError := none
            lastSuccessAt := some answer.receivedAt }
        else h
      | _ => h

/-! ### The records as functions of the history -/

namespace ApiAnswer

variable (answer : ApiAnswer)

/-- The answer is one that `_request_page` waits for: a response, or an error that it catches. -/
def isTimed : Bool :=
  match answer.outcome with
  | .transportError error => error.isTimeoutException || error.isNetworkError
  | .response _ => true

/-- The answer is a 429. -/
def isRateLimit : Bool :=
  match answer.outcome with
  | .transportError _ => false
  | .response response => response.statusCode = 429

/-- The name of an answer other than a success: `some none` for a success, and `none` for an
answer without a name. -/
def tokenError : Option (Option String) :=
  match answer.outcome with
  | .transportError error =>
    if error.isTimeoutException || error.isNetworkError then some (some error.name) else none
  | .response response =>
    if response.statusCode = 401 ∨ response.statusCode = 403 then some (some "authentication")
    else if response.statusCode = 429 then some (some "rate_limit")
    else if response.isError then some (some s!"http_{response.statusCode}")
    else
      match response.json with
      | none => some (some "invalid_json")
      | some (.object fields) =>
        if isSuccessApiStatus (Json.field? fields "status") response.statusCode then some none
        else some (some "api_status")
      | some _ => none

/-- The time of a success. -/
def successAt : Option ℚ := if answer.outcome.succeeds then some answer.receivedAt else none

end ApiAnswer

/-- What an answer says about the API: `some none` after a success, the name of a failure of the
connection or of a 5xx status, and `none` for any other answer. -/
def ApiAnswer.apiError (answer : ApiAnswer) : Option (Option String) :=
  if answer.outcome.succeeds then some none
  else if answer.outcome.isTransient then
    match answer.outcome with
    | .transportError error => some (some error.name)
    | .response response => some (some s!"http_{response.statusCode}")
  else none

/-- The metrics of a token that has received the answers and waits for some more. -/
def TokenApiMetrics.ofAnswers (answers : List ApiAnswer) (waiting : ℕ) : TokenApiMetrics where
  requestCount := answers.length + waiting
  rateLimitCount := answers.countP ApiAnswer.isRateLimit
  totalLatencySeconds := ((answers.filter ApiAnswer.isTimed).map ApiAnswer.elapsed).sum
  lastSuccessAt := latest ApiAnswer.successAt answers
  lastError := (latest ApiAnswer.tokenError answers).join

/-- The health of an API that has given the answers. -/
def ApiHealth.ofAnswers (answers : List ApiAnswer) : ApiHealth where
  available := (latest ApiAnswer.apiError answers).join.isNone
  lastError := (latest ApiAnswer.apiError answers).join
  lastSuccessAt := latest ApiAnswer.successAt answers

/-! ### The client with its bookkeeping -/

/-- The requests with a token that have not been answered. -/
def ClientState.waiting (s : ClientState) (key : String) : ℕ :=
  s.calls.countP fun c => c.args.tokenKey = key && c.phase.isInFlight

/-- The API client with its records, the last reading of `perf_counter`, its reading when each call
sent its last request, and the answers that have come in. -/
structure MeteredClient where
  client : ClientState
  perfCounter : ℚ
  started : ℕ → ℚ
  metrics : String → TokenApiMetrics := fun _ => {}
  health : ApiHealth := {}
  answers : List ApiAnswer := []

/-- A step of the client, with the readings of the two clocks. -/
structure MeteredEvent where
  now : ℚ
  perfCounter : ℚ
  event : ClientEvent

namespace MeteredClient

/-- No call was made yet. -/
def initial (limits : RateLimits) (clock perfCounter : ℚ) : MeteredClient where
  client := DonutApiClient.initial limits clock
  perfCounter := perfCounter
  started := fun _ => perfCounter

variable (s : MeteredClient)

/-- The answers to requests with a token. -/
def answersOf (key : String) : List ApiAnswer := s.answers.filter (·.tokenKey = key)

/-- The records after a call has sent its request. -/
def recordRequest (i : ℕ) (key : String) : MeteredClient :=
  { s with
    started := Function.update s.started i s.perfCounter
    metrics := Function.update s.metrics key
      { s.metrics key with requestCount := (s.metrics key).requestCount + 1 } }

/-- The records after an answer. -/
def recordAnswer (answer : ApiAnswer) : MeteredClient :=
  { s with
    metrics := Function.update s.metrics answer.tokenKey
      ((s.metrics answer.tokenKey).answered answer)
    health := s.health.answered answer
    answers := s.answers ++ [answer] }

/-- The records after an event of the client. A call of which `acquire` has returned sends its
request at once. -/
def record (i : ℕ) (c : PageCall) : ClientEvent → MeteredClient
  | .tryAcquire _ => if s.client.isInFlight i then s.recordRequest i c.args.tokenKey else s
  | .respond _ outcome utcNow =>
    s.recordAnswer ⟨c.args.tokenKey, outcome, s.perfCounter - s.started i, utcNow⟩
  | .start _ | .nextAttempt _ => s

/-- The call that an event is about, as it is before the event. -/
def callOf (event : ClientEvent) : Option (ℕ × PageCall) := do
  let i ← event.call
  let c ← s.client.calls[i]?
  some (i, c)

/-- One step of the calls with its bookkeeping. -/
def step (api : DonutApiClient) (s : MeteredClient) (e : MeteredEvent) : Option MeteredClient :=
  if e.perfCounter < s.perfCounter then none
  else
    (api.step s.client (e.now, e.event)).map fun client =>
      let s' := { s with client := client, perfCounter := e.perfCounter }
      match s.callOf e.event with
      | some (i, c) => s'.record i c e.event
      | none => s'

end MeteredClient

/-! ### One answer -/

theorem isSuccessApiStatus_range {value : Option Json} {statusCode : ℤ}
    (h : isSuccessApiStatus value statusCode = true) : 200 ≤ statusCode ∧ statusCode < 300 := by
  unfold isSuccessApiStatus at h
  split at h
  · exact ⟨(of_decide_eq_true h).1, (of_decide_eq_true h).2.1⟩
  · cases h

namespace HttpOutcome

variable {response : HttpResponse}

theorem succeeds_range (h : (HttpOutcome.response response).succeeds = true) :
    200 ≤ response.statusCode ∧ response.statusCode < 300 := by
  unfold succeeds at h
  split at h
  · rename_i hresponse
    obtain rfl := HttpOutcome.response.inj hresponse
    exact isSuccessApiStatus_range h
  · cases h

theorem succeeds_of_json {fields : List (String × Json)}
    (h : response.json = some (.object fields)) : (HttpOutcome.response response).succeeds =
      isSuccessApiStatus (Json.field? fields "status") response.statusCode := by
  obtain ⟨statusCode, retryAfter, json⟩ := response
  obtain rfl := h
  rfl

theorem succeeds_eq_false (h : ∀ fields, response.json ≠ some (.object fields)) :
    (HttpOutcome.response response).succeeds = false := by
  unfold succeeds
  split
  · rename_i hresponse
    exact absurd (congrArg HttpResponse.json (HttpOutcome.response.inj hresponse)) (h _)
  · rfl

theorem succeeds_of_isTransient {outcome : HttpOutcome} (h : outcome.isTransient = true) :
    outcome.succeeds = false := by
  cases outcome with
  | transportError error => rfl
  | response response =>
    have hserver := (of_decide_eq_true h).1
    refine Bool.eq_false_iff.mpr fun hsuccess => ?_
    have hrange := (succeeds_range hsuccess).2
    omega

end HttpOutcome

namespace TokenApiMetrics

variable (m : TokenApiMetrics) (answer : ApiAnswer)

theorem answered_eq : m.answered answer =
    { m with
      rateLimitCount := m.rateLimitCount + answer.isRateLimit.toNat
      totalLatencySeconds := m.totalLatencySeconds + if answer.isTimed then answer.elapsed else 0
      lastSuccessAt := answer.successAt.or m.lastSuccessAt
      lastError := answer.tokenError.getD m.lastError } := by
  obtain ⟨key, outcome, elapsed, receivedAt⟩ := answer
  cases outcome with
  | transportError error =>
    by_cases h : (error.isTimeoutException || error.isNetworkError) = true <;>
      simp [answered, ApiAnswer.isRateLimit, ApiAnswer.isTimed, ApiAnswer.successAt,
        ApiAnswer.tokenError, HttpOutcome.succeeds, h]
  | response response =>
    have hfails : ¬ (200 ≤ response.statusCode ∧ response.statusCode < 300) →
        (HttpOutcome.response response).succeeds = false := fun h =>
      Bool.eq_false_iff.mpr fun hsuccess => h (HttpOutcome.succeeds_range hsuccess)
    simp only [answered, ApiAnswer.isRateLimit, ApiAnswer.isTimed, ApiAnswer.successAt,
      ApiAnswer.tokenError, if_true]
    by_cases hauth : response.statusCode = 401 ∨ response.statusCode = 403
    · simp [hauth, hfails (by omega), show response.statusCode ≠ 429 by omega]
    by_cases hlimit : response.statusCode = 429
    · simp [hlimit, hfails (by omega)]
    by_cases herror : response.isError = true
    · have hrange : 400 ≤ response.statusCode := (of_decide_eq_true herror).1
      simp [hauth, hlimit, herror, hfails (by omega)]
    have hserver : ¬ (500 ≤ response.statusCode ∧ response.statusCode ≤ 599) := fun h =>
      herror (decide_eq_true ⟨by omega, h.2⟩)
    rw [if_neg hauth, if_neg hlimit, if_neg hserver, if_neg herror, if_neg hauth, if_neg hlimit,
      if_neg herror]
    split
    · rename_i hjson
      have hno : ∀ fields, response.json ≠ some (.object fields) := by simp [hjson]
      simp [HttpOutcome.succeeds_eq_false hno, hlimit]
    · rename_i fields hjson
      rw [HttpOutcome.succeeds_of_json hjson]
      split_ifs <;> simp [hlimit]
    · rename_i value hvalue hjson
      have hno : ∀ fields, response.json ≠ some (.object fields) := fun fields h =>
        hvalue fields (Option.some.inj (hjson.symm.trans h))
      simp [HttpOutcome.succeeds_eq_false hno, hlimit]

end TokenApiMetrics

theorem ApiHealth.answered_eq (h : ApiHealth) (answer : ApiAnswer) : h.answered answer =
    { available := (answer.apiError.map Option.isNone).getD h.available
      lastError := answer.apiError.getD h.lastError
      lastSuccessAt := answer.successAt.or h.lastSuccessAt } := by
  obtain ⟨key, outcome, elapsed, receivedAt⟩ := answer
  cases outcome with
  | transportError error =>
    by_cases herror : (error.isTimeoutException || error.isNetworkError) = true <;>
      simp [answered, ApiAnswer.apiError, ApiAnswer.successAt, HttpOutcome.succeeds,
        HttpOutcome.isTransient, herror]
  | response response =>
    have hfails : ¬ (200 ≤ response.statusCode ∧ response.statusCode < 300) →
        (HttpOutcome.response response).succeeds = false := fun h =>
      Bool.eq_false_iff.mpr fun hsuccess => h (HttpOutcome.succeeds_range hsuccess)
    simp only [answered, ApiAnswer.apiError, ApiAnswer.successAt, HttpOutcome.isTransient,
      decide_eq_true_eq]
    by_cases hauth : response.statusCode = 401 ∨ response.statusCode = 403
    · simp [hauth, hfails (by omega), show ¬ 500 ≤ response.statusCode by omega]
    by_cases hlimit : response.statusCode = 429
    · simp [hlimit, hfails (by omega)]
    by_cases hserver : 500 ≤ response.statusCode ∧ response.statusCode ≤ 599
    · simp [hauth, hlimit, hserver, hfails (by omega)]
    rw [if_neg hauth, if_neg hlimit, if_neg hserver, if_neg hserver]
    by_cases herror : response.isError = true
    · have hrange : 400 ≤ response.statusCode := (of_decide_eq_true herror).1
      simp [herror, hfails (by omega)]
    rw [if_neg herror]
    split
    · rename_i fields hjson
      rw [HttpOutcome.succeeds_of_json hjson]
      split_ifs <;> simp
    · rename_i hno
      have hno : ∀ fields, response.json ≠ some (.object fields) := fun fields h => hno fields h
      simp [HttpOutcome.succeeds_eq_false hno]

namespace ApiAnswer

variable {answer : ApiAnswer}

theorem apiError_eq_none :
    answer.apiError = none ↔
      answer.outcome.succeeds = false ∧ answer.outcome.isTransient = false := by
  rw [apiError]
  cases answer.outcome.succeeds <;> cases answer.outcome.isTransient <;> simp
  cases answer.outcome <;> simp

theorem apiError_eq_success : answer.apiError = some none ↔ answer.outcome.succeeds = true := by
  rw [apiError]
  cases answer.outcome.succeeds <;> cases answer.outcome.isTransient <;> simp
  cases answer.outcome <;> simp

end ApiAnswer

/-! ### The records are functions of the history -/

theorem TokenApiMetrics.ofAnswers_concat (answers : List ApiAnswer) (answer : ApiAnswer)
    (waiting : ℕ) : (ofAnswers answers (waiting + 1)).answered answer =
      ofAnswers (answers ++ [answer]) waiting := by
  rw [answered_eq]
  simp only [ofAnswers, TokenApiMetrics.mk.injEq]
  refine ⟨by simp; omega, by cases h : answer.isRateLimit <;> simp [h], ?_, ?_, ?_⟩
  · cases h : answer.isTimed <;> simp [h]
  · rw [latest_concat]
  · rw [latest_concat]
    cases answer.tokenError <;> rfl

theorem ApiHealth.ofAnswers_concat (answers : List ApiAnswer) (answer : ApiAnswer) :
    (ofAnswers answers).answered answer = ofAnswers (answers ++ [answer]) := by
  rw [answered_eq]
  simp only [ofAnswers, latest_concat]
  cases answer.apiError <;> rfl

namespace MeteredClient

variable {api : DonutApiClient} {s s' : MeteredClient} {e : MeteredEvent}

/-- What moving a call does to the number of requests that wait for an answer. -/
private theorem waiting_set {t : ClientState} {i : ℕ} {c : PageCall} (hc : t.calls[i]? = some c)
    (t' : ClientState) (c' : PageCall) (hargs : c'.args = c.args)
    (hcalls : t'.calls = t.calls.set i c') (key : String) :
    t'.waiting key + (decide (c.args.tokenKey = key) && c.phase.isInFlight).toNat =
      t.waiting key + (decide (c.args.tokenKey = key) && c'.phase.isInFlight).toNat := by
  obtain ⟨hlt, rfl⟩ := List.getElem?_eq_some_iff.mp hc
  rw [ClientState.waiting, ClientState.waiting, hcalls, List.countP_set hlt, hargs]
  cases hold : (decide (t.calls[i].args.tokenKey = key) && t.calls[i].phase.isInFlight) with
  | false => cases (decide (t.calls[i].args.tokenKey = key) && c'.phase.isInFlight) <;> simp
  | true =>
    have hpos : 0 < t.calls.countP fun c => decide (c.args.tokenKey = key) && c.phase.isInFlight :=
      List.countP_pos_iff.mpr ⟨_, List.getElem_mem hlt, hold⟩
    cases (decide (t.calls[i].args.tokenKey = key) && c'.phase.isInFlight) <;> simp <;> omega

/-- A turn of the loop of `acquire` sends the request or goes on waiting. -/
private theorem acquireStep_cases (t : ClientState) (i : ℕ) (c : PageCall) :
    (((t.limiter.states c.args.tokenKey).tryAcquire t.limiter.limits t.clock
        c.args.interactive).1 = true ∧
      (DonutApiClient.acquireStep t i c).calls = t.calls.set i { c with phase := .inFlight }) ∨
    (((t.limiter.states c.args.tokenKey).tryAcquire t.limiter.limits t.clock
        c.args.interactive).1 = false ∧
      ∃ wakeAt, (DonutApiClient.acquireStep t i c).calls =
        t.calls.set i { c with phase := .acquiring wakeAt }) := by
  rw [DonutApiClient.acquireStep]
  split
  · rename_i hgrant
    exact .inl ⟨hgrant, rfl⟩
  · rename_i hrefused
    exact .inr ⟨Bool.eq_false_iff.mpr hrefused, _, rfl⟩

/-- What a step does to the records: nothing, a request of a call, or an answer to one. -/
inductive Recorded (s : MeteredClient) (e : MeteredEvent) : MeteredClient → Prop
  | quiet (client : ClientState)
    (hgrants : ∀ i, DonutApiClient.grants i s.client (e.now, e.event) client = 0)
    (hwaiting : ∀ key, client.waiting key = s.client.waiting key) :
    Recorded s e { s with client, perfCounter := e.perfCounter }
  | sent (client : ClientState) (i : ℕ) (c : PageCall) (hevent : e.event = .tryAcquire i)
    (hc : s.client.calls[i]? = some c)
    (hgrants : DonutApiClient.grants i s.client (e.now, e.event) client = 1)
    (hwaiting : ∀ key, client.waiting key =
      s.client.waiting key + (decide (c.args.tokenKey = key)).toNat) :
    Recorded s e (({ s with client, perfCounter := e.perfCounter } : MeteredClient).recordRequest i
      c.args.tokenKey)
  | answered (client : ClientState) (i : ℕ) (c : PageCall) (outcome : HttpOutcome) (utcNow : ℚ)
    (hevent : e.event = .respond i outcome utcNow) (hc : s.client.calls[i]? = some c)
    (hwaiting : ∀ key, client.waiting key + (decide (c.args.tokenKey = key)).toNat =
      s.client.waiting key) :
    Recorded s e (({ s with client, perfCounter := e.perfCounter } : MeteredClient).recordAnswer
      ⟨c.args.tokenKey, outcome, e.perfCounter - s.started i, utcNow⟩)

theorem step_recorded (h : s.step api e = some s') :
    s.perfCounter ≤ e.perfCounter ∧ api.step s.client (e.now, e.event) = some s'.client ∧
      Recorded s e s' := by
  obtain ⟨now, perfCounter, event⟩ := e
  rw [step] at h
  split_ifs at h with hperf
  obtain ⟨client, hclient, rfl⟩ := Option.map_eq_some_iff.mp h
  refine ⟨not_lt.mp hperf, ?_⟩
  clear h hperf
  have hcallOf {i : ℕ} {c : PageCall} (hevent : event.call = some i)
      (hc : s.client.calls[i]? = some c) : s.callOf event = some (i, c) := by
    simp [callOf, hevent, hc]
  cases event with
  | start args =>
    obtain ⟨-, rfl⟩ := api.step_start.mp hclient
    refine ⟨hclient, .quiet _ (fun i => rfl) fun key => ?_⟩
    simp [ClientState.waiting, DonutApiClient.start_isInFlight]
  | tryAcquire i =>
    obtain ⟨-, c, wakeAt, hc, hphase, -, rfl⟩ := api.step_tryAcquire.mp hclient
    simp only [hcallOf rfl hc, record]
    have hlt := (List.getElem?_eq_some_iff.mp hc).1
    rcases acquireStep_cases { s.client with clock := now } i c with ⟨hgrant, hcalls⟩ |
      ⟨hrefused, wakeAt', hcalls⟩
    · have hsent : (DonutApiClient.acquireStep { s.client with clock := now } i c).isInFlight i =
          true := by
        rw [ClientState.isInFlight, hcalls, List.getElem?_set_self hlt]
        rfl
      rw [if_pos hsent]
      refine ⟨hclient, .sent _ i c rfl hc (by simp [DonutApiClient.grants, hc, hgrant])
        fun key => ?_⟩
      simpa [hphase, CallPhase.isInFlight] using
        waiting_set hc _ { c with phase := .inFlight } rfl hcalls key
    · have hwaits : ¬ (DonutApiClient.acquireStep { s.client with clock := now } i c).isInFlight i =
          true := by
        rw [ClientState.isInFlight, hcalls, List.getElem?_set_self hlt]
        exact Bool.false_ne_true
      rw [if_neg hwaits]
      refine ⟨hclient, .quiet _ (fun j => ?_) fun key => ?_⟩
      · by_cases hj : i = j
        · subst hj
          simp [DonutApiClient.grants, hc, hrefused]
        · simp [DonutApiClient.grants, hj]
      · simpa [hphase, CallPhase.isInFlight] using
          waiting_set hc _ { c with phase := .acquiring wakeAt' } rfl hcalls key
  | respond i outcome utcNow =>
    obtain ⟨-, c, hc, hphase, rfl⟩ := api.step_respond.mp hclient
    simp only [hcallOf rfl hc, record]
    refine ⟨hclient, .answered _ i c outcome utcNow rfl hc fun key => ?_⟩
    have hcount := waiting_set hc
      (api.respondStep { s.client with clock := now } i c outcome utcNow)
      { c with phase := (api.handleOutcome now utcNow c.attempt outcome
        (s.client.limiter.states c.args.tokenKey)).1.phase now } rfl rfl key
    have hended : ((api.handleOutcome now utcNow c.attempt outcome
        (s.client.limiter.states c.args.tokenKey)).1.phase now).isInFlight = false := by
      cases (api.handleOutcome now utcNow c.attempt outcome
        (s.client.limiter.states c.args.tokenKey)).1 <;> rfl
    rw [hended, Bool.and_false, Bool.toNat_false, Nat.add_zero] at hcount
    simpa [hphase, CallPhase.isInFlight] using hcount
  | nextAttempt i =>
    obtain ⟨-, c, wakeAt, hc, hphase, -, rfl⟩ := api.step_nextAttempt.mp hclient
    simp only [hcallOf rfl hc, record]
    refine ⟨hclient, .quiet _ (fun i => rfl) fun key => ?_⟩
    simpa [hphase, CallPhase.isInFlight] using waiting_set hc
      (({ s.client with clock := now } : ClientState).setPhase i { c with attempt := c.attempt + 1 }
        (.acquiring wakeAt))
      { c with attempt := c.attempt + 1, phase := .acquiring wakeAt } rfl rfl key

/-- The limiter grants a request with a token in this step. -/
def grants (key : String) (s : MeteredClient) (e : MeteredEvent) (s' : MeteredClient) : ℕ :=
  match s.callOf e.event with
  | some (i, c) =>
    if c.args.tokenKey = key then DonutApiClient.grants i s.client (e.now, e.event) s'.client else 0
  | none => 0

/-- The records are those of the answers that have come in. -/
structure Accounted (s : MeteredClient) : Prop where
  metrics : ∀ key, s.metrics key = .ofAnswers (s.answersOf key) (s.client.waiting key)
  health : s.health = .ofAnswers s.answers
  started : ∀ i, s.started i ≤ s.perfCounter
  elapsed : ∀ answer ∈ s.answers, 0 ≤ answer.elapsed

theorem Accounted.step (hs : s.Accounted) (h : s.step api e = some s') : s'.Accounted := by
  obtain ⟨hperf, -, hrecorded⟩ := step_recorded h
  have hstarted : ∀ i, s.started i ≤ e.perfCounter := fun i => (hs.started i).trans hperf
  cases hrecorded with
  | quiet client hgrants hwaiting =>
    refine ⟨fun key => ?_, hs.health, hstarted, hs.elapsed⟩
    rw [hwaiting]
    exact hs.metrics key
  | sent client i c hevent hc hgrants hwaiting =>
    refine ⟨fun key => ?_, hs.health, fun j => ?_, hs.elapsed⟩
    · simp only [recordRequest, Function.update_apply, hwaiting]
      by_cases hkey : key = c.args.tokenKey
      · rw [if_pos hkey, hkey, hs.metrics]
        simp [TokenApiMetrics.ofAnswers, answersOf, Nat.add_assoc]
      · rw [if_neg hkey, hs.metrics]
        simp [Ne.symm hkey, answersOf]
    · simp only [recordRequest, Function.update_apply]
      split_ifs
      · exact le_rfl
      · exact hstarted j
  | answered client i c outcome utcNow hevent hc hwaiting =>
    refine ⟨fun key => ?_, ?_, hstarted, fun answer hanswer => ?_⟩
    · simp only [recordAnswer, Function.update_apply, answersOf, List.filter_append]
      by_cases hkey : key = c.args.tokenKey
      · subst hkey
        have hcount := hwaiting c.args.tokenKey
        rw [decide_eq_true rfl] at hcount
        rw [if_pos rfl, hs.metrics, ← hcount]
        simpa [answersOf] using TokenApiMetrics.ofAnswers_concat _ _ _
      · have hcount := hwaiting key
        rw [decide_eq_false (Ne.symm hkey)] at hcount
        rw [if_neg hkey, hs.metrics, ← hcount]
        simp [Ne.symm hkey, answersOf]
    · simp only [recordAnswer, hs.health]
      exact ApiHealth.ofAnswers_concat _ _
    · rcases List.mem_append.mp hanswer with hanswer | hanswer
      · exact hs.elapsed answer hanswer
      · obtain rfl := List.mem_singleton.mp hanswer
        exact sub_nonneg.mpr (hstarted i)

theorem accounted_initial (limits : RateLimits) (clock perfCounter : ℚ) :
    (initial limits clock perfCounter).Accounted :=
  ⟨fun _ => rfl, rfl, fun _ => le_rfl, by simp [initial]⟩

variable {limits : RateLimits} {clock perfCounter : ℚ} {events : List MeteredEvent} {key : String}

private theorem accounted
    (hrun : run (step api) (initial limits clock perfCounter) events = some s) : s.Accounted :=
  run_invariant (step api) (fun _ _ _ hs h => hs.step h) hrun
    (accounted_initial limits clock perfCounter)

private theorem requestCount_step (h : s.step api e = some s') :
    (s'.metrics key).requestCount = (s.metrics key).requestCount + grants key s e s' := by
  obtain ⟨-, -, hrecorded⟩ := step_recorded h
  cases hrecorded with
  | quiet client hgrants hwaiting =>
    have hnone : grants key s e { s with client, perfCounter := e.perfCounter } = 0 := by
      rw [grants]
      split
      · rw [hgrants, ite_self]
      · rfl
    rw [hnone]
    rfl
  | sent client i c hevent hc hgrants hwaiting =>
    have hcallOf : s.callOf e.event = some (i, c) := by
      simp [callOf, hevent, ClientEvent.call, hc]
    simp only [grants, hcallOf, recordRequest, hgrants, Function.update_apply]
    by_cases hkey : key = c.args.tokenKey
    · rw [if_pos hkey, if_pos hkey.symm, hkey]
    · rw [if_neg hkey, if_neg (Ne.symm hkey), Nat.add_zero]
  | answered client i c outcome utcNow hevent hc hwaiting =>
    have hnone : ∀ s', grants key s e s' = 0 := fun s' => by
      rw [grants, hevent]
      split
      · exact ite_self 0
      · rfl
    rw [hnone]
    simp only [recordAnswer, Function.update_apply]
    split_ifs with hkey
    · rw [TokenApiMetrics.answered_eq, hkey, Nat.add_zero]
    · rfl

/-- A request with the token of alice, answered with a 503 after half a second. -/
def outage : List MeteredEvent :=
  [⟨0, 0, .start ⟨"token", "alice", 1, "diamond", false⟩⟩, ⟨0, 0, .tryAcquire 0⟩,
    ⟨1, 1 / 2, .respond 0 (.response ⟨503, none, none⟩) 1⟩]

private theorem run_outage : ∃ s, run (step ⟨DonutApiClient.twoDigitHeaders, 2⟩)
    (initial Settings.unset.rateLimits 0 0) outage = some s :=
  Option.isSome_iff_exists.mp (by decide +kernel)

/-- The metrics of a token are those of its answers and of the requests that still wait for one,
and one request is counted for every grant of the limiter. -/
theorem metrics_eq (hrun : run (step api) (initial limits clock perfCounter) events = some s) :
    s.metrics key = .ofAnswers (s.answersOf key) (s.client.waiting key) ∧
      (s.metrics key).requestCount =
        total (step api) (grants key) (initial limits clock perfCounter) events := by
  refine ⟨(accounted hrun).metrics key, ?_⟩
  have hcount := run_count (step api) (grants key) (fun s => (s.metrics key).requestCount)
    (fun _ _ _ h => requestCount_step h) hrun
  rw [hcount]
  exact Nat.zero_add _

/-- The metrics of alice after the outage. -/
theorem metrics_eq_outage : ∃ s, run (step ⟨DonutApiClient.twoDigitHeaders, 2⟩)
    (initial Settings.unset.rateLimits 0 0) outage = some s ∧
      s.metrics "alice" = .ofAnswers (s.answersOf "alice") (s.client.waiting "alice") ∧
      (s.metrics "alice").requestCount = total
        (step ⟨DonutApiClient.twoDigitHeaders, 2⟩) (grants "alice")
        (initial Settings.unset.rateLimits 0 0) outage := by
  obtain ⟨s, hrun⟩ := run_outage
  exact ⟨s, hrun, metrics_eq hrun⟩

/-- The API is shown as available if and only if every failure of the connection and every 5xx
status was followed by a success, with whichever token; it is shown with the error of the last one
otherwise. -/
theorem health_eq (hrun : run (step api) (initial limits clock perfCounter) events = some s) :
    (s.health.available = true ↔ ∀ before failed after, s.answers = before ++ failed :: after →
      failed.outcome.isTransient = true → ∃ answer ∈ after, answer.outcome.succeeds = true) ∧
    (∀ error, s.health.lastError = some error ↔ ∃ before failed after,
      s.answers = before ++ failed :: after ∧ failed.apiError = some (some error) ∧
        ∀ answer ∈ after, answer.outcome.succeeds = false ∧ answer.outcome.isTransient = false) ∧
    (s.health.available = true ↔ s.health.lastError = none) := by
  rw [(accounted hrun).health]
  simp only [ApiHealth.ofAnswers, Option.isNone_iff_eq_none, Option.join_eq_none_iff,
    Option.join_eq_some_iff, and_true]
  refine ⟨⟨fun h before failed after hsplit hfailed => ?_, fun h => ?_⟩, fun error => ?_⟩
  · rw [hsplit, latest_append] at h
    cases hlatest : latest ApiAnswer.apiError (failed :: after) with
    | none =>
      have hnone := (latest_eq_none_iff _ _).mp hlatest failed List.mem_cons_self
      rw [(ApiAnswer.apiError_eq_none.mp hnone).2] at hfailed
      cases hfailed
    | some error =>
      rw [hlatest, Option.some_or] at h
      obtain rfl := Option.some.inj (h.resolve_left (Option.some_ne_none error))
      obtain ⟨_, answer, _, hmem, hsuccess, -⟩ := (latest_eq_some_iff _ _).mp hlatest
      have hanswer : answer ∈ failed :: after := hmem ▸ List.mem_append_right _ List.mem_cons_self
      rw [ApiAnswer.apiError_eq_success] at hsuccess
      rcases List.mem_cons.mp hanswer with rfl | hanswer
      · rw [HttpOutcome.succeeds_of_isTransient hfailed] at hsuccess
        cases hsuccess
      · exact ⟨answer, hanswer, hsuccess⟩
  · by_contra hunavailable
    obtain ⟨hsome, hnot⟩ := not_or.mp hunavailable
    obtain ⟨error, herror⟩ := Option.ne_none_iff_exists'.mp hsome
    obtain ⟨before, failed, after, hsplit, hfailed, hafter⟩ := (latest_eq_some_iff _ _).mp herror
    have htransient : failed.outcome.isTransient = true := by
      by_contra hquiet
      cases hsuccess : failed.outcome.succeeds with
      | true =>
        rw [ApiAnswer.apiError_eq_success.mpr hsuccess] at hfailed
        exact hnot (herror.trans hfailed.symm)
      | false =>
        rw [ApiAnswer.apiError_eq_none.mpr ⟨hsuccess, Bool.eq_false_iff.mpr hquiet⟩] at hfailed
        cases hfailed
    obtain ⟨answer, hanswer, hsuccess⟩ := h before failed after hsplit htransient
    rw [(ApiAnswer.apiError_eq_none.mp (hafter answer hanswer)).1] at hsuccess
    cases hsuccess
  · simp only [latest_eq_some_iff, ApiAnswer.apiError_eq_none]

/-- The health of the API after the outage. -/
theorem health_eq_outage : ∃ s, run (step ⟨DonutApiClient.twoDigitHeaders, 2⟩)
    (initial Settings.unset.rateLimits 0 0) outage = some s ∧
      (s.health.available = true ↔ ∀ before failed after, s.answers = before ++ failed :: after →
        failed.outcome.isTransient = true → ∃ answer ∈ after, answer.outcome.succeeds = true) ∧
      (∀ error, s.health.lastError = some error ↔ ∃ before failed after,
        s.answers = before ++ failed :: after ∧ failed.apiError = some (some error) ∧
          ∀ answer ∈ after, answer.outcome.succeeds = false ∧ answer.outcome.isTransient = false) ∧
      (s.health.available = true ↔ s.health.lastError = none) := by
  obtain ⟨s, hrun⟩ := run_outage
  exact ⟨s, hrun, health_eq hrun⟩

/-- The average latency of a token is at most the longest time that one of its answers took. -/
theorem averageLatencySeconds_le
    (hrun : run (step api) (initial limits clock perfCounter) events = some s) {longest : ℚ}
    (hlongest : ∀ answer ∈ s.answersOf key, answer.elapsed ≤ longest) (hnonneg : 0 ≤ longest) :
    0 ≤ (s.metrics key).averageLatencySeconds ∧
      (s.metrics key).averageLatencySeconds ≤ longest := by
  have hs := accounted hrun
  have helapsed : ∀ answer ∈ (s.answersOf key).filter ApiAnswer.isTimed,
      0 ≤ answer.elapsed ∧ answer.elapsed ≤ longest := fun answer hanswer => by
    have hmem := List.mem_of_mem_filter hanswer
    exact ⟨hs.elapsed answer (List.mem_of_mem_filter hmem), hlongest answer hmem⟩
  have hcount : ((s.answersOf key).filter ApiAnswer.isTimed).length ≤
      (s.metrics key).requestCount := by
    rw [hs.metrics key]
    exact (List.length_filter_le _ _).trans (Nat.le_add_right _ _)
  have htotal : (s.metrics key).totalLatencySeconds =
      (((s.answersOf key).filter ApiAnswer.isTimed).map ApiAnswer.elapsed).sum := by
    rw [hs.metrics key]
    rfl
  have hlower : 0 ≤ (s.metrics key).totalLatencySeconds := by
    rw [htotal]
    exact List.sum_nonneg (List.forall_mem_map.mpr fun a ha => (helapsed a ha).1)
  have hupper : (s.metrics key).totalLatencySeconds ≤ (s.metrics key).requestCount * longest := by
    have hsum := List.sum_le_card_nsmul
      (((s.answersOf key).filter ApiAnswer.isTimed).map ApiAnswer.elapsed) longest
      (List.forall_mem_map.mpr fun a ha => (helapsed a ha).2)
    rw [← htotal, List.length_map, nsmul_eq_mul] at hsum
    exact hsum.trans (mul_le_mul_of_nonneg_right (by exact_mod_cast hcount) hnonneg)
  rw [TokenApiMetrics.averageLatencySeconds]
  split_ifs with hzero
  · exact ⟨le_rfl, hnonneg⟩
  · have hpos : (0 : ℚ) < (s.metrics key).requestCount := by
      exact_mod_cast Nat.pos_of_ne_zero hzero
    exact ⟨div_nonneg hlower hpos.le, (div_le_iff₀ hpos).mpr (by rwa [mul_comm])⟩

/-- The average latency of alice after the outage. -/
theorem averageLatencySeconds_le_outage : ∃ s, run (step ⟨DonutApiClient.twoDigitHeaders, 2⟩)
    (initial Settings.unset.rateLimits 0 0) outage = some s ∧
      0 ≤ (s.metrics "alice").averageLatencySeconds ∧
        (s.metrics "alice").averageLatencySeconds ≤ 1 / 2 := by
  have hlatency : ((run (step ⟨DonutApiClient.twoDigitHeaders, 2⟩)
      (initial Settings.unset.rateLimits 0 0) outage).map fun s =>
        decide (∀ answer ∈ s.answersOf "alice", answer.elapsed ≤ 1 / 2)) = some true := by
    decide +kernel
  obtain ⟨s, hrun, hlongest⟩ := Option.map_eq_some_iff.mp hlatency
  exact ⟨s, hrun, averageLatencySeconds_le hrun (of_decide_eq_true hlongest) (by norm_num)⟩

end MeteredClient

end DonutMonitor
