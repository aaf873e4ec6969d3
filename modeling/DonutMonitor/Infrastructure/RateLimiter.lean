import DonutMonitor.Core.Config
import DonutMonitor.Foundations.PyFloat
import Mathlib.Data.Finset.Dedup
import Mathlib.Data.Finset.Order
import Mathlib.Data.List.TakeWhile

/-!
# The per-token rate limiter

`PerTokenRateLimiter` keeps one `TokenLimitState` for each token key: the timestamps of the
requests granted in the current window, the end of the token's block and the number of errors in
a row. Every method reads the clock once, acts on the state of its own key and contains no
suspension point, so it is a function of the clock reading and that state.

The clock is a finite reading in exact seconds; the end of a block is a `PyFloat`, because the
`Retry-After` header can make it infinite.

## Main definitions

* `RateLimits` — the arguments of the constructor that passed its check.
* `TokenLimitState.tryAcquire` and the other methods, on the state of one key.
* `LimiterCall`, `PerTokenRateLimiter.perform`, `PerTokenRateLimiter.trace` — the methods as one
  family of calls, and the answers along a sequence of calls.

## Main results

* `TokenLimitState.perform_requests` — what a call does to the queue of its key.
-/

namespace DonutMonitor

/-- The arguments of `PerTokenRateLimiter.__init__` that passed its check. -/
structure RateLimits where
  monitoringLimit : ℤ
  hardLimit : ℤ
  windowSeconds : ℚ
  monitoringLimit_pos : 0 < monitoringLimit
  monitoringLimit_le : monitoringLimit ≤ hardLimit

namespace RateLimits

/-- The check of `PerTokenRateLimiter.__init__`. -/
def create (monitoringLimit hardLimit : ℤ) (windowSeconds : ℚ) : Except String RateLimits :=
  if h : monitoringLimit ≤ 0 ∨ hardLimit < monitoringLimit then
    .error "Rate limits must satisfy 0 < monitoring_limit <= hard_limit"
  else
    .ok
      { monitoringLimit, hardLimit, windowSeconds
        monitoringLimit_pos := not_le.mp fun hle => h (.inl hle)
        monitoringLimit_le := not_lt.mp fun hlt => h (.inr hlt) }

/-- The limit of a request class. -/
def limit (limits : RateLimits) (interactive : Bool) : ℤ :=
  if interactive then limits.hardLimit else limits.monitoringLimit

theorem limit_pos (limits : RateLimits) (interactive : Bool) : 0 < limits.limit interactive := by
  have := limits.monitoringLimit_pos
  have := limits.monitoringLimit_le
  unfold limit
  split_ifs <;> omega

theorem limit_le_hardLimit (limits : RateLimits) (interactive : Bool) :
    limits.limit interactive ≤ limits.hardLimit := by
  have := limits.monitoringLimit_le
  unfold limit
  split_ifs <;> omega

end RateLimits

/-- The limiter arguments that `async_main` computes from the settings. -/
def Settings.rateLimits (settings : Settings) : RateLimits where
  monitoringLimit := settings.safeRequestsPerMinute
  hardLimit := settings.safeRequestsPerMinute + settings.reservedRequestsPerMinute
  windowSeconds := 60
  monitoringLimit_pos := settings.safe_pos
  monitoringLimit_le := by have := settings.reserved_pos; omega

theorem Settings.create_rateLimits (settings : Settings) :
    RateLimits.create settings.safeRequestsPerMinute
      (settings.safeRequestsPerMinute + settings.reservedRequestsPerMinute) 60 =
        .ok settings.rateLimits := by
  have := settings.safe_pos
  have := settings.reserved_pos
  rw [RateLimits.create, dif_neg (by omega)]
  rfl

/-- `TokenLimitState`. The deque lists the oldest request first. -/
structure TokenLimitState where
  requests : List ℚ := []
  blockedUntil : PyFloat := .fin 0
  consecutiveErrors : ℕ := 0
  deriving DecidableEq, Repr

namespace TokenLimitState

variable (limits : RateLimits) (now : ℚ)

/-- `_prune`. -/
def prune (s : TokenLimitState) : TokenLimitState :=
  { s with requests := s.requests.dropWhile fun t => t ≤ now - limits.windowSeconds }

/-- `try_acquire`. -/
def tryAcquire (interactive : Bool) (s : TokenLimitState) : Bool × TokenLimitState :=
  let s := s.prune limits now
  if (PyFloat.fin now).lt s.blockedUntil ∨ limits.limit interactive ≤ s.requests.length then
    (false, s)
  else
    (true, { s with requests := s.requests ++ [now] })

/-- `retry_after`. The limits are positive, so a queue that has reached its limit has a head. -/
def retryAfter (interactive : Bool) (s : TokenLimitState) : PyFloat × TokenLimitState :=
  let s := s.prune limits now
  if (PyFloat.fin now).lt s.blockedUntil then
    ((s.blockedUntil.sub (.fin now)).max (.fin (1 / 100)), s)
  else
    match s.requests with
    | [] => (.fin 0, s)
    | oldest :: _ =>
      if limits.limit interactive ≤ s.requests.length then
        ((PyFloat.fin (oldest + limits.windowSeconds - now)).max (.fin (1 / 100)), s)
      else (.fin 0, s)

/-- `remaining`. -/
def remaining (interactive : Bool) (s : TokenLimitState) : ℤ × TokenLimitState :=
  let s := s.prune limits now
  (max (limits.limit interactive - s.requests.length) 0, s)

/-- `block`. -/
def block (seconds : PyFloat) (s : TokenLimitState) : TokenLimitState :=
  { s with
    blockedUntil := s.blockedUntil.max ((PyFloat.fin now).add (seconds.max (.fin 0))) }

/-- `record_transient_error`. The counter is increased before the power is converted to a float,
which raises `OverflowError` (`none`) once the power is too large for one. -/
def recordTransientError (maximum : PyFloat) (s : TokenLimitState) :
    Option PyFloat × TokenLimitState :=
  let s := { s with consecutiveErrors := s.consecutiveErrors + 1 }
  match PyFloat.ofNat? (2 ^ (s.consecutiveErrors - 1)) with
  | none => (none, s)
  | some power =>
    let delay := power.min maximum
    (some delay, s.block now delay)

/-- `record_success`. -/
def recordSuccess (s : TokenLimitState) : TokenLimitState :=
  { s with consecutiveErrors := 0, blockedUntil := .fin 0 }

/-- `budget_reset_at`, for the reading `utcNow` of the wall clock. -/
def budgetResetAt (utcNow : ℚ) (s : TokenLimitState) : Option ℚ × TokenLimitState :=
  let s := s.prune limits now
  match s.requests with
  | [] => (none, s)
  | oldest :: _ => (some (utcNow + max (oldest + limits.windowSeconds - now) 0), s)

@[simp] theorem block_requests (seconds : PyFloat) (s : TokenLimitState) :
    (s.block now seconds).requests = s.requests := rfl

@[simp] theorem prune_blockedUntil (s : TokenLimitState) :
    (s.prune limits now).blockedUntil = s.blockedUntil := rfl

/-- A refused acquisition prunes the queue; a granted one is not blocked, finds room in the pruned
queue and adds the clock reading to it. -/
theorem tryAcquire_cases (interactive : Bool) (s : TokenLimitState) :
    s.tryAcquire limits now interactive = (false, s.prune limits now) ∨
    (PyFloat.fin now).lt s.blockedUntil = false ∧
      ((s.prune limits now).requests.length : ℤ) < limits.limit interactive ∧
      s.tryAcquire limits now interactive =
        (true, { s with requests := (s.prune limits now).requests ++ [now] }) := by
  by_cases h : (PyFloat.fin now).lt s.blockedUntil ∨
      limits.limit interactive ≤ (s.prune limits now).requests.length
  · exact .inl (if_pos h)
  · obtain ⟨hblocked, hroom⟩ := not_or.mp h
    exact .inr ⟨by simpa using hblocked, not_le.mp hroom, if_neg h⟩

/-- A key that is not blocked for ever is free at some time: its block and its window are over. -/
theorem exists_tryAcquire (interactive : Bool) (s : TokenLimitState)
    (h : s.blockedUntil ≠ .posInf) :
    ∃ t, ∀ now, t ≤ now → (s.tryAcquire limits now interactive).1 = true := by
  obtain ⟨t, ht⟩ := PyFloat.exists_lt_eq_false h
  obtain ⟨u, hu⟩ : ∃ u, ∀ r ∈ s.requests, r ≤ u - limits.windowSeconds := by
    obtain ⟨m, hm⟩ := s.requests.toFinset.exists_le
    exact ⟨m + limits.windowSeconds, fun r hr => by simpa using hm r (by simpa using hr)⟩
  refine ⟨max t u, fun now hnow => ?_⟩
  have hempty : (s.prune limits now).requests = [] := by
    refine List.dropWhile_eq_nil_iff.mpr fun r hr => decide_eq_true ?_
    linarith [hu r hr, le_trans (le_max_right t u) hnow]
  have hfree : ¬ ((PyFloat.fin now).lt s.blockedUntil = true ∨
      limits.limit interactive ≤ (s.prune limits now).requests.length) := by
    rw [ht now (le_trans (le_max_left t u) hnow), hempty]
    simpa using limits.limit_pos interactive
  exact congrArg Prod.fst (if_neg hfree)

theorem retryAfter_snd (interactive : Bool) (s : TokenLimitState) :
    (s.retryAfter limits now interactive).2 = s.prune limits now := by
  simp only [retryAfter]
  split
  · rfl
  · split
    · rfl
    · split <;> rfl

theorem budgetResetAt_snd (utcNow : ℚ) (s : TokenLimitState) :
    (s.budgetResetAt limits now utcNow).2 = s.prune limits now := by
  simp only [budgetResetAt]
  split <;> rfl

@[simp] theorem recordTransientError_requests (maximum : PyFloat) (s : TokenLimitState) :
    (s.recordTransientError now maximum).2.requests = s.requests := by
  dsimp only [recordTransientError]
  generalize PyFloat.ofNat? (2 ^ (s.consecutiveErrors + 1 - 1)) = power
  cases power <;> rfl

@[simp] theorem recordTransientError_consecutiveErrors (maximum : PyFloat)
    (s : TokenLimitState) :
    (s.recordTransientError now maximum).2.consecutiveErrors = s.consecutiveErrors + 1 := by
  dsimp only [recordTransientError]
  generalize PyFloat.ofNat? (2 ^ (s.consecutiveErrors + 1 - 1)) = power
  cases power <;> rfl

/-- A record that returns blocks the key for the delay, another leaves its block as it is. -/
theorem recordTransientError_blockedUntil (maximum : PyFloat) (s : TokenLimitState) :
    (s.recordTransientError now maximum).2.blockedUntil =
      ((s.recordTransientError now maximum).1.elim s (s.block now)).blockedUntil := by
  dsimp only [recordTransientError]
  generalize PyFloat.ofNat? (2 ^ (s.consecutiveErrors + 1 - 1)) = power
  cases power <;> rfl

end TokenLimitState

/-- A call of one of the limiter's methods. -/
inductive LimiterCall where
  | tryAcquire (interactive : Bool)
  | retryAfter (interactive : Bool)
  | remaining (interactive : Bool)
  | block (seconds : PyFloat)
  | recordTransientError (maximum : PyFloat)
  | recordSuccess
  | budgetResetAt (utcNow : ℚ)
  deriving DecidableEq, Repr

/-- What a call returns or raises. -/
inductive LimiterAnswer where
  | acquired (granted : Bool)
  | seconds (value : PyFloat)
  | count (value : ℤ)
  | resetAt (value : Option ℚ)
  | done
  | overflowError
  deriving DecidableEq, Repr

/-- The call, on the state of its key. -/
def TokenLimitState.perform (limits : RateLimits) (now : ℚ) (s : TokenLimitState) :
    LimiterCall → LimiterAnswer × TokenLimitState
  | .tryAcquire interactive => (s.tryAcquire limits now interactive).map .acquired id
  | .retryAfter interactive => (s.retryAfter limits now interactive).map .seconds id
  | .remaining interactive => (s.remaining limits now interactive).map .count id
  | .block seconds => (.done, s.block now seconds)
  | .recordTransientError maximum =>
    (s.recordTransientError now maximum).map
      (fun delay => delay.elim .overflowError .seconds) id
  | .recordSuccess => (.done, s.recordSuccess)
  | .budgetResetAt utcNow => (s.budgetResetAt limits now utcNow).map .resetAt id

/-- The queue after a call on its key: a granted acquisition prunes it, finds room and adds the
clock reading; every other call leaves it as it was or prunes it. -/
theorem TokenLimitState.perform_requests (limits : RateLimits) (now : ℚ) (s : TokenLimitState)
    (call : LimiterCall) :
    (∃ interactive, call = .tryAcquire interactive ∧
      (s.perform limits now call).1 = .acquired true ∧
      ((s.prune limits now).requests.length : ℤ) < limits.limit interactive ∧
      (s.perform limits now call).2.requests = (s.prune limits now).requests ++ [now]) ∨
    ((s.perform limits now call).1 ≠ .acquired true ∧
      ((s.perform limits now call).2.requests = s.requests ∨
        (s.perform limits now call).2.requests = (s.prune limits now).requests)) := by
  cases call with
  | tryAcquire interactive =>
    rcases tryAcquire_cases limits now interactive s with h | ⟨-, hroom, h⟩
    · exact .inr (by simp [perform, h])
    · exact .inl ⟨interactive, rfl, by simp [perform, h], hroom, by simp [perform, h]⟩
  | retryAfter interactive =>
    exact .inr ⟨by simp [perform], .inr (by simp [perform, retryAfter_snd])⟩
  | remaining interactive => exact .inr ⟨by simp [perform], .inr rfl⟩
  | block seconds => exact .inr ⟨by simp [perform], .inl rfl⟩
  | recordTransientError maximum =>
    refine .inr ⟨?_, .inl (by simp [perform])⟩
    cases h : (s.recordTransientError now maximum).1 <;> simp [perform, h]
  | recordSuccess => exact .inr ⟨by simp [perform], .inl rfl⟩
  | budgetResetAt utcNow =>
    exact .inr ⟨by simp [perform], .inr (by simp [perform, budgetResetAt_snd])⟩

/-- `calculate_poll_interval`. -/
def calculatePollInterval (uniqueRequests pagesPerRequest safeRequestsPerMinute : ℤ)
    (defaultSeconds : ℚ) : ℚ :=
  if uniqueRequests ≤ 0 then defaultSeconds
  else max defaultSeconds (uniqueRequests * max pagesPerRequest 1 * 60 / safeRequestsPerMinute)

/-- `PerTokenRateLimiter`: the limits and the states of all keys. A key that was never used has
the default state. -/
structure PerTokenRateLimiter where
  limits : RateLimits
  states : String → TokenLimitState := fun _ => {}

/-- The limiter that `__init__` builds. -/
def PerTokenRateLimiter.new (limits : RateLimits) : PerTokenRateLimiter := ⟨limits, fun _ => {}⟩

/-- A call on a token key, at a clock reading. -/
structure TimedCall where
  now : ℚ
  key : String
  call : LimiterCall
  deriving DecidableEq, Repr

namespace PerTokenRateLimiter

/-- The limiter with the state of one key replaced. -/
def setState (l : PerTokenRateLimiter) (key : String) (s : TokenLimitState) :
    PerTokenRateLimiter :=
  { l with states := fun k => if k = key then s else l.states k }

@[simp] theorem new_limits (limits : RateLimits) : (new limits).limits = limits := rfl

@[simp] theorem new_states (limits : RateLimits) (key : String) : (new limits).states key = {} :=
  rfl

@[simp] theorem setState_limits (l : PerTokenRateLimiter) (key : String) (s : TokenLimitState) :
    (l.setState key s).limits = l.limits := rfl

@[simp] theorem setState_states_self (l : PerTokenRateLimiter) (key : String)
    (s : TokenLimitState) : (l.setState key s).states key = s := if_pos rfl

theorem setState_states_of_ne (l : PerTokenRateLimiter) {key k : String} (s : TokenLimitState)
    (hk : k ≠ key) : (l.setState key s).states k = l.states k := if_neg hk

/-- Perform a call. -/
def perform (l : PerTokenRateLimiter) (c : TimedCall) : LimiterAnswer × PerTokenRateLimiter :=
  let result := (l.states c.key).perform l.limits c.now c.call
  (result.1, l.setState c.key result.2)

/-- The calls of a sequence with their answers. -/
def trace (l : PerTokenRateLimiter) : List TimedCall → List (TimedCall × LimiterAnswer)
  | [] => []
  | c :: calls => (c, (l.perform c).1) :: (l.perform c).2.trace calls

end PerTokenRateLimiter

end DonutMonitor
