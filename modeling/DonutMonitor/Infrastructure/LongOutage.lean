import DonutMonitor.Infrastructure.DonutApi
import DonutMonitor.Infrastructure.InteractiveReserve

/-!
# Backoff in a long outage

The `n`-th transient error of a key since its last success orders a delay of
`min (2 ^ (n - 1)) maximum`.  The power is converted to a float before the maximum applies, so the
conversion decides how long this lasts: the 1024th power of two is too large for a float, and from
the 1025th error on `record_transient_error` raises `OverflowError`, which leaves `_request_page`
uncaught.

## Main definitions

* `errorsSinceSuccess` — the transient errors recorded for a key since its last success.
* `TokenLimitState.BacksOff` — what is expected of the next record.

## Main results

* `PerTokenRateLimiter.states_consecutiveErrors` — the counter of a key counts them.
* `PerTokenRateLimiter.backsOff_iff` — the `n`-th record is as expected if and only if `n ≤ 1024`.
-/

namespace DonutMonitor

/-! ### The counter -/

/-- The number of transient errors since the last success after a call, from the number before
it. A record that raises counts as well. -/
def LimiterCall.errorsAfter (n : ℕ) : LimiterCall → ℕ
  | recordTransientError _ => n + 1
  | recordSuccess => 0
  | tryAcquire _ | retryAfter _ | remaining _ | block _ | budgetResetAt _ => n

/-- The transient errors recorded for a key since its last success, when `n` were recorded before
the calls. -/
def errorsSinceSuccess (key : String) (n : ℕ) (calls : List TimedCall) : ℕ :=
  calls.foldl (fun n c => if c.key = key then c.call.errorsAfter n else n) n

/-- What a call does to the counter of its key. -/
private theorem perform_consecutiveErrors (limits : RateLimits) (now : ℚ) (s : TokenLimitState)
    (call : LimiterCall) :
    (s.perform limits now call).2.consecutiveErrors = call.errorsAfter s.consecutiveErrors := by
  cases call with
  | tryAcquire interactive =>
    rcases s.tryAcquire_cases limits now interactive with h | ⟨-, -, h⟩ <;>
      simp [TokenLimitState.perform, h, TokenLimitState.prune, LimiterCall.errorsAfter]
  | retryAfter interactive =>
    simp [TokenLimitState.perform, TokenLimitState.retryAfter_snd, TokenLimitState.prune,
      LimiterCall.errorsAfter]
  | remaining interactive => rfl
  | block seconds => rfl
  | recordTransientError maximum => simp [TokenLimitState.perform, LimiterCall.errorsAfter]
  | recordSuccess => rfl
  | budgetResetAt utcNow =>
    simp [TokenLimitState.perform, TokenLimitState.budgetResetAt_snd, TokenLimitState.prune,
      LimiterCall.errorsAfter]

/-- The counter of a key holds the number of its transient errors since its last success. -/
theorem PerTokenRateLimiter.states_consecutiveErrors (l : PerTokenRateLimiter)
    (calls : List TimedCall) (key : String) :
    ((l.after calls).states key).consecutiveErrors =
      errorsSinceSuccess key (l.states key).consecutiveErrors calls := by
  induction calls generalizing l with
  | nil => rfl
  | cons c calls ih =>
    rw [after_cons, ih, errorsSinceSuccess, errorsSinceSuccess, List.foldl_cons]
    congr 1
    by_cases hkey : c.key = key
    · subst hkey
      rw [if_pos rfl, perform_states_self, perform_consecutiveErrors]
    · rw [if_neg hkey, l.perform_states_of_ne fun h => hkey h.symm]

/-! ### The delays -/

/-- The delay that the `n`-th transient error orders. -/
def backoffDelay (n : ℕ) (maximum : PyFloat) : PyFloat := (PyFloat.fin (2 ^ (n - 1))).min maximum

/-- A power of two fits into a float up to the exponent 1023. -/
theorem PyFloat.ofNat?_two_pow (k : ℕ) :
    PyFloat.ofNat? (2 ^ k) = if k < 1024 then some (.fin (2 ^ k)) else none := by
  have hlarge : 2 ^ 1024 - 2 ^ 970 ≤ 2 ^ 1024 := Nat.sub_le (2 ^ 1024) (2 ^ 970)
  have hsmall : 2 ^ 1023 < 2 ^ 1024 - 2 ^ 970 := by
    have hlt : 2 ^ 970 < 2 ^ 1023 := pow_lt_pow_right₀ one_lt_two (by decide)
    have htwice : 2 ^ 1024 = 2 ^ 1023 + 2 ^ 1023 := by rw [← two_mul, ← pow_succ']
    rw [htwice]
    exact Nat.lt_sub_of_add_lt (Nat.add_lt_add_left hlt _)
  rw [PyFloat.ofNat?]
  by_cases hk : k < 1024
  · have hle : 2 ^ k ≤ 2 ^ 1023 := pow_le_pow_right₀ one_le_two (Nat.le_of_lt_succ hk)
    rw [if_pos (hle.trans_lt hsmall), if_pos hk, Nat.cast_pow, Nat.cast_ofNat]
  · have hle : 2 ^ 1024 ≤ 2 ^ k := pow_le_pow_right₀ one_le_two (not_lt.mp hk)
    rw [if_neg (not_lt.mpr (hlarge.trans hle)), if_neg hk]

/-- The delays do not decrease with the number of errors. -/
theorem backoffDelay_mono {m n : ℕ} (h : m ≤ n) (maximum : PyFloat) :
    (backoffDelay n maximum).lt (backoffDelay m maximum) = false := by
  have hpow : (2 : ℚ) ^ (m - 1) ≤ 2 ^ (n - 1) :=
    pow_le_pow_right₀ one_le_two (Nat.sub_le_sub_right h 1)
  cases maximum with
  | fin maximum =>
    rw [backoffDelay, backoffDelay, PyFloat.fin_min_fin, PyFloat.fin_min_fin,
      PyFloat.fin_lt_fin_eq_false]
    exact min_le_min_right maximum hpow
  | posInf => simpa [backoffDelay, PyFloat.min, PyFloat.lt] using hpow
  | negInf => rfl
  | nan => simpa [backoffDelay, PyFloat.min, PyFloat.lt] using hpow

/-! ### Records and requests -/

/-- What is expected of the `n`-th record of a transient error at the time `now`, and of the
requests that make it. -/
structure TokenLimitState.BacksOff (s : TokenLimitState) (now : ℚ) (n : ℕ) (maximum : PyFloat) :
    Prop where
  /-- The record returns the delay. -/
  returns : (s.recordTransientError now maximum).1 = some (backoffDelay n maximum)
  /-- The key is blocked until the delay is over. -/
  blocks : (s.recordTransientError now maximum).2.blockedUntil ≠ .nan ∧
    (s.recordTransientError now maximum).2.blockedUntil.lt
      ((PyFloat.fin now).add (backoffDelay n maximum)) = false
  /-- The delay is not shorter than that of an earlier error. -/
  grows : ∀ m ≤ n, (backoffDelay n maximum).lt (backoffDelay m maximum) = false
  /-- A request that fails transiently raises `DonutTransientError`, if it raises. -/
  fails : ∀ (client : DonutApiClient) (utcNow : ℚ) (attempt : ℕ) (outcome : HttpOutcome)
    (failure : RequestFailure), outcome.isTransient = true →
    (client.handleOutcome now utcNow attempt outcome s).1 = .raised failure →
    ∃ reason, failure = .api (.transient reason)

/-- A block lasts for the time that it is asked to. -/
theorem TokenLimitState.block_not_lt {s : TokenLimitState} (hb : s.blockedUntil ≠ .nan) (now : ℚ)
    (seconds : PyFloat) :
    (s.block now seconds).blockedUntil.lt ((PyFloat.fin now).add seconds) = false := by
  rw [block]
  cases seconds with
  | fin seconds =>
    rw [PyFloat.fin_max_fin, PyFloat.add_fin_fin, PyFloat.add_fin_fin]
    exact PyFloat.max_fin_not_lt hb (add_le_add_right (le_max_left seconds 0) now)
  | posInf =>
    cases h : s.blockedUntil with
    | nan => exact absurd h hb
    | _ => rfl
  | negInf => exact PyFloat.lt_negInf _
  | nan => exact PyFloat.lt_nan _

/-- The record of a transient error that follows `n` others. -/
theorem TokenLimitState.recordTransientError_fst (now : ℚ) (maximum : PyFloat)
    (s : TokenLimitState) :
    (s.recordTransientError now maximum).1 =
      if s.consecutiveErrors < 1024 then
        some (backoffDelay (s.consecutiveErrors + 1) maximum) else none := by
  dsimp only [recordTransientError]
  generalize hpower : PyFloat.ofNat? (2 ^ (s.consecutiveErrors + 1 - 1)) = power
  rw [Nat.add_sub_cancel, PyFloat.ofNat?_two_pow] at hpower
  subst hpower
  split_ifs <;> rfl

/-- The next record is as expected if and only if it is one of the first 1024. -/
theorem TokenLimitState.backsOff_iff_le {s : TokenLimitState} (hb : s.blockedUntil ≠ .nan) (now : ℚ)
    (maximum : PyFloat) :
    s.BacksOff now (s.consecutiveErrors + 1) maximum ↔ s.consecutiveErrors + 1 ≤ 1024 := by
  refine ⟨fun h => ?_, fun h => ?_⟩
  · have hreturns := h.returns
    rw [recordTransientError_fst] at hreturns
    by_contra hlarge
    rw [if_neg (by omega)] at hreturns
    cases hreturns
  · have hreturns : (s.recordTransientError now maximum).1 =
        some (backoffDelay (s.consecutiveErrors + 1) maximum) := by
      rw [recordTransientError_fst, if_pos (by omega)]
    have hblock := s.recordTransientError_blockedUntil now maximum
    rw [hreturns, Option.elim_some] at hblock
    refine ⟨hreturns, ?_, fun m hm => backoffDelay_mono hm maximum,
      fun client utcNow attempt outcome failure htransient hraised => ?_⟩
    · rw [hblock]
      exact ⟨PyFloat.max_ne_nan hb, block_not_lt hb now _⟩
    · obtain ⟨reason, hretry⟩ := client.handleOutcome_of_isTransient now utcNow attempt
        htransient s
      rw [hretry] at hraised
      rcases client.retry_cases now attempt reason s with
        ⟨-, h⟩ | ⟨-, hnone, -⟩ | ⟨-, delay, -, h⟩
      · rw [h] at hraised
        exact ⟨reason, (AttemptResult.raised.inj hraised).symm⟩
      · rw [recordTransientError_fst, if_pos (by omega)] at hnone
        cases hnone
      · rw [h] at hraised
        cases hraised

/-! ### Runs of the limiter -/

namespace PerTokenRateLimiter

/-- What a call does to the end of its key's block: it stays, it is extended, or it is lifted. -/
private theorem perform_blockedUntil (limits : RateLimits) (now : ℚ) (s : TokenLimitState)
    (call : LimiterCall) :
    (s.perform limits now call).2.blockedUntil = s.blockedUntil ∨
      (∃ seconds, (s.perform limits now call).2.blockedUntil =
        (s.block now seconds).blockedUntil) ∨
      (s.perform limits now call).2.blockedUntil = .fin 0 := by
  cases call with
  | tryAcquire interactive =>
    rcases s.tryAcquire_cases limits now interactive with h | ⟨-, -, h⟩ <;>
      exact .inl (by simp [TokenLimitState.perform, h])
  | retryAfter interactive =>
    exact .inl (by simp [TokenLimitState.perform, TokenLimitState.retryAfter_snd])
  | remaining interactive => exact .inl rfl
  | block seconds => exact .inr (.inl ⟨seconds, rfl⟩)
  | recordTransientError maximum =>
    simp only [TokenLimitState.perform, Prod.map_snd, id, s.recordTransientError_blockedUntil]
    cases (s.recordTransientError now maximum).1 with
    | none => exact .inl rfl
    | some delay => exact .inr (.inl ⟨delay, rfl⟩)
  | recordSuccess => exact .inr (.inr rfl)
  | budgetResetAt utcNow =>
    exact .inl (by simp [TokenLimitState.perform, TokenLimitState.budgetResetAt_snd])

/-- The end of a block is never `nan`. -/
theorem after_blockedUntil_ne_nan (l : PerTokenRateLimiter) (calls : List TimedCall)
    (key : String) (h : (l.states key).blockedUntil ≠ .nan) :
    ((l.after calls).states key).blockedUntil ≠ .nan := by
  induction calls generalizing l with
  | nil => exact h
  | cons c calls ih =>
    refine ih (l.perform c).2 ?_
    by_cases hkey : key = c.key
    · subst hkey
      rw [perform_states_self]
      rcases perform_blockedUntil l.limits c.now (l.states c.key) c.call with
        hb | ⟨seconds, hb⟩ | hb <;> rw [hb]
      · exact h
      · exact PyFloat.max_ne_nan h
      · exact PyFloat.noConfusion
    · rwa [l.perform_states_of_ne hkey]

/-- After every run of the limiter the next record of a transient error for a key is as expected if
and only if it is at most the 1024th since the key's last success. -/
theorem backsOff_iff (limits : RateLimits) (calls : List TimedCall) (key : String) (now : ℚ)
    (maximum : PyFloat) :
    (((new limits).after calls).states key).BacksOff now (errorsSinceSuccess key 0 calls + 1)
      maximum ↔ errorsSinceSuccess key 0 calls + 1 ≤ 1024 := by
  have hcount := (new limits).states_consecutiveErrors calls key
  rw [new_states] at hcount
  rw [← hcount]
  exact TokenLimitState.backsOff_iff_le
    ((new limits).after_blockedUntil_ne_nan calls key PyFloat.noConfusion) now maximum

private theorem errorsSinceSuccess_replicate (key : String) (now : ℚ) (maximum : PyFloat)
    (k n : ℕ) : errorsSinceSuccess key k
      (List.replicate n ⟨now, key, .recordTransientError maximum⟩) = k + n := by
  induction n generalizing k with
  | zero => rfl
  | succ n ih =>
    rw [List.replicate_succ, errorsSinceSuccess, List.foldl_cons, if_pos rfl]
    exact (ih (k + 1)).trans (by omega)

/-- A further timeout of a key that has recorded 1024 errors. -/
private theorem overflowError_of_errors (limits : RateLimits) {calls : List TimedCall}
    {key : String} (h : errorsSinceSuccess key 0 calls = 1024) (client : DonutApiClient)
    (hclient : 0 < client.maxRetries) :
    (((new limits).after calls).perform ⟨0, key, .recordTransientError (.fin 60)⟩).1 =
      .overflowError ∧
    (client.handleOutcome 0 0 0 (.transportError .readTimeout)
      (((new limits).after calls).states key)).1 = .raised .overflowError := by
  have hnone : ((((new limits).after calls).states key).recordTransientError 0 (.fin 60)).1 =
      none := by
    have hcount := (new limits).states_consecutiveErrors calls key
    rw [new_states, h] at hcount
    rw [TokenLimitState.recordTransientError_fst, hcount, if_neg (lt_irrefl 1024)]
  refine ⟨?_, ?_⟩
  · simp only [perform, TokenLimitState.perform, Prod.map_fst, hnone, Option.elim_none]
  · have htransient : (HttpOutcome.transportError .readTimeout).isTransient = true := rfl
    obtain ⟨reason, hretry⟩ := client.handleOutcome_of_isTransient 0 0 0 htransient
      (((new limits).after calls).states key)
    rw [hretry]
    rcases client.retry_cases 0 0 reason (((new limits).after calls).states key) with
      ⟨hused, -⟩ | ⟨-, -, hraised⟩ | ⟨-, delay, hsome, -⟩
    · exact absurd hclient (not_lt.mpr hused)
    · rw [hraised]
    · cases hnone.symm.trans hsome

/-- The timeout that follows 1024 others. -/
theorem overflowError_of_outage :
    errorsSinceSuccess "alice" 0
      (List.replicate 1024 ⟨0, "alice", .recordTransientError (.fin 60)⟩) = 1024 ∧
    (((new ⟨220, 250, 60, by decide, by decide⟩).after
      (List.replicate 1024 ⟨0, "alice", .recordTransientError (.fin 60)⟩)).perform
        ⟨0, "alice", .recordTransientError (.fin 60)⟩).1 = .overflowError ∧
    ((⟨⟨fun _ => none, fun _ => .error⟩, 2⟩ : DonutApiClient).handleOutcome 0 0 0
      (.transportError .readTimeout)
      (((new ⟨220, 250, 60, by decide, by decide⟩).after
        (List.replicate 1024 ⟨0, "alice", .recordTransientError (.fin 60)⟩)).states "alice")).1 =
          .raised .overflowError := by
  have hcount := (errorsSinceSuccess_replicate "alice" 0 (.fin 60) 0 1024).trans (zero_add 1024)
  exact ⟨hcount, overflowError_of_errors ⟨220, 250, 60, by decide, by decide⟩ hcount _ two_pos⟩

end PerTokenRateLimiter

end DonutMonitor
