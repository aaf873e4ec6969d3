import DonutMonitor.Infrastructure.DonutApi

/-!
# A 429 blocks the token for the time the server asks for

After a 429 with a finite `Retry-After` of `r` seconds at the time `T`, the token key is blocked
until `T + r`, and a further 429 or transient error only extends the block. The one event that
lifts it is the success of a request of the same key that was already in flight:
`record_success` sets the end of the block to 0 whatever put it there. Where no request of the key
succeeds before `T + r`, none is granted before `T + r` either.

## Main definitions

* `DonutApiClient.RespectsRetryAfter` — after a 429, no grant on the key before `T + r`, in runs
  whose steps after the 429 are all allowed.

## Main results

* `DonutApiClient.step_blockedUntil` — what one step does to the end of a key's block.
* `DonutApiClient.respectsRetryAfter_of_no_success` — the block is respected along runs without a
  success of the key before its end.
* `DonutApiClient.not_respectsRetryAfter` — a success of a request in flight lifts the block.
-/

open Transition

namespace DonutMonitor

namespace ClientState

variable {s : ClientState} {i : ℕ} {c : PageCall} {key : String} {state : TokenLimitState}

@[simp] theorem setPhase_limiter (phase : CallPhase) :
    (s.setPhase i c phase).limiter = s.limiter := rfl

@[simp] theorem setPhase_clock (phase : CallPhase) : (s.setPhase i c phase).clock = s.clock := rfl

@[simp] theorem setLimit_calls : (s.setLimit key state).calls = s.calls := rfl

@[simp] theorem setLimit_clock : (s.setLimit key state).clock = s.clock := rfl

@[simp] theorem setLimit_states_self : (s.setLimit key state).limiter.states key = state := by
  simp [setLimit]

theorem setLimit_states_of_ne {k : String} (hk : k ≠ key) :
    (s.setLimit key state).limiter.states k = s.limiter.states k :=
  PerTokenRateLimiter.setState_states_of_ne s.limiter state hk

/-- The request of the call `i` has been granted and is in flight. -/
def isInFlight (s : ClientState) (i : ℕ) : Bool := (s.calls[i]?).any fun c => c.phase.isInFlight

end ClientState

namespace DonutApiClient

variable {client : DonutApiClient} {s s' : ClientState} {now : ℚ}

/-- An acquisition does not move the end of any block. -/
theorem acquireStep_blockedUntil (s : ClientState) (i : ℕ) (c : PageCall) (key : String) :
    ((acquireStep s i c).limiter.states key).blockedUntil =
      (s.limiter.states key).blockedUntil := by
  simp only [acquireStep]
  rcases (s.limiter.states c.args.tokenKey).tryAcquire_cases s.limiter.limits s.clock
    c.args.interactive with h | ⟨-, -, h⟩
  all_goals
    by_cases hkey : key = c.args.tokenKey
    · subst hkey
      simp [h, TokenLimitState.retryAfter_snd]
    · simp [h, ClientState.setLimit_states_of_ne hkey]

/-- An acquisition on a blocked key is not granted. -/
theorem acquireStep_of_blocked {s : ClientState} {i : ℕ} {c : PageCall}
    (h : (PyFloat.fin s.clock).lt (s.limiter.states c.args.tokenKey).blockedUntil = true) :
    (acquireStep s i c).isInFlight i = false := by
  simp only [acquireStep]
  rcases (s.limiter.states c.args.tokenKey).tryAcquire_cases s.limiter.limits s.clock
    c.args.interactive with hacquire | ⟨hfree, -, -⟩
  · simp only [hacquire, Bool.false_eq_true, if_false, ClientState.isInFlight,
      ClientState.setPhase, ClientState.setLimit_calls, List.getElem?_set_self']
    cases s.calls[i]? <;> rfl
  · rw [h] at hfree
    cases hfree

/-- What an outcome does to the end of the key's block: a success lifts it, a 429 or a transient
error extends it, anything else leaves it. -/
theorem handleOutcome_blockedUntil (now utcNow : ℚ) (attempt : ℕ) (outcome : HttpOutcome)
    (s : TokenLimitState) :
    (outcome.succeeds = true ∧
      (client.handleOutcome now utcNow attempt outcome s).2 = s.recordSuccess) ∨
    ((client.handleOutcome now utcNow attempt outcome s).2.blockedUntil = s.blockedUntil ∨
      ∃ seconds, (client.handleOutcome now utcNow attempt outcome s).2.blockedUntil =
        (s.block now seconds).blockedUntil) := by
  rcases client.handleOutcome_cases now utcNow attempt outcome s with
    ⟨-, reason, h⟩ | ⟨-, ⟨error, -, h⟩ | ⟨response, fields, rfl, hjson, hsuccess, h⟩ |
      ⟨response, error, -, -, hstate⟩⟩
  · rw [h]
    rcases client.retry_snd now attempt reason s with hsnd | hsnd <;> rw [hsnd]
    · exact .inr (.inl rfl)
    · rw [s.recordTransientError_blockedUntil]
      cases (s.recordTransientError now (.fin 60)).1 with
      | none => exact .inr (.inl rfl)
      | some delay => exact .inr (.inr ⟨delay, rfl⟩)
  · exact .inr (.inl (by rw [h]))
  · obtain ⟨statusCode, retryAfter, json⟩ := response
    obtain rfl : json = some (.object fields) := hjson
    exact .inl ⟨hsuccess, by rw [h]⟩
  · rcases hstate with h | ⟨seconds, h⟩ <;> rw [h]
    · exact .inr (.inl rfl)
    · exact .inr (.inr ⟨seconds, rfl⟩)

/-- What one step does to the end of a key's block: it stays, it is extended by `block`, or a
request of the key succeeds and lifts it. -/
theorem step_blockedUntil {event : ClientEvent} (h : client.step s (now, event) = some s')
    (key : String) :
    s.clock ≤ now ∧ s'.clock = now ∧
    ((s'.limiter.states key).blockedUntil = (s.limiter.states key).blockedUntil ∨
      (∃ seconds, (s'.limiter.states key).blockedUntil =
        ((s.limiter.states key).block now seconds).blockedUntil) ∨
      ∃ i c outcome utcNow, event = .respond i outcome utcNow ∧ s.calls[i]? = some c ∧
        c.args.tokenKey = key ∧ outcome.succeeds = true ∧
        (s'.limiter.states key).blockedUntil = .fin 0) := by
  cases event with
  | start args =>
    obtain ⟨hnow, rfl⟩ := client.step_start.mp h
    exact ⟨hnow, rfl, .inl rfl⟩
  | tryAcquire i =>
    obtain ⟨hnow, c, wakeAt, hc, -, -, rfl⟩ := client.step_tryAcquire.mp h
    refine ⟨hnow, ?_, .inl (acquireStep_blockedUntil _ i c key)⟩
    simp only [acquireStep]
    split <;> rfl
  | respond i outcome utcNow =>
    obtain ⟨hnow, c, hc, -, rfl⟩ := client.step_respond.mp h
    refine ⟨hnow, rfl, ?_⟩
    by_cases hkey : key = c.args.tokenKey
    · subst hkey
      simp only [respondStep, ClientState.setPhase_limiter, ClientState.setLimit_states_self]
      rcases client.handleOutcome_blockedUntil now utcNow c.attempt outcome
        (s.limiter.states c.args.tokenKey) with ⟨hsuccess, heq⟩ | heq | ⟨seconds, heq⟩
      · exact .inr (.inr ⟨i, c, outcome, utcNow, rfl, hc, rfl, hsuccess, by rw [heq]; rfl⟩)
      · exact .inl heq
      · exact .inr (.inl ⟨seconds, heq⟩)
    · left
      simp only [respondStep, ClientState.setPhase_limiter]
      rw [ClientState.setLimit_states_of_ne hkey]
  | nextAttempt i =>
    obtain ⟨hnow, c, wakeAt, hc, -, -, rfl⟩ := client.step_nextAttempt.mp h
    exact ⟨hnow, rfl, .inl rfl⟩

/-- The end of a block is never `nan`. -/
theorem blockedUntil_ne_nan {limits : RateLimits} {clock : ℚ}
    (h : Reachable client.step (initial limits clock) s) (key : String) :
    (s.limiter.states key).blockedUntil ≠ .nan := by
  refine h.invariant (I := fun s => (s.limiter.states key).blockedUntil ≠ .nan)
    (fun s e s' hs hstep => ?_) (by simp [initial])
  obtain ⟨now, event⟩ := e
  obtain ⟨-, -, heq | ⟨seconds, heq⟩ | ⟨i, c, outcome, utcNow, -, -, -, -, heq⟩⟩ :=
    step_blockedUntil hstep key
  · rwa [heq]
  · rw [heq]
    exact PyFloat.max_ne_nan hs
  · simp [heq]

/-- Along a run whose steps after a 429 are allowed for the key and the end `T + r` of its block,
no acquisition on the key is granted at a time before `T + r`. -/
def RespectsRetryAfter (client : DonutApiClient)
    (allowed : String → ℚ → ClientState → ℚ × ClientEvent → Prop) : Prop :=
  ∀ (limits : RateLimits) (clock T utcNow r t : ℚ) (s₀ s₁ s₂ s₃ : ClientState) (i j : ℕ)
    (call other : PageCall) (response : HttpResponse) (events : List (ℚ × ClientEvent)),
    Reachable client.step (initial limits clock) s₀ →
    s₀.calls[i]? = some call → response.statusCode = 429 →
    parseRetryAfter client.parsers utcNow response.retryAfter = .fin r → 0 < r →
    client.step s₀ (T, .respond i (.response response) utcNow) = some s₁ →
    run client.step s₁ events = some s₂ →
    Along client.step (allowed call.args.tokenKey (T + r)) s₁ events →
    s₂.calls[j]? = some other → other.args.tokenKey = call.args.tokenKey → t < T + r →
    client.step s₂ (t, .tryAcquire j) = some s₃ → s₃.isInFlight j = false

/-- The step is not the success of a request of the key before `endsAt`. -/
def NoSuccessBefore (key : String) (endsAt : ℚ) (s : ClientState) : ℚ × ClientEvent → Prop
  | (now, .respond i outcome _) =>
    ∀ c, s.calls[i]? = some c → c.args.tokenKey = key → now < endsAt → outcome.succeeds = false
  | _ => True

/-- The key is blocked at all times before `endsAt`, or `endsAt` is over. -/
def BlockedUntil (key : String) (endsAt : ℚ) (s : ClientState) : Prop :=
  endsAt ≤ s.clock ∨ ∀ t < endsAt, (PyFloat.fin t).lt (s.limiter.states key).blockedUntil = true

theorem BlockedUntil.step {key : String} {endsAt : ℚ} {e : ℚ × ClientEvent}
    (h : BlockedUntil key endsAt s) (hallowed : NoSuccessBefore key endsAt s e)
    (hstep : client.step s e = some s') : BlockedUntil key endsAt s' := by
  obtain ⟨now, event⟩ := e
  obtain ⟨hnow, hclock, hblock⟩ := step_blockedUntil hstep key
  rcases h with hover | hblocked
  · exact .inl (by rw [hclock]; exact hover.trans hnow)
  · rcases hblock with heq | ⟨seconds, heq⟩ | ⟨i, c, outcome, utcNow, rfl, hc, hkey, hsuccess, -⟩
    · exact .inr fun t ht => by rw [heq]; exact hblocked t ht
    · exact .inr fun t ht => by rw [heq]; exact PyFloat.fin_lt_max_left (hblocked t ht)
    · left
      rw [hclock]
      by_contra hlt
      have := hallowed c hc hkey (not_le.mp hlt)
      simp [this] at hsuccess

/-- The retry-after time of a 429 is respected along every run in which no request of the key
succeeds before it is over, whatever the other requests in flight end with. -/
theorem respectsRetryAfter_of_no_success (client : DonutApiClient) :
    client.RespectsRetryAfter NoSuccessBefore := by
  intro limits clock T utcNow r t s₀ s₁ s₂ s₃ i j call other response events hreach hcall hstatus
    hr hpos h429 hrun hallowed hother hkey ht hacquire
  obtain ⟨-, c, hc, -, rfl⟩ := client.step_respond.mp h429
  obtain rfl : c = call := Option.some.inj (hc.symm.trans hcall)
  have hstart : BlockedUntil c.args.tokenKey (T + r)
      (client.respondStep { s₀ with clock := T } i c (.response response) utcNow) := by
    right
    intro u hu
    simp only [respondStep, handleOutcome_of_429 client T utcNow c.attempt hstatus, hr,
      ClientState.setPhase_limiter, ClientState.setLimit_states_self]
    have hmax : (PyFloat.fin r).max (.fin 0) = .fin r := by
      simp [PyFloat.max, PyFloat.lt, not_lt.mpr hpos.le]
    simp only [TokenLimitState.block, hmax, PyFloat.add_fin_fin]
    exact PyFloat.fin_lt_max_right (blockedUntil_ne_nan hreach _) hu
  have hend := run_invariant_along client.step
    (fun s e s' hs he hstep => BlockedUntil.step hs he hstep) hallowed hrun hstart
  obtain ⟨hclock, d, wakeAt, hd, -, -, rfl⟩ := client.step_tryAcquire.mp hacquire
  obtain rfl : d = other := Option.some.inj (hd.symm.trans hother)
  apply acquireStep_of_blocked
  rcases hend with hover | hblocked
  · exact absurd (hover.trans hclock) (not_le.mpr ht)
  · rw [hkey]
    exact hblocked t ht

/-- Headers that consist of two decimal digits, and no others. -/
def twoDigitHeaders : HeaderParsers where
  float value :=
    match value.toList with
    | [a, b] =>
      if a.isDigit ∧ b.isDigit then some (.fin ((a.toNat - 48) * 10 + (b.toNat - 48) : ℕ))
      else none
    | _ => none
  parsedate _ := .error

/-- Three requests of one token are in flight at the time 0. The first is answered 429 with a
`Retry-After` of 30 at the time 10. The others end with a timeout and with an object that has no
status, neither of which is a success, and a fourth is refused at the time 39. -/
theorem respectsRetryAfter_without_success :
    let client : DonutApiClient := ⟨twoDigitHeaders, 2⟩
    let args : PageArgs := ⟨"token", "fingerprint", 1, "diamond", false⟩
    ∃ s₀ s₁ s₂ s₃,
      run client.step (initial ⟨220, 250, 60, by decide, by decide⟩ 0)
        [(0, .start args), (0, .tryAcquire 0), (0, .start args), (0, .tryAcquire 1),
          (0, .start args), (0, .tryAcquire 2)] = some s₀ ∧
      client.step s₀ (10, .respond 0 (.response ⟨429, some "30", none⟩) 10) = some s₁ ∧
      run client.step s₁ [(11, .respond 1 (.transportError .readTimeout) 11),
        (12, .respond 2 (.response ⟨200, none, some (.object [])⟩) 12), (39, .start args)] =
          some s₂ ∧
      client.step s₂ (39, .tryAcquire 3) = some s₃ ∧ s₃.isInFlight 3 = false := by
  intro client args
  have hrun : ((run client.step (initial ⟨220, 250, 60, by decide, by decide⟩ 0)
        [(0, .start args), (0, .tryAcquire 0), (0, .start args), (0, .tryAcquire 1),
          (0, .start args), (0, .tryAcquire 2)]).bind
      fun s₀ => (client.step s₀ (10, .respond 0 (.response ⟨429, some "30", none⟩) 10)).bind
      fun s₁ => (run client.step s₁ [(11, .respond 1 (.transportError .readTimeout) 11),
        (12, .respond 2 (.response ⟨200, none, some (.object [])⟩) 12), (39, .start args)]).bind
      fun s₂ => (client.step s₂ (39, .tryAcquire 3)).map
      fun _ => ((s₀.calls[0]?).map PageCall.args, (s₂.calls[3]?).map PageCall.args)) =
      some (some args, some args) := by
    decide +kernel
  simp only [Option.bind_eq_some_iff, Option.map_eq_some_iff, Prod.mk.injEq] at hrun
  obtain ⟨s₀, h₀, s₁, h₁, s₂, h₂, s₃, h₃, ⟨call, hcall, hargs⟩, ⟨other, hother, hargs'⟩⟩ := hrun
  refine ⟨s₀, s₁, s₂, s₃, h₀, h₁, h₂, h₃, ?_⟩
  exact respectsRetryAfter_of_no_success client _ 0 10 10 30 39 s₀ s₁ s₂ s₃ 0 3 call other
    ⟨429, some "30", none⟩ _ ⟨_, h₀⟩ hcall rfl (by decide +kernel) (by norm_num) h₁ h₂
    ⟨fun _ _ _ _ => rfl, fun _ _ => ⟨fun _ _ _ _ => rfl, fun _ _ => ⟨trivial, fun _ _ => trivial⟩⟩⟩
    hother (by rw [hargs, hargs']) (by norm_num) h₃

/-- Two requests of one token are in flight at the time 0. The first is answered 429 with a
`Retry-After` of 30 at the time 10, the second succeeds at the time 11, and a third is granted at
the time 12. -/
theorem not_respectsRetryAfter :
    ¬ (⟨twoDigitHeaders, 2⟩ : DonutApiClient).RespectsRetryAfter fun _ _ _ _ => True := by
  intro h
  let args : PageArgs := ⟨"token", "fingerprint", 1, "diamond", false⟩
  let page : HttpOutcome := .response ⟨200, none, some (.object [("status", .int 0)])⟩
  have hrun : ((run (step ⟨twoDigitHeaders, 2⟩)
        (initial ⟨220, 250, 60, by decide, by decide⟩ 0)
        [(0, .start args), (0, .tryAcquire 0), (0, .start args), (0, .tryAcquire 1)]).bind
      fun s₀ => (step ⟨twoDigitHeaders, 2⟩ s₀
        (10, .respond 0 (.response ⟨429, some "30", none⟩) 10)).bind
      fun s₁ => (run (step ⟨twoDigitHeaders, 2⟩) s₁
        [(11, .respond 1 page 11), (12, .start args)]).bind
      fun s₂ => (step ⟨twoDigitHeaders, 2⟩ s₂ (12, .tryAcquire 2)).map
      fun s₃ => ((s₀.calls[0]?).map PageCall.args, (s₂.calls[2]?).map PageCall.args,
        s₃.isInFlight 2)) =
      some (some args, some args, true) := by
    decide +kernel
  simp only [Option.bind_eq_some_iff, Option.map_eq_some_iff, Prod.mk.injEq] at hrun
  obtain ⟨s₀, h₀, s₁, h₁, s₂, h₂, s₃, h₃, ⟨call, hcall, hargs⟩, ⟨other, hother, hargs'⟩, hgrant⟩ :=
    hrun
  have hrefused := h _ 0 10 10 30 12 s₀ s₁ s₂ s₃ 0 2 call other ⟨429, some "30", none⟩ _ ⟨_, h₀⟩
    hcall rfl (by decide +kernel) (by norm_num) h₁ h₂
    ⟨trivial, fun _ _ => ⟨trivial, fun _ _ => trivial⟩⟩ hother (by rw [hargs, hargs'])
    (by norm_num) h₃
  rw [hgrant] at hrefused
  cases hrefused

end DonutApiClient

end DonutMonitor
