import DonutMonitor.Infrastructure.TokenBackoff

/-!
# Blocks without an end

A `Retry-After` header can make the end of a block infinite. Only the success of a request that is
in flight lifts such a block. Without one, no request of the key is granted any more, and a call
that has still to acquire a grant never ends.

## Main definitions

* `ClientState.BlockedForever` — the key is blocked until infinity, and nothing can lift the block.
* `ClientState.NeverEnds` — the call waits for a grant that it never gets.

## Main results

* `DonutApiClient.blockedForever_step`, `DonutApiClient.neverEnds_step` — both last.
-/

namespace DonutMonitor

/-- The end of the sleep of a call. -/
def CallPhase.wakeAt : CallPhase → Option PyFloat
  | acquiring wakeAt | backingOff wakeAt => some wakeAt
  | inFlight | returned _ | raised _ => none

namespace ClientState

/-- The key is blocked until infinity, and no request of the key is in flight whose success would
lift the block. -/
structure BlockedForever (s : ClientState) (key : String) : Prop where
  blockedUntil : (s.limiter.states key).blockedUntil = .posInf
  calls : ∀ (i : ℕ) (c : PageCall), s.calls[i]? = some c → c.args.tokenKey = key →
    c.phase.isInFlight = false

/-- The call sleeps until infinity, or has still to acquire a grant on a key that is blocked for
ever. -/
def NeverEnds (s : ClientState) (c : PageCall) : Prop :=
  ∃ wakeAt, c.phase.wakeAt = some wakeAt ∧
    (wakeAt = .posInf ∨ s.BlockedForever c.args.tokenKey)

end ClientState

namespace DonutApiClient

variable {client : DonutApiClient} {s s' : ClientState} {now : ℚ} {event : ClientEvent}
  {key : String} {i : ℕ} {c : PageCall}

theorem start_isInFlight (args : PageArgs) : (client.start now args).phase.isInFlight = false := by
  rw [start]
  split <;> rfl

/-- Only a call that is awake or in flight moves. -/
theorem active_of_step (hstep : client.step s (now, event) = some s')
    (hevent : event.call = some i) (hc : s.calls[i]? = some c) :
    c.phase = .inFlight ∨ ∃ wakeAt, c.phase.wakeAt = some wakeAt ∧ awake now wakeAt = true := by
  cases event with
  | start args => cases hevent
  | tryAcquire j =>
    obtain rfl := Option.some.inj hevent
    obtain ⟨-, c₀, wakeAt, hc₀, hphase, hawake, -⟩ := client.step_tryAcquire.mp hstep
    obtain rfl := Option.some.inj (hc₀.symm.trans hc)
    exact .inr ⟨wakeAt, by rw [hphase]; rfl, hawake⟩
  | respond j outcome utcNow =>
    obtain rfl := Option.some.inj hevent
    obtain ⟨-, c₀, hc₀, hphase, -⟩ := client.step_respond.mp hstep
    obtain rfl := Option.some.inj (hc₀.symm.trans hc)
    exact .inl hphase
  | nextAttempt j =>
    obtain rfl := Option.some.inj hevent
    obtain ⟨-, c₀, wakeAt, hc₀, hphase, hawake, -⟩ := client.step_nextAttempt.mp hstep
    obtain rfl := Option.some.inj (hc₀.symm.trans hc)
    exact .inr ⟨wakeAt, by rw [hphase]; rfl, hawake⟩

/-- An acquisition on a blocked key leaves the call acquiring. -/
theorem acquireStep_of_blockedUntil
    (h : (PyFloat.fin s.clock).lt (s.limiter.states c.args.tokenKey).blockedUntil = true) :
    ∃ wakeAt, (acquireStep s i c).calls = s.calls.set i { c with phase := .acquiring wakeAt } := by
  simp only [acquireStep]
  rcases (s.limiter.states c.args.tokenKey).tryAcquire_cases s.limiter.limits s.clock
    c.args.interactive with hacquire | ⟨hfree, -, -⟩
  · simp only [hacquire, Bool.false_eq_true, if_false]
    exact ⟨_, rfl⟩
  · rw [h] at hfree
    cases hfree

/-- On a key that is blocked for ever, a call that moves goes to sleep before an acquisition. -/
theorem step_call_of_blockedForever (h : s.BlockedForever key)
    (hstep : client.step s (now, event) = some s') (hc : s.calls[i]? = some c)
    (hkey : c.args.tokenKey = key) : ∃ c', s'.calls[i]? = some c' ∧ c'.args = c.args ∧
      (c' = c ∨ ∃ wakeAt, c'.phase = .acquiring wakeAt) := by
  have hlt := (List.getElem?_eq_some_iff.mp hc).1
  by_cases hevent : event.call = some i
  · cases event with
    | start args => cases hevent
    | tryAcquire j =>
      obtain rfl := Option.some.inj hevent
      obtain ⟨-, c₀, wakeAt, hc₀, -, -, rfl⟩ := client.step_tryAcquire.mp hstep
      obtain rfl := Option.some.inj (hc₀.symm.trans hc)
      have hblocked : (PyFloat.fin now).lt
          (s.limiter.states c₀.args.tokenKey).blockedUntil = true := by
        rw [hkey, h.blockedUntil]
        rfl
      obtain ⟨wakeAt', hcalls⟩ :=
        acquireStep_of_blockedUntil (s := { s with clock := now }) (i := j) hblocked
      exact ⟨{ c₀ with phase := .acquiring wakeAt' }, by rw [hcalls, List.getElem?_set_self hlt],
        rfl, .inr ⟨wakeAt', rfl⟩⟩
    | respond j outcome utcNow =>
      obtain rfl := Option.some.inj hevent
      obtain ⟨-, c₀, hc₀, hphase, -⟩ := client.step_respond.mp hstep
      obtain rfl := Option.some.inj (hc₀.symm.trans hc)
      have hflight := h.calls j c₀ hc hkey
      rw [hphase] at hflight
      cases hflight
    | nextAttempt j =>
      obtain rfl := Option.some.inj hevent
      obtain ⟨-, c₀, wakeAt, hc₀, -, -, rfl⟩ := client.step_nextAttempt.mp hstep
      obtain rfl := Option.some.inj (hc₀.symm.trans hc)
      exact ⟨_, List.getElem?_set_self hlt, rfl, .inr ⟨wakeAt, rfl⟩⟩
  · obtain ⟨c', hc', hargs, hsame⟩ := client.step_call hstep hc
    exact ⟨c', hc', hargs, .inl (hsame hevent)⟩

/-- A block without an end lasts: no request of the key is granted, and none can succeed. -/
theorem blockedForever_step (h : s.BlockedForever key)
    (hstep : client.step s (now, event) = some s') : s'.BlockedForever key := by
  obtain ⟨-, -, hblock⟩ := step_blockedUntil hstep key
  refine ⟨?_, fun i c' hc' hkey => ?_⟩
  · rcases hblock with heq | ⟨seconds, heq⟩ | ⟨i, c, outcome, utcNow, rfl, hc, hkey, -, -⟩
    · rw [heq, h.blockedUntil]
    · rw [heq, TokenLimitState.block, h.blockedUntil, PyFloat.posInf_max]
    · obtain ⟨-, c₀, hc₀, hphase, -⟩ := client.step_respond.mp hstep
      obtain rfl := Option.some.inj (hc₀.symm.trans hc)
      have hflight := h.calls i c₀ hc hkey
      rw [hphase] at hflight
      cases hflight
  · cases hc : s.calls[i]? with
    | none =>
      obtain ⟨args, -, rfl⟩ := client.step_newCall hstep hc hc'
      exact client.start_isInFlight args
    | some c =>
      obtain ⟨c'', hc'', hargs, -⟩ := client.step_call hstep hc
      obtain rfl := Option.some.inj (hc''.symm.trans hc')
      obtain ⟨c', hc', -, hmove⟩ := step_call_of_blockedForever h hstep hc (hargs ▸ hkey)
      obtain rfl := Option.some.inj (hc'.symm.trans hc'')
      rcases hmove with rfl | ⟨wakeAt, hacquiring⟩
      · exact h.calls i _ hc hkey
      · rw [hacquiring]
        rfl

/-- A call that never ends stays one. -/
theorem neverEnds_step (h : s.NeverEnds c) (hstep : client.step s (now, event) = some s')
    (hc : s.calls[i]? = some c) :
    ∃ c', s'.calls[i]? = some c' ∧ c'.args = c.args ∧ s'.NeverEnds c' := by
  obtain ⟨wakeAt, hphase, rfl | hblocked⟩ := h
  · obtain ⟨c', hc', hargs, hsame⟩ := client.step_call hstep hc
    refine ⟨c', hc', hargs, .posInf, ?_, .inl rfl⟩
    rw [hsame fun hevent => ?_]
    · exact hphase
    · rcases active_of_step hstep hevent hc with hflight | ⟨wakeAt, hactive, hawake⟩
      · rw [hflight] at hphase
        cases hphase
      · obtain rfl := Option.some.inj (hactive.symm.trans hphase)
        cases hawake
  · have hblocked' := blockedForever_step hblocked hstep
    obtain ⟨c', hc', hargs, hmove⟩ := step_call_of_blockedForever hblocked hstep hc rfl
    rw [← hargs] at hblocked'
    refine ⟨c', hc', hargs, ?_⟩
    rcases hmove with rfl | ⟨wakeAt', hacquiring⟩
    · exact ⟨wakeAt, hphase, .inr hblocked'⟩
    · exact ⟨wakeAt', by rw [hacquiring]; rfl, .inr hblocked'⟩

/-! ### Calls that end -/

/-- A key that is blocked for ever after a step was so before, if the step did not extend the block
and moved no request of the key that was in flight. -/
theorem of_blockedForever_step (h : s'.BlockedForever key)
    (hstep : client.step s (now, event) = some s')
    (hblocked : (s.limiter.states key).blockedUntil = .posInf)
    (hmoved : ∀ (i : ℕ) (c : PageCall), event.call = some i → s.calls[i]? = some c →
      c.args.tokenKey = key → c.phase.isInFlight = false) : s.BlockedForever key := by
  refine ⟨hblocked, fun i c hc hkey => ?_⟩
  by_cases hevent : event.call = some i
  · exact hmoved i c hevent hc hkey
  · obtain ⟨c', hc', -, hsame⟩ := client.step_call hstep hc
    rw [hsame hevent] at hc'
    exact h.calls i c hc' hkey

/-- The answer to a request that succeeds. -/
def emptyPage : HttpOutcome := .response ⟨200, none, some (.object [("status", .int 0)])⟩

theorem handleOutcome_emptyPage (utcNow : ℚ) (attempt : ℕ) (state : TokenLimitState) :
    client.handleOutcome now utcNow attempt emptyPage state =
      (.returned [("status", .int 0)], state.recordSuccess) := rfl

/-- A request in flight can succeed, which lifts the block of its key. -/
theorem exists_returned (hc : s.calls[i]? = some c) (hphase : c.phase = .inFlight)
    (hnow : s.clock ≤ now) :
    ∃ s' c' payload, client.step s (now, .respond i emptyPage 0) = some s' ∧
      s'.calls[i]? = some c' ∧ c'.args = c.args ∧ c'.phase = .returned payload ∧
      (s'.limiter.states c.args.tokenKey).blockedUntil = .fin 0 ∧
      ∀ key, s'.BlockedForever key → s.BlockedForever key := by
  have hlt := (List.getElem?_eq_some_iff.mp hc).1
  have hstep : client.step s (now, .respond i emptyPage 0) =
      some (client.respondStep { s with clock := now } i c emptyPage 0) :=
    client.step_respond.mpr ⟨hnow, c, hc, hphase, rfl⟩
  have hfree : ((client.respondStep { s with clock := now } i c emptyPage 0).limiter.states
      c.args.tokenKey).blockedUntil = .fin 0 := by
    simp [respondStep, handleOutcome_emptyPage, TokenLimitState.recordSuccess]
  refine ⟨_, { c with phase := .returned [("status", .int 0)] }, [("status", .int 0)], hstep,
    List.getElem?_set_self hlt, rfl, rfl, hfree, fun key hkey => ?_⟩
  have hne : key ≠ c.args.tokenKey := by
    rintro rfl
    cases hfree.symm.trans hkey.blockedUntil
  refine of_blockedForever_step hkey hstep ?_ fun j c' hj hc' hkey' => ?_
  · have hblocked := hkey.blockedUntil
    rwa [respondStep, ClientState.setPhase_limiter, ClientState.setLimit_states_of_ne hne]
      at hblocked
  · obtain rfl := Option.some.inj hj
    obtain rfl := Option.some.inj (hc'.symm.trans hc)
    exact absurd hkey'.symm hne

/-- A call that does not sleep until infinity goes on to its next attempt. -/
theorem exists_acquiring {wakeAt : PyFloat} (hc : s.calls[i]? = some c)
    (hphase : c.phase = .backingOff wakeAt) (hwake : wakeAt ≠ .posInf) :
    ∃ t, ∀ now, t ≤ now → s.clock ≤ now → ∃ s' c', client.step s (now, .nextAttempt i) = some s' ∧
      s'.calls[i]? = some c' ∧ c'.args = c.args ∧ c'.phase = .acquiring wakeAt ∧
      s'.limiter = s.limiter ∧ ∀ key, s'.BlockedForever key → s.BlockedForever key := by
  obtain ⟨t, ht⟩ := PyFloat.exists_lt_eq_false hwake
  refine ⟨t, fun now hnow hclock => ?_⟩
  have hawake : awake now wakeAt = true := by simp [awake, ht now hnow]
  have hstep := client.step_nextAttempt.mpr ⟨hclock, c, wakeAt, hc, hphase, hawake, rfl⟩
  refine ⟨_, _, hstep, List.getElem?_set_self (List.getElem?_eq_some_iff.mp hc).1, rfl, rfl, rfl,
    fun key hkey => of_blockedForever_step hkey hstep hkey.blockedUntil fun j c' hj hc' _ => ?_⟩
  obtain rfl := Option.some.inj hj
  obtain rfl := Option.some.inj (hc'.symm.trans hc)
  rw [hphase]
  rfl

/-- A call that does not sleep until infinity gets its grant on a key that is not blocked until
infinity. -/
theorem exists_inFlight {wakeAt : PyFloat} (hc : s.calls[i]? = some c)
    (hphase : c.phase = .acquiring wakeAt) (hwake : wakeAt ≠ .posInf)
    (hfree : (s.limiter.states c.args.tokenKey).blockedUntil ≠ .posInf) :
    ∃ t, ∀ now, t ≤ now → s.clock ≤ now → ∃ s' c', client.step s (now, .tryAcquire i) = some s' ∧
      s'.calls[i]? = some c' ∧ c'.args = c.args ∧ c'.phase = .inFlight ∧
      ∀ key, s'.BlockedForever key → s.BlockedForever key := by
  obtain ⟨t, ht⟩ := PyFloat.exists_lt_eq_false hwake
  obtain ⟨u, hu⟩ :=
    TokenLimitState.exists_tryAcquire s.limiter.limits c.args.interactive _ hfree
  refine ⟨max t u, fun now hnow hclock => ?_⟩
  have hawake : awake now wakeAt = true := by simp [awake, ht now (le_of_max_le_left hnow)]
  have hgrant := hu now (le_of_max_le_right hnow)
  have hstep := client.step_tryAcquire.mpr ⟨hclock, c, wakeAt, hc, hphase, hawake, rfl⟩
  have hcalls : (acquireStep { s with clock := now } i c).calls =
      s.calls.set i { c with phase := .inFlight } := by
    simp only [acquireStep, hgrant, if_true]
    rfl
  refine ⟨_, { c with phase := .inFlight }, hstep, ?_, rfl, rfl, fun key hkey => ?_⟩
  · rw [hcalls, List.getElem?_set_self (List.getElem?_eq_some_iff.mp hc).1]
  · have hblocked := hkey.blockedUntil
    rw [acquireStep_blockedUntil] at hblocked
    refine of_blockedForever_step hkey hstep hblocked fun j c' hj hc' _ => ?_
    obtain rfl := Option.some.inj hj
    obtain rfl := Option.some.inj (hc'.symm.trans hc)
    rw [hphase]
    rfl

end DonutApiClient

end DonutMonitor
