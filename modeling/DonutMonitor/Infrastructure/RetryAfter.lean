import DonutMonitor.Infrastructure.TokenBackoff

/-!
# The blocks that `Retry-After` headers order

The header passes through `float` and, where that fails, through the date parser; a clamp at zero
follows, another one in `block`, and the later of two ends is kept.  Finite numbers, dates and
everything that is neither end in a finite block.  The two floats that the clamps do not stop are
`inf`, which blocks the key for ever, and `nan`, which is unordered and leaves the block as it was.

## Main definitions

* `HeaderParsers.IsFinite` — the header is not read as one of these two.
* `DonutApiClient.RateLimited` — the answer to a 429 and its finite block.

## Main results

* `parseRetryAfter_eq_fin_iff` — the headers that are parsed to a finite delay.
* `DonutApiClient.rateLimited_iff` — a 429 is answered with a finite block if and only if its
  header is finite.
-/

namespace DonutMonitor

/-- The header is absent, empty, not accepted by `float`, or read as a number or as `-inf`. -/
def HeaderParsers.IsFinite (parsers : HeaderParsers) (header : Option String) : Prop :=
  ∀ value, header = some value → value ≠ "" →
    parsers.float value ≠ some .nan ∧ parsers.float value ≠ some .posInf

/-- The headers that are parsed to a finite delay, which is not negative. -/
theorem parseRetryAfter_eq_fin_iff (parsers : HeaderParsers) (utcNow : ℚ)
    (header : Option String) :
    (∃ r : ℚ, 0 ≤ r ∧ parseRetryAfter parsers utcNow header = .fin r) ↔
      parsers.IsFinite header := by
  have hone : ∃ r : ℚ, 0 ≤ r ∧ PyFloat.fin 1 = .fin r := ⟨1, zero_le_one, rfl⟩
  cases header with
  | none => exact iff_of_true hone fun value h => by cases h
  | some value =>
    by_cases hempty : value = ""
    · subst hempty
      refine iff_of_true ?_ fun value h hne => absurd (Option.some.inj h).symm hne
      rwa [parseRetryAfter, if_pos rfl]
    · have hfinite : parsers.IsFinite (some value) ↔
          parsers.float value ≠ some .nan ∧ parsers.float value ≠ some .posInf :=
        ⟨fun h => h value rfl hempty, fun h v hv _ => by rwa [← Option.some.inj hv]⟩
      rw [hfinite, parseRetryAfter, if_neg hempty]
      cases hfloat : parsers.float value with
      | none =>
        refine iff_of_true ?_ (by simp)
        cases parsers.parsedate value with
        | aware timestamp =>
          exact ⟨max (timestamp - utcNow) 0, le_max_right _ _, PyFloat.fin_max_fin _ _⟩
        | naive => exact hone
        | error => exact hone
      | some seconds =>
        cases seconds with
        | fin seconds =>
          exact iff_of_true ⟨max seconds 0, le_max_right _ _, PyFloat.fin_max_fin _ _⟩ (by simp)
        | negInf => exact iff_of_true ⟨0, le_rfl, rfl⟩ (by simp)
        | posInf => exact iff_of_false (by simp [PyFloat.max, PyFloat.lt]) (by simp)
        | nan => exact iff_of_false (by simp [PyFloat.max, PyFloat.lt]) (by simp)

namespace DonutApiClient

variable {client : DonutApiClient}

/-- The call `i` has raised `DonutRateLimitError` with a finite `retry_after`, and the block of its
key, which ended at `b`, now ends that long after `T`, or at `b` if that is later. -/
def RateLimited (s : ClientState) (i : ℕ) (key : String) (T b : ℚ) : Prop :=
  ∃ r : ℚ, 0 ≤ r ∧
    (s.calls[i]?).map PageCall.phase = some (.raised (.api (.rateLimit (.fin r)))) ∧
    (s.limiter.states key).blockedUntil = .fin (max b (T + r))

/-- A 429 at the time `T`, on a key whose block ends at a finite time, is answered with a finite
block if and only if its header is finite. -/
theorem rateLimited_iff {s s' : ClientState} {T utcNow b : ℚ} {i : ℕ} {c : PageCall}
    {response : HttpResponse} (hc : s.calls[i]? = some c) (hstatus : response.statusCode = 429)
    (hb : (s.limiter.states c.args.tokenKey).blockedUntil = .fin b)
    (hstep : client.step s (T, .respond i (.response response) utcNow) = some s') :
    RateLimited s' i c.args.tokenKey T b ↔ client.parsers.IsFinite response.retryAfter := by
  obtain ⟨-, c₀, hc₀, -, rfl⟩ := client.step_respond.mp hstep
  obtain rfl := Option.some.inj (hc₀.symm.trans hc)
  have hphase : ((client.respondStep { s with clock := T } i c₀ (.response response)
      utcNow).calls[i]?).map PageCall.phase = some (.raised (.api (.rateLimit
        (parseRetryAfter client.parsers utcNow response.retryAfter)))) := by
    simp [respondStep, handleOutcome_of_429 client T utcNow c₀.attempt hstatus,
      ClientState.setPhase, List.getElem?_set_self (List.getElem?_eq_some_iff.mp hc).1]
  have hblock : ((client.respondStep { s with clock := T } i c₀ (.response response)
      utcNow).limiter.states c₀.args.tokenKey).blockedUntil =
        (PyFloat.fin b).max ((PyFloat.fin T).add
          ((parseRetryAfter client.parsers utcNow response.retryAfter).max (.fin 0))) := by
    simp [respondStep, handleOutcome_of_429 client T utcNow c₀.attempt hstatus,
      TokenLimitState.block, hb]
  rw [RateLimited, hphase, hblock, ← parseRetryAfter_eq_fin_iff client.parsers utcNow]
  constructor
  · rintro ⟨r, hr, hraised, -⟩
    exact ⟨r, hr, by simpa using hraised⟩
  · rintro ⟨r, hr, hparsed⟩
    refine ⟨r, hr, by rw [hparsed], ?_⟩
    rw [hparsed, PyFloat.fin_max_fin, max_eq_left hr, PyFloat.add_fin_fin, PyFloat.fin_max_fin]

/-- A 429 with a `Retry-After` of 30, at the time 10. -/
theorem rateLimited_iff_thirty :
    let c : PageCall := { args := ⟨"token", "alice", 1, "diamond", false⟩, phase := .inFlight }
    let s : ClientState := ⟨0, .new ⟨220, 250, 60, by decide, by decide⟩, [c]⟩
    let answer : HttpOutcome := .response ⟨429, some "30", none⟩
    RateLimited (respondStep ⟨twoDigitHeaders, 2⟩ { s with clock := 10 } 0 c answer 0) 0 "alice"
        10 0 ↔ twoDigitHeaders.IsFinite (some "30") := by
  intro c s answer
  have hstep : step ⟨twoDigitHeaders, 2⟩ s (10, .respond 0 answer 0) =
      some (respondStep ⟨twoDigitHeaders, 2⟩ { s with clock := 10 } 0 c answer 0) :=
    (step_respond _).mpr ⟨by decide, c, rfl, rfl, rfl⟩
  exact rateLimited_iff (c := c) rfl rfl rfl hstep

/-- Headers that are the names of special floats. -/
def specialHeaders : HeaderParsers where
  float value :=
    if value = "inf" then some .posInf
    else if value = "nan" then some .nan
    else none
  parsedate _ := .error

/-- The header `inf` blocks the key for ever, and `nan` does not block it. -/
theorem not_rateLimited :
    let c : PageCall := { args := ⟨"token", "alice", 1, "diamond", false⟩, phase := .inFlight }
    let s : ClientState := ⟨10, .new ⟨220, 250, 60, by decide, by decide⟩, [c]⟩
    let blocked (header : String) : ClientState :=
      respondStep ⟨specialHeaders, 2⟩ s 0 c (.response ⟨429, some header, none⟩) 0
    ¬ RateLimited (blocked "inf") 0 "alice" 10 0 ∧ ¬ RateLimited (blocked "nan") 0 "alice" 10 0 ∧
      ((blocked "inf").limiter.states "alice").blockedUntil = .posInf ∧
      ((blocked "nan").limiter.states "alice").blockedUntil = .fin 0 := by
  intro c s blocked
  have hinf : ((blocked "inf").limiter.states "alice").blockedUntil = .posInf := by decide +kernel
  have hnan : ((blocked "nan").limiter.states "alice").blockedUntil = .fin 0 := by decide +kernel
  refine ⟨fun ⟨r, _, _, hblock⟩ => ?_, fun ⟨r, hr, _, hblock⟩ => ?_, hinf, hnan⟩
  · cases hinf.symm.trans hblock
  · have hend : (0 : ℚ) = max 0 (10 + r) := PyFloat.fin.inj (hnan.symm.trans hblock)
    linarith [le_max_right 0 (10 + r)]

end DonutApiClient

end DonutMonitor
