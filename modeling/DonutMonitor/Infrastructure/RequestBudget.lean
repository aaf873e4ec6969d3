import DonutMonitor.Foundations.SlidingWindow
import DonutMonitor.Infrastructure.RateLimiter

/-!
# The request budget holds in every window

The queue of a key forgets old grants, at moments that depend on which methods are called. What
it keeps suffices: at every clock reading it holds all grants less than a window old
(`SlidingWindow.Retains`). Each grant therefore finds fewer than its limit of grants in the window
that ends with it, and the grants of a key form an admission log, whose bound holds in windows
that end anywhere.

## Main results

* `PerTokenRateLimiter.grants_admitted` — the grants of a key form an admission log, for the hard
  limit and for the monitoring limit.
* `PerTokenRateLimiter.trace_filter_key` — the calls on other keys can be left out.
* `PerTokenRateLimiter.grants_bounded` — at most `hardLimit` grants in every window, at most
  `monitoringLimit` of them monitoring grants.
-/

open SlidingWindow

namespace DonutMonitor

/-- A granted acquisition on some key. -/
structure Grant where
  time : ℚ
  interactive : Bool
  deriving DecidableEq, Repr

namespace PerTokenRateLimiter

/-- The grant that an answered call makes on `key`. -/
def grant? (key : String) : TimedCall × LimiterAnswer → Option Grant
  | (⟨now, k, .tryAcquire interactive⟩, .acquired true) =>
    if k = key then some ⟨now, interactive⟩ else none
  | _ => none

/-- The grants on `key` along a trace, in order. -/
def grants (key : String) (trace : List (TimedCall × LimiterAnswer)) : List Grant :=
  trace.filterMap (grant? key)

theorem perform_limits (l : PerTokenRateLimiter) (c : TimedCall) :
    (l.perform c).2.limits = l.limits := rfl

theorem perform_states_self (l : PerTokenRateLimiter) (c : TimedCall) :
    (l.perform c).2.states c.key = ((l.states c.key).perform l.limits c.now c.call).2 := by
  simp [perform]

theorem perform_states_of_ne (l : PerTokenRateLimiter) {c : TimedCall} {key : String}
    (hkey : key ≠ c.key) : (l.perform c).2.states key = l.states key := by
  simp [perform, setState_states_of_ne l _ hkey]

theorem grant?_eq_none_of_ne {key : String} {c : TimedCall} (hkey : key ≠ c.key)
    (answer : LimiterAnswer) : grant? key (c, answer) = none := by
  unfold grant?
  split
  · rename_i heq
    rw [Prod.mk.injEq] at heq
    rw [if_neg]
    rintro rfl
    exact hkey (by rw [heq.1])
  · rfl

theorem grant?_eq_none_of_not_acquired {key : String} {c : TimedCall} {answer : LimiterAnswer}
    (hanswer : answer ≠ .acquired true) : grant? key (c, answer) = none := by
  unfold grant?
  split
  · rename_i heq
    exact absurd (congrArg Prod.snd heq) hanswer
  · rfl

/-- A call on the key of a retaining queue: the queue stays retaining, with the grant recorded if
the call makes one, and a grant finds fewer than its limit of grants in the window it ends. -/
theorem perform_retains (l : PerTokenRateLimiter) (c : TimedCall) {t : ℚ} {log : List Grant}
    (h : Retains l.limits.windowSeconds Grant.time t log (l.states c.key).requests)
    (ht : t ≤ c.now) :
    Retains l.limits.windowSeconds Grant.time c.now
      ((grant? c.key (c, (l.perform c).1)).toList ++ log)
      ((l.perform c).2.states c.key).requests ∧
    ∀ g ∈ grant? c.key (c, (l.perform c).1), g.time = c.now ∧
      (log.countP fun y => c.now - l.limits.windowSeconds < y.time : ℤ) <
        l.limits.limit g.interactive := by
  obtain ⟨now, key, call⟩ := c
  have hpruned := h.expire ht
  rw [perform_states_self]
  rcases (l.states key).perform_requests l.limits now call with
    ⟨interactive, rfl, hanswer, hroom, hqueue⟩ | ⟨hanswer, hqueue⟩
  · have hgrant : grant? key (⟨now, key, .tryAcquire interactive⟩, (l.perform
        ⟨now, key, .tryAcquire interactive⟩).1) = some ⟨now, interactive⟩ := by
      simp [perform, hanswer, grant?]
    rw [hgrant]
    refine ⟨?_, ?_⟩
    · rw [hqueue]
      exact hpruned.push (x := (⟨now, interactive⟩ : Grant)) rfl
    · rintro g ⟨⟩
      have hle := hpruned.countP_le_length
      exact ⟨rfl, lt_of_le_of_lt (by exact_mod_cast hle) hroom⟩
  · rw [grant?_eq_none_of_not_acquired (by simpa [perform] using hanswer)]
    refine ⟨?_, by simp⟩
    rcases hqueue with hqueue | hqueue <;> rw [hqueue]
    · exact h.mono ht
    · exact hpruned

/-- The grants of a key along a trace, most recent first, form an admission log for every class
`p` of grants and every limit that its members observe. -/
theorem grants_admitted (l : PerTokenRateLimiter) (key : String) (p : Grant → Prop) {limit : ℤ}
    (hp : ∀ g, p g → l.limits.limit g.interactive ≤ limit) {calls : List TimedCall} {t : ℚ}
    {log : List Grant}
    (hretains : Retains l.limits.windowSeconds Grant.time t log (l.states key).requests)
    (hlog : Admitted l.limits.windowSeconds Grant.time p limit log)
    (hclock : (calls.map TimedCall.now).Pairwise (· ≤ ·)) (ht : ∀ c ∈ calls, t ≤ c.now) :
    Admitted l.limits.windowSeconds Grant.time p limit
      ((grants key (l.trace calls)).reverse ++ log) := by
  induction calls generalizing l t log with
  | nil => simpa [trace, grants] using hlog
  | cons c calls ih =>
    obtain ⟨hfirst, hrest⟩ := List.pairwise_cons.mp hclock
    have hnow : t ≤ c.now := ht c List.mem_cons_self
    have hlater : ∀ d ∈ calls, c.now ≤ d.now := fun d hd =>
      hfirst d.now (List.mem_map_of_mem hd)
    by_cases hkey : key = c.key
    · subst hkey
      obtain ⟨hretains', hroom⟩ := l.perform_retains c hretains hnow
      have hlog' : Admitted l.limits.windowSeconds Grant.time p limit
          ((grant? c.key (c, (l.perform c).1)).toList ++ log) := by
        cases hg : grant? c.key (c, (l.perform c).1) with
        | none => exact hlog
        | some g =>
          obtain ⟨htime, hcount⟩ := hroom g hg
          refine ⟨fun hpg => ?_, hlog⟩
          rw [htime]
          exact hcount.trans_le (hp g hpg)
      have htail := ih (l.perform c).2 hp hretains' hlog' hrest hlater
      rw [perform_limits] at htail
      cases hg : grant? c.key (c, (l.perform c).1) <;>
        simpa [trace, grants, List.filterMap_cons, hg] using htail
    · have hnone := grant?_eq_none_of_ne hkey (l.perform c).1
      have hretains' : Retains l.limits.windowSeconds Grant.time c.now log
          ((l.perform c).2.states key).requests := by
        rw [l.perform_states_of_ne hkey]
        exact hretains.mono hnow
      have htail := ih (l.perform c).2 hp hretains' hlog hrest hlater
      simpa [trace, grants, List.filterMap_cons, hnone, perform_limits] using htail

/-- The answers on a key are those of a limiter that sees only the calls on that key. -/
theorem trace_filter_key {l l' : PerTokenRateLimiter} (hlimits : l.limits = l'.limits)
    {key : String} (hstate : l.states key = l'.states key) (calls : List TimedCall) :
    (l.trace calls).filter (fun entry => entry.1.key = key) =
      l'.trace (calls.filter fun c => c.key = key) := by
  induction calls generalizing l l' with
  | nil => rfl
  | cons c calls ih =>
    by_cases hkey : c.key = key
    · subst hkey
      have hsame : (l.perform c).1 = (l'.perform c).1 := by simp [perform, hlimits, hstate]
      have hnext : (l.perform c).2.states c.key = (l'.perform c).2.states c.key := by
        simp [perform_states_self, hlimits, hstate]
      have htail := @ih (l.perform c).2 (l'.perform c).2 hlimits hnext
      simp [trace, hsame, htail]
    · have hnext : (l.perform c).2.states key = l'.states key := by
        rw [l.perform_states_of_ne fun h => hkey h.symm, hstate]
      have htail := @ih (l.perform c).2 l' hlimits hnext
      simp [trace, hkey, htail]

/-- The grants of a key of a new limiter form an admission log. -/
theorem new_grants_admitted (limits : RateLimits) (key : String) (p : Grant → Prop)
    {limit : ℤ} (hp : ∀ g, p g → limits.limit g.interactive ≤ limit) {calls : List TimedCall}
    (hclock : (calls.map TimedCall.now).Pairwise (· ≤ ·)) :
    Admitted limits.windowSeconds Grant.time p limit
      (grants key ((new limits).trace calls)).reverse := by
  cases calls with
  | nil => trivial
  | cons c calls =>
    have hfirst : ∀ d ∈ c :: calls, c.now ≤ d.now := by
      rintro d (_ | ⟨_, hd⟩)
      · exact le_rfl
      · exact List.rel_of_pairwise_cons hclock (List.mem_map_of_mem hd)
    simpa using (new limits).grants_admitted key p hp (t := c.now) Retains.nil trivial hclock hfirst

/-- Along every sequence of calls under a non-decreasing clock, a key gets at most `hardLimit`
grants in every half-open window, at most `monitoringLimit` of them monitoring grants; its
answers do not depend on the calls on other keys. With validated settings the limits are
`safe_requests_per_minute` and at most 250. -/
theorem grants_bounded (limits : RateLimits) (calls : List TimedCall)
    (hclock : (calls.map TimedCall.now).Pairwise (· ≤ ·)) (key : String) :
    (∀ a : ℚ,
      ((grants key ((new limits).trace calls)).countP fun g =>
        a < g.time ∧ g.time ≤ a + limits.windowSeconds : ℤ) ≤ limits.hardLimit ∧
      ((grants key ((new limits).trace calls)).countP fun g =>
        g.interactive = false ∧ a < g.time ∧ g.time ≤ a + limits.windowSeconds : ℤ) ≤
          limits.monitoringLimit) ∧
    ((new limits).trace calls).filter (fun entry => entry.1.key = key) =
      (new limits).trace (calls.filter fun c => c.key = key) ∧
    ∀ settings : Settings,
      RateLimits.create settings.safeRequestsPerMinute
        (settings.safeRequestsPerMinute + settings.reservedRequestsPerMinute) 60 =
          .ok settings.rateLimits ∧
      settings.rateLimits.hardLimit ≤ 250 := by
  have hmonitoring := limits.monitoringLimit_pos
  have hhard := limits.monitoringLimit_le
  refine ⟨fun a => ⟨?_, ?_⟩, trace_filter_key rfl rfl calls, fun settings =>
    ⟨settings.create_rateLimits, settings.apiBudget⟩⟩
  · have hlog := new_grants_admitted limits key (fun _ => True)
      (fun g _ => limits.limit_le_hardLimit g.interactive) hclock
    simpa using hlog.countP_window_le (by omega) a
  · have hclass : ∀ g : Grant, g.interactive = false →
        limits.limit g.interactive ≤ limits.monitoringLimit := fun g hg => by
      simp [RateLimits.limit, hg]
    have hlog := new_grants_admitted limits key _ hclass hclock
    simpa using hlog.countP_window_le (by omega) a

/-- Two monitoring requests, an interactive one in the reserve and one after the window. -/
theorem grants_bounded_reserve :
    ((grants "alice" ((new ⟨2, 3, 60, by decide, by decide⟩).trace
      [⟨0, "alice", .tryAcquire false⟩, ⟨0, "alice", .tryAcquire false⟩,
        ⟨1, "alice", .tryAcquire true⟩, ⟨61, "alice", .tryAcquire false⟩])).countP fun g =>
          0 < g.time ∧ g.time ≤ 0 + 60 : ℤ) ≤ 3 :=
  ((grants_bounded ⟨2, 3, 60, by decide, by decide⟩
    [⟨0, "alice", .tryAcquire false⟩, ⟨0, "alice", .tryAcquire false⟩,
      ⟨1, "alice", .tryAcquire true⟩, ⟨61, "alice", .tryAcquire false⟩]
    (by decide) "alice").1 0).1

end PerTokenRateLimiter

end DonutMonitor
