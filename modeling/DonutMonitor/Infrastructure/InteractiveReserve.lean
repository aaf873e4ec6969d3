import DonutMonitor.Infrastructure.RequestBudget

/-!
# The reserve for interactive requests

The queue of a key does not say which requests were interactive.  It is the end of the list of
all grants of the key, so that after pruning it lies in the window that ends now, and at most
`monitoringLimit` of the grants in that window are monitoring grants.  A queue that refuses an
interactive request therefore holds a full reserve of interactive grants.

## Main results

* `PerTokenRateLimiter.requests_suffix` — the queue of a key ends the list of its grants.
* `TokenLimitState.prune_requests` — what pruning leaves in a sorted queue.
* `PerTokenRateLimiter.reserve_available` — an interactive request on a key that is not blocked is
  refused only if the interactive grants of the window have used up the reserve.
-/

namespace DonutMonitor

namespace PerTokenRateLimiter

/-- The limiter after a sequence of calls. -/
def after (l : PerTokenRateLimiter) (calls : List TimedCall) : PerTokenRateLimiter :=
  calls.foldl (fun l c => (l.perform c).2) l

@[simp] theorem after_nil (l : PerTokenRateLimiter) : l.after [] = l := rfl

@[simp] theorem after_cons (l : PerTokenRateLimiter) (c : TimedCall) (calls : List TimedCall) :
    l.after (c :: calls) = (l.perform c).2.after calls := rfl

@[simp] theorem after_limits (l : PerTokenRateLimiter) (calls : List TimedCall) :
    (l.after calls).limits = l.limits := by
  induction calls generalizing l with
  | nil => rfl
  | cons c calls ih => rw [after_cons, ih, perform_limits]

end PerTokenRateLimiter

namespace TokenLimitState

variable {limits : RateLimits} {now : ℚ} {s : TokenLimitState}

theorem prune_suffix (limits : RateLimits) (now : ℚ) (s : TokenLimitState) :
    (s.prune limits now).requests <:+ s.requests := List.dropWhile_suffix _

/-- Pruning a sorted queue leaves the requests of the window that ends now. -/
theorem prune_requests (hs : s.requests.Pairwise (· ≤ ·)) :
    (s.prune limits now).requests =
      s.requests.filter fun t => now - limits.windowSeconds < t :=
  SlidingWindow.dropWhile_eq_filter hs _

/-- An acquisition on a key that is not blocked, with room in the pruned queue, is granted. -/
theorem tryAcquire_granted {interactive : Bool}
    (hblocked : (PyFloat.fin now).lt s.blockedUntil = false)
    (hroom : ((s.prune limits now).requests.length : ℤ) < limits.limit interactive) :
    s.tryAcquire limits now interactive =
      (true, { s with requests := (s.prune limits now).requests ++ [now] }) :=
  if_neg (by simp [hblocked, hroom])

end TokenLimitState

namespace PerTokenRateLimiter

/-- A call on the key of a queue that ends a list of times: the queue still ends it, with the time
of the grant if the call makes one. -/
private theorem perform_suffix (l : PerTokenRateLimiter) (c : TimedCall) {times : List ℚ}
    (h : (l.states c.key).requests <:+ times) :
    ((l.perform c).2.states c.key).requests <:+
        times ++ (grant? c.key (c, (l.perform c).1)).toList.map Grant.time ∧
      ∀ g ∈ grant? c.key (c, (l.perform c).1), g.time = c.now := by
  obtain ⟨now, key, call⟩ := c
  have hpruned := ((l.states key).prune_suffix l.limits now).trans h
  rw [perform_states_self]
  rcases (l.states key).perform_requests l.limits now call with
    ⟨interactive, rfl, hanswer, -, hqueue⟩ | ⟨hanswer, hqueue⟩
  · have hgrant : grant? key (⟨now, key, .tryAcquire interactive⟩, (l.perform
        ⟨now, key, .tryAcquire interactive⟩).1) = some ⟨now, interactive⟩ := by
      simp [perform, hanswer, grant?]
    rw [hqueue, hgrant]
    refine ⟨List.suffix_append_self_iff.mpr hpruned, ?_⟩
    rintro g ⟨⟩
    rfl
  · rw [grant?_eq_none_of_not_acquired (by simpa [perform] using hanswer)]
    refine ⟨?_, by simp⟩
    rw [Option.toList_none, List.map_nil, List.append_nil]
    rcases hqueue with hqueue | hqueue <;> rw [hqueue]
    · exact h
    · exact hpruned

/-- The queue of a key ends the list of its grants, which are made at the clock readings of the
calls. -/
theorem requests_suffix (l : PerTokenRateLimiter) (calls : List TimedCall) (key : String)
    {times : List ℚ} (h : (l.states key).requests <:+ times) :
    ((l.after calls).states key).requests <:+
        times ++ (grants key (l.trace calls)).map Grant.time ∧
      ((grants key (l.trace calls)).map Grant.time).Sublist (calls.map TimedCall.now) := by
  induction calls generalizing l times with
  | nil => simpa [trace, grants] using h
  | cons c calls ih =>
    by_cases hkey : key = c.key
    · subst hkey
      obtain ⟨hqueue, htime⟩ := l.perform_suffix c h
      obtain ⟨hrest, hsub⟩ := ih (l.perform c).2 hqueue
      rw [List.append_assoc] at hrest
      cases hg : grant? c.key (c, (l.perform c).1) with
      | none =>
        rw [hg] at hrest
        rw [Option.toList_none, List.map_nil, List.nil_append] at hrest
        simp only [trace, grants, List.filterMap_cons, hg]
        exact ⟨hrest, hsub.cons _⟩
      | some g =>
        rw [hg] at hrest
        simp only [trace, grants, List.filterMap_cons, hg, List.map_cons, htime g hg]
        rw [Option.toList_some, List.map_singleton, htime g hg] at hrest
        exact ⟨hrest, hsub.cons_cons _⟩
    · have hnone := grant?_eq_none_of_ne hkey (l.perform c).1
      have hsame : ((l.perform c).2.states key).requests <:+ times := by
        rw [l.perform_states_of_ne hkey]
        exact h
      obtain ⟨hrest, hsub⟩ := ih (l.perform c).2 hsame
      simp only [trace, grants, List.filterMap_cons, hnone]
      exact ⟨hrest, hsub.cons _⟩

/-- After calls under a non-decreasing clock the queue of a key is sorted, and the clock has
passed its entries and the grants of the key. -/
theorem requests_sorted (limits : RateLimits) {calls : List TimedCall} {now : ℚ}
    (hclock : (calls.map TimedCall.now ++ [now]).Pairwise (· ≤ ·)) (key : String) :
    (((new limits).after calls).states key).requests.Pairwise (· ≤ ·) ∧
      (∀ t ∈ (((new limits).after calls).states key).requests, t ≤ now) ∧
      ∀ g ∈ grants key ((new limits).trace calls), g.time ≤ now := by
  obtain ⟨hsuffix, hsub⟩ := (new limits).requests_suffix calls key (List.suffix_refl [])
  rw [List.nil_append] at hsuffix
  obtain ⟨hsorted, -, hlast⟩ := List.pairwise_append.mp hclock
  have hle : ∀ t ∈ (grants key ((new limits).trace calls)).map Grant.time, t ≤ now := fun t ht =>
    hlast t (hsub.subset ht) now (by simp)
  exact ⟨(hsorted.sublist hsub).sublist hsuffix.sublist, fun t ht => hle t (hsuffix.subset ht),
    fun g hg => hle g.time (List.mem_map_of_mem hg)⟩

/-- Entries of two kinds are counted apart. -/
private theorem countP_le_add {α : Type*} {p q r : α → Bool} {l : List α}
    (h : ∀ x ∈ l, p x = true → q x = true ∨ r x = true) :
    l.countP p ≤ l.countP q + l.countP r := by
  induction l with
  | nil => simp
  | cons x l ih =>
    have hrest := ih fun y hy => h y (List.mem_cons_of_mem x hy)
    have hx := h x List.mem_cons_self
    simp only [List.countP_cons]
    grind

/-- The grants of a window that has reached the hard limit are, but for at most `monitoringLimit`,
interactive ones. -/
private theorem interactive_countP (limits : RateLimits) {calls : List TimedCall} {now : ℚ}
    (hclock : (calls.map TimedCall.now ++ [now]).Pairwise (· ≤ ·)) (key : String)
    (hfull : limits.hardLimit ≤ ((grants key ((new limits).trace calls)).countP fun g =>
      now - limits.windowSeconds < g.time : ℤ)) :
    limits.hardLimit - limits.monitoringLimit ≤
      ((grants key ((new limits).trace calls)).countP fun g =>
        g.interactive = true ∧ now - limits.windowSeconds < g.time ∧ g.time ≤ now : ℤ) := by
  have hmonitoring := limits.monitoringLimit_pos
  have hclass : ∀ g : Grant, g.interactive = false →
      limits.limit g.interactive ≤ limits.monitoringLimit := fun g hg => by
    simp [RateLimits.limit, hg]
  have hlog := new_grants_admitted limits key _ hclass (List.pairwise_append.mp hclock).1
  have hbound := hlog.countP_window_le (by omega) (now - limits.windowSeconds)
  rw [sub_add_cancel, List.countP_reverse] at hbound
  have hle := (requests_sorted limits hclock key).2.2
  have hclasses := countP_le_add (p := fun g => decide (now - limits.windowSeconds < g.time))
    (q := fun g => decide (g.interactive = true ∧ now - limits.windowSeconds < g.time ∧
      g.time ≤ now))
    (r := fun g => decide (g.interactive = false ∧ now - limits.windowSeconds < g.time ∧
      g.time ≤ now)) (l := grants key ((new limits).trace calls)) fun g hg hnow => by
    cases hclass : g.interactive <;> simp_all
  omega

/-- Once an interactive request on a key that is not blocked is refused, the interactive grants of
the window that ends now have used up the reserve, whatever monitoring requests were made. -/
theorem reserve_available (limits : RateLimits) (calls : List TimedCall) (now : ℚ)
    (hclock : (calls.map TimedCall.now ++ [now]).Pairwise (· ≤ ·)) (key : String)
    (hblocked : (PyFloat.fin now).lt (((new limits).after calls).states key).blockedUntil = false)
    (hrefused : (((new limits).after calls).perform ⟨now, key, .tryAcquire true⟩).1 =
      .acquired false) :
    limits.hardLimit - limits.monitoringLimit ≤
      ((grants key ((new limits).trace calls)).countP fun g =>
        g.interactive = true ∧ now - limits.windowSeconds < g.time ∧ g.time ≤ now : ℤ) := by
  obtain ⟨hsorted, -, -⟩ := requests_sorted limits hclock key
  obtain ⟨hsuffix, -⟩ := (new limits).requests_suffix calls key (List.suffix_refl [])
  have hfull : limits.hardLimit ≤ (((((new limits).after calls).states key).prune limits
      now).requests.length : ℤ) := by
    by_contra hroom
    have hfree : ((((((new limits).after calls).states key).prune limits now).requests.length) : ℤ) <
        limits.limit true := not_le.mp hroom
    have hgranted := TokenLimitState.tryAcquire_granted hblocked hfree
    simp [perform, TokenLimitState.perform, hgranted] at hrefused
  refine interactive_countP limits hclock key (hfull.trans ?_)
  rw [TokenLimitState.prune_requests hsorted, ← List.countP_eq_length_filter]
  have hle := hsuffix.sublist.countP_le (p := fun t => decide (now - limits.windowSeconds < t))
  rw [List.nil_append, List.countP_map] at hle
  exact_mod_cast hle

/-- Two monitoring requests leave a reserve of one, which an interactive request uses up. -/
theorem reserve_available_used_up :
    (3 - 2 : ℤ) ≤ ((grants "alice" ((new ⟨2, 3, 60, by decide, by decide⟩).trace
      [⟨0, "alice", .tryAcquire false⟩, ⟨1, "alice", .tryAcquire false⟩,
        ⟨2, "alice", .tryAcquire true⟩])).countP fun g =>
          g.interactive = true ∧ 3 - 60 < g.time ∧ g.time ≤ 3 : ℤ) :=
  reserve_available ⟨2, 3, 60, by decide, by decide⟩
    [⟨0, "alice", .tryAcquire false⟩, ⟨1, "alice", .tryAcquire false⟩,
      ⟨2, "alice", .tryAcquire true⟩] 3 (by decide) "alice" (by decide +kernel)
    (by decide +kernel)

end PerTokenRateLimiter

end DonutMonitor
