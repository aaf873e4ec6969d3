import DonutMonitor.Infrastructure.InteractiveReserve
import Mathlib.Order.Bounds.Basic

/-!
# The waiting hints agree with the grants

`retry_after` looks at the oldest request of the queue only, although the queue may exceed the
limit of monitoring requests by the whole reserve, and a block may overlap it.  It is still never
later than the first instant at which a request would be granted, and every sleep that it orders
either ends the block or expires a request.  So `acquire` sleeps at most once for the block and
once for every request above the limit.

## Main definitions

* `TokenLimitState.acquire` — the loop of `acquire`, on the clock readings of its iterations.
* `TokenLimitState.sleepsLeft` — the measure of that loop.
* `TokenLimitState.HintsAgree` — what `retry_after`, `remaining` and `acquire` promise about
  `try_acquire`.

## Main results

* `PerTokenRateLimiter.hintsAgree` — the promises hold in every reachable state whose block has a
  finite end.
-/

namespace DonutMonitor

namespace TokenLimitState

/-- The answers of consecutive acquisitions at one instant. -/
def tries (limits : RateLimits) (now : ℚ) (interactive : Bool) :
    ℕ → TokenLimitState → List Bool
  | 0, _ => []
  | k + 1, s =>
    (s.tryAcquire limits now interactive).1 ::
      tries limits now interactive k (s.tryAcquire limits now interactive).2

/-- The loop of `acquire`. An iteration reads the clock in `try_acquire` and, if that fails, once
more in `retry_after`; the loop is still waiting (`none`) when the readings are used up. The first
component lists the sleeps. -/
def acquire (limits : RateLimits) (interactive : Bool) :
    List (ℚ × ℚ) → TokenLimitState → List PyFloat × Option TokenLimitState
  | [], _ => ([], none)
  | (now, later) :: readings, s =>
    let (granted, s) := s.tryAcquire limits now interactive
    if granted then ([], some s)
    else
      let (delay, s) := s.retryAfter limits later interactive
      let (sleeps, result) := acquire limits interactive readings s
      (delay :: sleeps, result)

/-- The readings of a run of `acquire` during which the clock does not run back and every sleep
lasts as long as it was asked to. -/
def Sleeps (limits : RateLimits) (interactive : Bool) :
    List (ℚ × ℚ) → TokenLimitState → Prop
  | [], _ => True
  | (now, later) :: readings, s =>
    let (granted, s) := s.tryAcquire limits now interactive
    granted = true ∨
      let (delay, s) := s.retryAfter limits later interactive
      now ≤ later ∧
        (∀ next ∈ readings.head?,
          (PyFloat.fin next.1).lt ((PyFloat.fin later).add delay) = false) ∧
        Sleeps limits interactive readings s

/-- An upper bound of the sleeps of `acquire` from the clock reading `now`: one for the block, and
one for every request that has to expire. -/
def sleepsLeft (limits : RateLimits) (now : ℚ) (interactive : Bool) (s : TokenLimitState) : ℕ :=
  (if (PyFloat.fin now).lt s.blockedUntil then 1 else 0) +
    ((s.prune limits now).requests.length + 1 - limits.limit interactive).toNat

/-- What the hints promise about the acquisitions of a class at the instant `now`. -/
structure HintsAgree (limits : RateLimits) (now : ℚ) (interactive : Bool) (s : TokenLimitState) :
    Prop where
  /-- `retry_after` returns `0` exactly if a request would be granted. -/
  free : (s.retryAfter limits now interactive).1 = .fin 0 ↔
    (s.tryAcquire limits now interactive).1 = true
  /-- Another delay is not longer than it takes until a request would be granted. -/
  delay : ∃ d, (s.retryAfter limits now interactive).1 = .fin d ∧ 0 ≤ d ∧
    (0 < d → ∃ e, IsLeast {t | now ≤ t ∧ (s.tryAcquire limits t interactive).1 = true} e ∧
      d ≤ max (e - now) (1 / 100))
  /-- `remaining` counts the consecutive requests that are granted. -/
  count : 0 < limits.windowSeconds → (PyFloat.fin now).lt s.blockedUntil = false →
    ∃ n : ℕ, (s.remaining limits now interactive).1 = n ∧
      ∀ m, s.tries limits now interactive m =
        List.replicate (min m n) true ++ List.replicate (m - n) false
  /-- `acquire` ends after at most two sleeps more than requests are held in reserve. -/
  ends : ∀ (later : ℚ) (readings : List (ℚ × ℚ)),
    s.Sleeps limits interactive ((now, later) :: readings) →
    limits.hardLimit - limits.limit interactive + 2 ≤ readings.length →
    ∃ sleeps s', s.acquire limits interactive ((now, later) :: readings) = (sleeps, some s') ∧
      sleeps.length ≤ limits.hardLimit - limits.limit interactive + 2

variable {limits : RateLimits} {now later : ℚ} {interactive : Bool} {s : TokenLimitState}

/-! ### Grants -/

/-- A later pruning makes an earlier one superfluous. -/
theorem prune_prune (h : now ≤ later) :
    (s.prune limits now).prune limits later = s.prune limits later := by
  simp only [prune]
  congr 1
  induction s.requests with
  | nil => rfl
  | cons r requests ih =>
    by_cases hr : r ≤ now - limits.windowSeconds
    · have hlater : r ≤ later - limits.windowSeconds := by linarith
      simpa [List.dropWhile_cons, hr, hlater] using ih
    · simp [List.dropWhile_cons, hr]

variable (limits s) in
theorem prune_length_le (h : now ≤ later) :
    (s.prune limits later).requests.length ≤ (s.prune limits now).requests.length := by
  rw [← prune_prune h]
  exact ((s.prune limits now).prune_suffix limits later).length_le

/-- The acquisitions that are granted. -/
theorem tryAcquire_fst_iff :
    (s.tryAcquire limits now interactive).1 = true ↔
      (PyFloat.fin now).lt s.blockedUntil = false ∧
        ((s.prune limits now).requests.length : ℤ) < limits.limit interactive := by
  rcases tryAcquire_cases limits now interactive s with h | ⟨hfree, hroom, h⟩
  · rw [h]
    refine ⟨nofun, fun ⟨hfree, hroom⟩ => ?_⟩
    rw [tryAcquire_granted hfree hroom] at h
    cases congrArg Prod.fst h
  · simp [h, hfree, hroom]

variable (limits now interactive) in
/-- The three answers of `retry_after` on a key whose block has a finite end. -/
theorem retryAfter_cases {b : ℚ} (hb : s.blockedUntil = .fin b) :
    (now < b ∧
      (s.retryAfter limits now interactive).1 = .fin (max (b - now) (1 / 100))) ∨
    (b ≤ now ∧ limits.limit interactive ≤ (s.prune limits now).requests.length ∧
      ∃ oldest queue, (s.prune limits now).requests = oldest :: queue ∧
        (s.retryAfter limits now interactive).1 =
          .fin (max (oldest + limits.windowSeconds - now) (1 / 100))) ∨
    (b ≤ now ∧ ((s.prune limits now).requests.length : ℤ) < limits.limit interactive ∧
      (s.retryAfter limits now interactive).1 = .fin 0) := by
  have hlimit := limits.limit_pos interactive
  simp only [retryAfter, prune_blockedUntil, hb, PyFloat.fin_lt_fin]
  by_cases hblocked : now < b
  · refine .inl ⟨hblocked, ?_⟩
    rw [if_pos hblocked, PyFloat.fin_sub_fin, PyFloat.fin_max_fin]
  · rw [if_neg hblocked]
    refine .inr ?_
    cases hqueue : (s.prune limits now).requests with
    | nil => exact .inr ⟨not_lt.mp hblocked, by simpa using hlimit, rfl⟩
    | cons oldest queue =>
      by_cases hfull : limits.limit interactive ≤ ((oldest :: queue).length : ℤ)
      · refine .inl ⟨not_lt.mp hblocked, hfull, oldest, queue, rfl, ?_⟩
        simp only [if_pos hfull, PyFloat.fin_max_fin]
      · exact .inr ⟨not_lt.mp hblocked, not_le.mp hfull, by simp only [if_neg hfull]⟩

/-- A queue has room for a limit from some instant on. -/
private theorem exists_room (w : ℚ) {limit : ℤ} (hlimit : 0 < limit) (now : ℚ) (queue : List ℚ) :
    ∃ e, now ≤ e ∧ ∀ t, now ≤ t →
      (((queue.dropWhile fun r => r ≤ t - w).length : ℤ) < limit ↔ e ≤ t) := by
  induction queue with
  | nil => exact ⟨now, le_rfl, fun t ht => by simpa [ht] using hlimit⟩
  | cons r queue ih =>
    by_cases hroom : ((r :: queue).length : ℤ) < limit
    · refine ⟨now, le_rfl, fun t ht => iff_of_true (lt_of_le_of_lt ?_ hroom) ht⟩
      exact_mod_cast (List.dropWhile_sublist _).length_le
    · obtain ⟨e, he, hrest⟩ := ih
      refine ⟨max e (r + w), le_max_of_le_left he, fun t ht => ?_⟩
      by_cases hr : r ≤ t - w
      · rw [List.dropWhile_cons_of_pos (by simpa using hr), hrest t ht, max_le_iff]
        exact ⟨fun h => ⟨h, by linarith⟩, fun h => h.1⟩
      · rw [List.dropWhile_cons_of_neg (by simpa using hr), max_le_iff]
        exact iff_of_false hroom fun h => hr (by linarith [h.2])

theorem retryAfter_prune (h : now ≤ later) :
    (s.prune limits now).retryAfter limits later interactive =
      s.retryAfter limits later interactive := by
  simp only [retryAfter, prune_prune h]

variable (limits now interactive) in
/-- A key whose block has a finite end has an earliest instant at which a request is granted. -/
theorem exists_isLeast {b : ℚ} (hb : s.blockedUntil = .fin b) :
    ∃ e, IsLeast {t | now ≤ t ∧ (s.tryAcquire limits t interactive).1 = true} e := by
  obtain ⟨e, he, hroom⟩ := exists_room limits.windowSeconds (limits.limit_pos interactive) now
    s.requests
  have hgranted : ∀ t, now ≤ t →
      ((s.tryAcquire limits t interactive).1 = true ↔ b ≤ t ∧ e ≤ t) := fun t ht => by
    rw [tryAcquire_fst_iff, hb, ← hroom t ht]
    simp [PyFloat.lt, prune]
  refine ⟨max b e, ⟨le_max_of_le_right he, ?_⟩, ?_⟩
  · exact (hgranted _ (le_max_of_le_right he)).mpr ⟨le_max_left _ _, le_max_right _ _⟩
  · rintro t ⟨ht, htry⟩
    exact max_le_iff.mpr ((hgranted t ht).mp htry)

variable (limits now interactive) in
/-- The delay of `retry_after` on a key whose block has a finite end. -/
theorem retryAfter_le {b : ℚ} (hb : s.blockedUntil = .fin b) :
    ∃ d, (s.retryAfter limits now interactive).1 = .fin d ∧ 0 ≤ d ∧
      (d = 0 ↔ (s.tryAcquire limits now interactive).1 = true) ∧
      ∀ t, now ≤ t → (s.tryAcquire limits t interactive).1 = true → d ≤ max (t - now) (1 / 100) := by
  have hpos : ∀ x : ℚ, 0 < max x (1 / 100) := fun x => lt_max_of_lt_right (by norm_num)
  simp only [tryAcquire_fst_iff, hb, PyFloat.lt, decide_eq_false_iff_not, not_lt]
  rcases retryAfter_cases limits now interactive hb with
    ⟨hblocked, hd⟩ | ⟨hb', hfull, oldest, queue, hqueue, hd⟩ | ⟨hb', hroom, hd⟩
  · refine ⟨_, hd, (hpos _).le, iff_of_false (hpos _).ne' fun h => ?_, fun t ht h => ?_⟩
    · exact absurd h.1 (not_le.mpr hblocked)
    · exact max_le_max_right _ (by linarith [h.1])
  · refine ⟨_, hd, (hpos _).le, iff_of_false (hpos _).ne' fun h => ?_, fun t ht h => ?_⟩
    · exact absurd h.2 (not_lt.mpr hfull)
    · refine max_le_max_right _ ?_
      -- the oldest request has expired, or the whole queue would still be there
      have hexpired : oldest ≤ t - limits.windowSeconds := by
        by_contra hkept
        have hsame : ((s.prune limits now).prune limits t).requests = oldest :: queue := by
          change (s.prune limits now).requests.dropWhile _ = _
          rw [hqueue, List.dropWhile_cons_of_neg (by simpa using hkept)]
        rw [← prune_prune ht, hsame, ← hqueue] at h
        omega
      linarith
  · refine ⟨0, hd, le_rfl, iff_of_true rfl ⟨hb', hroom⟩, fun t ht h => ?_⟩
    exact le_max_of_le_right (by norm_num)

/-! ### Consecutive acquisitions -/

/-- With a window of positive length a granted request is in the queue that the next acquisition
at the same instant finds. -/
private theorem prune_granted (hw : 0 < limits.windowSeconds) :
    ({ s with requests := (s.prune limits now).requests ++ [now] } : TokenLimitState).prune
      limits now = { s with requests := (s.prune limits now).requests ++ [now] } := by
  have hkept : ∀ queue : List ℚ,
      (queue.dropWhile (fun r => r ≤ now - limits.windowSeconds) ++ [now]).dropWhile
        (fun r => r ≤ now - limits.windowSeconds) =
      queue.dropWhile (fun r => r ≤ now - limits.windowSeconds) ++ [now] := by
    intro queue
    induction queue with
    | nil => simp [hw]
    | cons r queue ih =>
      by_cases hr : r ≤ now - limits.windowSeconds
      · simpa [hr] using ih
      · simp [hr]
  exact congrArg (fun queue => ({ s with requests := queue } : TokenLimitState)) (hkept s.requests)

/-- The acquisitions at one instant are granted as long as the queue has room. -/
theorem tries_eq (hw : 0 < limits.windowSeconds)
    (hfree : (PyFloat.fin now).lt s.blockedUntil = false) (m : ℕ) {n : ℕ}
    (hn : max (limits.limit interactive - (s.prune limits now).requests.length) 0 = n) :
    s.tries limits now interactive m =
      List.replicate (min m n) true ++ List.replicate (m - n) false := by
  induction m generalizing s n with
  | zero => simp [tries]
  | succ m ih =>
    rw [tries]
    cases n with
    | zero =>
      have hfull : ¬ ((s.prune limits now).requests.length : ℤ) < limits.limit interactive := by
        omega
      rcases tryAcquire_cases limits now interactive s with h | ⟨-, hroom, -⟩
      · have hrest := ih (s := s.prune limits now) (n := 0) hfree (by rwa [prune_prune le_rfl])
        simp [h, hrest, List.replicate_succ]
      · exact absurd hroom hfull
    | succ n =>
      have hroom : ((s.prune limits now).requests.length : ℤ) < limits.limit interactive := by
        omega
      have hrest := ih (s := { s with requests := (s.prune limits now).requests ++ [now] })
        (n := n) hfree (by
          rw [prune_granted hw]
          simp only [List.length_append, List.length_singleton]
          push_cast at hn ⊢
          omega)
      simp [tryAcquire_granted hfree hroom, hrest, List.replicate_succ, Nat.succ_min_succ]

/-! ### The loop of `acquire` -/

theorem sleepsLeft_eq_zero_iff :
    s.sleepsLeft limits now interactive = 0 ↔
      (s.tryAcquire limits now interactive).1 = true := by
  rw [tryAcquire_fst_iff, sleepsLeft]
  cases h : (PyFloat.fin now).lt s.blockedUntil
  · simp only [Bool.false_eq_true, if_false, true_and]
    omega
  · simp

/-- A sleep that lasts as long as `retry_after` asked lowers the measure of the loop. -/
theorem sleepsLeft_lt {b d next : ℚ} (hb : s.blockedUntil = .fin b)
    (hrefused : (s.tryAcquire limits now interactive).1 = false) (hlater : now ≤ later)
    (hd : (s.retryAfter limits later interactive).1 = .fin d) (hnext : later + d ≤ next) :
    ((s.prune limits now).prune limits later).sleepsLeft limits next interactive <
      s.sleepsLeft limits now interactive := by
  obtain ⟨d', hd', hnonneg, -, -⟩ := retryAfter_le limits later interactive hb
  obtain rfl : d' = d := by simpa [hd'] using hd
  have hpositive : s.sleepsLeft limits now interactive ≠ 0 := fun h => by
    rw [sleepsLeft_eq_zero_iff.mp h] at hrefused
    cases hrefused
  have hblocked : ∀ {t u : ℚ}, t ≤ u → b ≤ t → ¬ u < b := fun htu hbt =>
    not_lt.mpr (hbt.trans htu)
  have hlength := prune_length_le limits s hlater
  have hnow : later ≤ next := by linarith
  have hlength' := prune_length_le limits s hnow
  simp only [sleepsLeft, prune_blockedUntil, prune_prune hlater, prune_prune hnow, hb,
    PyFloat.fin_lt_fin] at hpositive ⊢
  rcases retryAfter_cases limits later interactive hb with
    ⟨hwait, hdelay⟩ | ⟨hover, hfull, oldest, queue, hqueue, hdelay⟩ | ⟨hover, hroom, hdelay⟩
  · -- the block ends during the sleep
    obtain rfl : d' = max (b - later) (1 / 100) := by simpa [hdelay] using hd'.symm
    have hend : b ≤ next := by linarith [le_max_left (b - later) (1 / 100)]
    rw [if_neg (not_lt.mpr hend), if_pos (hlater.trans_lt hwait)]
    omega
  · -- the oldest request expires during the sleep
    obtain rfl : d' = max (oldest + limits.windowSeconds - later) (1 / 100) := by
      simpa [hdelay] using hd'.symm
    have hexpired : oldest ≤ next - limits.windowSeconds := by
      linarith [le_max_left (oldest + limits.windowSeconds - later) (1 / 100)]
    have hshorter : (s.prune limits next).requests.length <
        (s.prune limits later).requests.length := by
      rw [← prune_prune hnow]
      change ((s.prune limits later).requests.dropWhile _).length < _
      rw [hqueue, List.dropWhile_cons_of_pos (by simpa using hexpired)]
      exact Nat.lt_succ_of_le (List.dropWhile_sublist _).length_le
    rw [if_neg (hblocked hnow hover)]
    split_ifs <;> omega
  · -- the key has become free before the clock was read again
    rw [if_neg (hblocked hnow hover)] at *
    split_ifs at hpositive ⊢ <;> omega

/-- An iteration of the loop whose acquisition is refused. -/
theorem acquire_of_refused {readings : List (ℚ × ℚ)}
    (h : s.tryAcquire limits now interactive = (false, s.prune limits now)) :
    s.acquire limits interactive ((now, later) :: readings) =
      (((s.prune limits now).retryAfter limits later interactive).1 ::
        (((s.prune limits now).prune limits later).acquire limits interactive readings).1,
        (((s.prune limits now).prune limits later).acquire limits interactive readings).2) := by
  rw [acquire, h, ← retryAfter_snd limits later interactive (s.prune limits now)]
  rfl

/-- The loop ends within its measure. -/
theorem acquire_ends {b : ℚ} (hb : s.blockedUntil = .fin b) {readings : List (ℚ × ℚ)}
    (hsleeps : s.Sleeps limits interactive ((now, later) :: readings))
    (henough : s.sleepsLeft limits now interactive ≤ readings.length) :
    ∃ sleeps s', s.acquire limits interactive ((now, later) :: readings) = (sleeps, some s') ∧
      sleeps.length ≤ s.sleepsLeft limits now interactive := by
  induction readings generalizing now later s with
  | nil =>
    have hgranted := sleepsLeft_eq_zero_iff.mp (Nat.le_zero.mp henough)
    exact ⟨[], (s.tryAcquire limits now interactive).2, by simp [acquire, hgranted], by simp⟩
  | cons reading readings ih =>
    obtain ⟨next, afterwards⟩ := reading
    rcases tryAcquire_cases limits now interactive s with h | ⟨-, -, h⟩
    · rw [Sleeps] at hsleeps
      simp only [h, Bool.false_eq_true, false_or, retryAfter_snd] at hsleeps
      obtain ⟨hlater, hwoken, hrest⟩ := hsleeps
      obtain ⟨d, hd, -, -, -⟩ := (s.prune limits now).retryAfter_le limits later interactive hb
      have hnext : later + d ≤ next := by
        simpa [hd, PyFloat.lt] using hwoken (next, afterwards) rfl
      have hless : ((s.prune limits now).prune limits later).sleepsLeft limits next interactive <
          s.sleepsLeft limits now interactive :=
        sleepsLeft_lt hb (by rw [h]) hlater (by rwa [retryAfter_prune hlater] at hd) hnext
      have henough' := Nat.le_of_lt_succ (hless.trans_le henough)
      obtain ⟨sleeps, s', hacquire, hlength⟩ := ih
        (s := (s.prune limits now).prune limits later) hb hrest henough'
      refine ⟨.fin d :: sleeps, s', ?_, hlength.trans_lt hless⟩
      rw [acquire_of_refused h, hd, hacquire]
    · exact ⟨[], (s.tryAcquire limits now interactive).2, by simp [acquire, h], by simp⟩

end TokenLimitState

namespace PerTokenRateLimiter

/-- The queue of a key is never longer than the hard limit. -/
theorem requests_length_le (l : PerTokenRateLimiter) (calls : List TimedCall) (key : String)
    (h : ((l.states key).requests.length : ℤ) ≤ l.limits.hardLimit) :
    (((l.after calls).states key).requests.length : ℤ) ≤ l.limits.hardLimit := by
  induction calls generalizing l with
  | nil => exact h
  | cons c calls ih =>
    refine ih (l.perform c).2 ?_
    rw [perform_limits]
    by_cases hkey : key = c.key
    · subst hkey
      have hpruned : ((l.states c.key).prune l.limits c.now).requests.length ≤
          (l.states c.key).requests.length :=
        ((l.states c.key).prune_suffix l.limits c.now).length_le
      rw [perform_states_self]
      rcases (l.states c.key).perform_requests l.limits c.now c.call with
        ⟨interactive, -, -, hroom, hqueue⟩ | ⟨-, hqueue | hqueue⟩ <;> rw [hqueue]
      · have := l.limits.limit_le_hardLimit interactive
        rw [List.length_append, List.length_singleton]
        omega
      · exact h
      · omega
    · rwa [l.perform_states_of_ne hkey]

/-- In every reachable state, and at every instant, the hints of a key whose block has a finite end
agree with the grants. -/
theorem hintsAgree (limits : RateLimits) (calls : List TimedCall) (now : ℚ) (key : String) {b : ℚ}
    (hb : (((new limits).after calls).states key).blockedUntil = .fin b) (interactive : Bool) :
    (((new limits).after calls).states key).HintsAgree limits now interactive := by
  have hlength := (new limits).requests_length_le calls key (by
    have := limits.monitoringLimit_pos
    have := limits.monitoringLimit_le
    simp
    omega)
  rw [new_limits] at hlength
  generalize ((new limits).after calls).states key = s at hb hlength
  obtain ⟨d, hd, hnonneg, hzero, hle⟩ := TokenLimitState.retryAfter_le limits now interactive hb
  refine ⟨?_, ⟨d, hd, hnonneg, fun _ => ?_⟩, fun hw hfree => ?_, fun later readings hsleeps h => ?_⟩
  · rw [hd, PyFloat.fin.injEq, hzero]
  · obtain ⟨e, hleast⟩ := TokenLimitState.exists_isLeast limits now interactive hb
    exact ⟨e, hleast, hle e hleast.1.1 hleast.1.2⟩
  · obtain ⟨n, hn⟩ := Int.eq_ofNat_of_zero_le (le_max_right
      (limits.limit interactive - ((s.prune limits now).requests.length : ℤ)) 0)
    exact ⟨n, hn, fun m => TokenLimitState.tries_eq hw hfree m hn⟩
  · have hbound : (s.sleepsLeft limits now interactive : ℤ) ≤
        limits.hardLimit - limits.limit interactive + 2 := by
      have hpruned : (s.prune limits now).requests.length ≤ s.requests.length :=
        (s.prune_suffix limits now).length_le
      have := limits.limit_le_hardLimit interactive
      rw [TokenLimitState.sleepsLeft]
      split_ifs <;> push_cast <;> omega
    obtain ⟨sleeps, s', hacquire, hsleep⟩ := TokenLimitState.acquire_ends hb hsleeps (by omega)
    exact ⟨sleeps, s', hacquire, by omega⟩

/-- A monitoring request waits for a block and for two of the three requests that are held. -/
theorem hintsAgree_blocked :
    (((new ⟨2, 3, 60, by decide, by decide⟩).after
      [⟨0, "alice", .tryAcquire false⟩, ⟨1, "alice", .tryAcquire false⟩,
        ⟨2, "alice", .tryAcquire true⟩, ⟨3, "alice", .block (.fin 5)⟩]).states "alice").HintsAgree
      ⟨2, 3, 60, by decide, by decide⟩ 4 false :=
  hintsAgree ⟨2, 3, 60, by decide, by decide⟩ [⟨0, "alice", .tryAcquire false⟩,
    ⟨1, "alice", .tryAcquire false⟩, ⟨2, "alice", .tryAcquire true⟩,
    ⟨3, "alice", .block (.fin 5)⟩] 4 "alice" (b := 8) (by decide +kernel) false

/-- With a window of no length `remaining` is `1`, but requests are granted without end. -/
theorem count_of_empty_window :
    (((new ⟨1, 1, 0, by decide, by decide⟩).states "alice").remaining
      ⟨1, 1, 0, by decide, by decide⟩ 0 false).1 = 1 ∧
    ((new ⟨1, 1, 0, by decide, by decide⟩).states "alice").blockedUntil = .fin 0 ∧
    ((new ⟨1, 1, 0, by decide, by decide⟩).states "alice").tries
      ⟨1, 1, 0, by decide, by decide⟩ 0 false 2 = [true, true] := by
  decide +kernel

end PerTokenRateLimiter

end DonutMonitor
