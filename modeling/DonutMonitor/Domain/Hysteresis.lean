import DonutMonitor.Domain.Evaluator
import Mathlib.Data.List.Induction

/-!
# Duplicate alerts along a run of observations

Between two alerts a rule has to come back from the matched side of its threshold to the armed
side. There are two ways back. A present price takes it there only from strictly beyond the re-arm
price. A missing listing drops the side altogether: the next present price classifies the rule
afresh, without hysteresis, so that any price on the non-matching side arms it.

## Main definitions

* `ThresholdRule.observe` — one evaluation, feeding the state and the last trigger time forward.

## Main results

* `ThresholdRule.rearmed_between_alerts` — between two alerts there is a price strictly beyond the
  re-arm price, or a missing listing directly followed by a price on the non-matching side.
* `ThresholdRule.not_rearmed_between_alerts` — the second way back needs no price beyond the
  re-arm price.
-/

namespace DonutMonitor

/-- An optional price with its time, and whether an initial match is to be notified. -/
structure Observation where
  price : Option ℚ
  observedAt : ℚ
  notifyInitial : Bool := false
  deriving DecidableEq, Repr

/-- What an evaluation feeds to the next one. -/
structure WatchState where
  state : RuleState := .unknown
  lastTriggeredAt : Option ℚ := none
  deriving DecidableEq, Repr

namespace ThresholdRule

variable (ctx : DecimalContext) (rule : ThresholdRule)

/-- The evaluation of an observation. -/
def evaluate (w : WatchState) (o : Observation) : Evaluation :=
  evaluateThreshold ctx rule w.state o.price w.lastTriggeredAt o.observedAt o.notifyInitial

/-- The state after an observation. A triggered evaluation sets the last trigger time. -/
def observe (w : WatchState) (o : Observation) : WatchState where
  state := (rule.evaluate ctx w o).state
  lastTriggeredAt :=
    if (rule.evaluate ctx w o).triggered then some o.observedAt else w.lastTriggeredAt

/-- The state after a sequence of observations. -/
def observeAll (w : WatchState) (os : List Observation) : WatchState :=
  os.foldl (rule.observe ctx) w

@[simp] theorem observeAll_nil (w : WatchState) : rule.observeAll ctx w [] = w := rfl

theorem observeAll_concat (w : WatchState) (os : List Observation) (o : Observation) :
    rule.observeAll ctx w (os ++ [o]) = rule.observe ctx (rule.observeAll ctx w os) o := by
  simp [observeAll]

/-- Some observation is strictly beyond the re-arm price. -/
def Rearmed (os : List Observation) : Prop := ∃ o ∈ os, ∃ price ∈ o.price, rule.Rearms ctx price

/-- Some missing listing is directly followed by a present price that does not match. -/
def Relisted (os : List Observation) : Prop :=
  ∃ before missing next after, os = before ++ missing :: next :: after ∧ missing.price = none ∧
    ∃ price ∈ next.price, ¬ rule.Matches price

variable {ctx rule}

theorem Rearmed.concat {os : List Observation} (h : rule.Rearmed ctx os) (o : Observation) :
    rule.Rearmed ctx (os ++ [o]) := by
  obtain ⟨o', ho', hprice⟩ := h
  exact ⟨o', List.mem_append_left _ ho', hprice⟩

theorem Relisted.concat {os : List Observation} (h : rule.Relisted os) (o : Observation) :
    rule.Relisted (os ++ [o]) := by
  obtain ⟨before, missing, next, after, rfl, hrest⟩ := h
  exact ⟨before, missing, next, after ++ [o], by simp, hrest⟩

/-- A rule that left the matched side and is not on it without having been armed again has seen a
missing listing last. -/
def Unarmed (rule : ThresholdRule) (w : WatchState) (os : List Observation) : Prop :=
  w.state = rule.condition.matchedState ∨
    w.state = .noListings ∧ ∃ before missing, os = before ++ [missing] ∧ missing.price = none

theorem Unarmed.observe {w : WatchState} {os : List Observation} (h : rule.Unarmed w os)
    (o : Observation) :
    rule.Unarmed (rule.observe ctx w o) (os ++ [o]) ∨ rule.Rearmed ctx (os ++ [o]) ∨
      rule.Relisted (os ++ [o]) := by
  cases hprice : o.price with
  | none =>
    refine .inl (.inr ⟨?_, os, o, rfl, hprice⟩)
    simp [ThresholdRule.observe, evaluate, hprice]
  | some price =>
    rcases h with hmatched | ⟨hmissing, before, missing, rfl, hnone⟩
    · by_cases hrearm : rule.Rearms ctx price
      · exact .inr (.inl ⟨o, by simp, price, hprice, hrearm⟩)
      · refine .inl (.inl ?_)
        simp [ThresholdRule.observe, evaluate, hprice, hmatched, hrearm]
    · by_cases hmatch : rule.Matches price
      · refine .inl (.inl ?_)
        simp [ThresholdRule.observe, evaluate, hprice, hmissing, sideOf, hmatch]
      · exact .inr (.inr ⟨before, missing, o, [], by simp, hnone, price, hprice, hmatch⟩)

/-- From the matched side, a rule is armed again only by a price beyond the re-arm price, or by a
missing listing followed by a price that does not match. -/
theorem unarmed_or_rearmed {w : WatchState} (hw : w.state = rule.condition.matchedState)
    (os : List Observation) :
    rule.Unarmed (rule.observeAll ctx w os) os ∨ rule.Rearmed ctx os ∨ rule.Relisted os := by
  induction os using List.reverseRecOn with
  | nil => exact .inl (.inl hw)
  | append_singleton os o ih =>
    rw [observeAll_concat]
    rcases ih with hunarmed | hrearmed | hrelisted
    · exact hunarmed.observe o
    · exact .inr (.inl (hrearmed.concat o))
    · exact .inr (.inr (hrelisted.concat o))

theorem Unarmed.not_triggered {w : WatchState} {os : List Observation} (h : rule.Unarmed w os)
    (o : Observation) : (rule.evaluate ctx w o).triggered = false := by
  by_contra htriggered
  obtain ⟨price, -, -, -, -, hbefore⟩ :=
    evaluateThreshold_triggered (by simpa [evaluate] using htriggered)
  rcases h with hmatched | ⟨hmissing, -⟩
  · rw [hmatched] at hbefore
    simp at hbefore
  · rw [hmissing] at hbefore
    rcases hbefore with harmed | ⟨hunknown, -⟩
    · exact Condition.armedState_ne_noListings _ harmed.symm
    · cases hunknown

/-- Between two triggered evaluations of a run there is an observation strictly beyond the re-arm
price, or a missing listing directly followed by a price on the non-matching side. -/
theorem rearmed_between_alerts (ctx : DecimalContext) (rule : ThresholdRule) (start : WatchState)
    (before between : List Observation) (first second : Observation)
    (hfirst : (rule.evaluate ctx (rule.observeAll ctx start before) first).triggered = true)
    (hsecond : (rule.evaluate ctx
      (rule.observeAll ctx start (before ++ first :: between)) second).triggered = true) :
    rule.Rearmed ctx between ∨ rule.Relisted between := by
  obtain ⟨price, -, -, -, hmatched, -⟩ := evaluateThreshold_triggered hfirst
  have hstate : rule.observeAll ctx start (before ++ first :: between) =
      rule.observeAll ctx (rule.observe ctx (rule.observeAll ctx start before) first) between := by
    simp [observeAll]
  rw [hstate] at hsecond
  have hafter : (rule.observe ctx (rule.observeAll ctx start before) first).state =
      rule.condition.matchedState := hmatched
  rcases unarmed_or_rearmed hafter between with hunarmed | hback
  · rw [hunarmed.not_triggered] at hsecond
    cases hsecond
  · exact hback

/-- At a threshold of 100 with 2% hysteresis: an alert at 100, a missing listing, a price of 101
inside the dead band, and a second alert at 100. -/
theorem rearmed_between_alerts_relisted :
    Rearmed .exact ⟨.priceDown, 100, 2, 60⟩ [⟨none, 200, false⟩, ⟨some 101, 300, false⟩] ∨
      Relisted ⟨.priceDown, 100, 2, 60⟩ [⟨none, 200, false⟩, ⟨some 101, 300, false⟩] :=
  rearmed_between_alerts .exact ⟨.priceDown, 100, 2, 60⟩ {} [⟨some 200, 0, false⟩]
    [⟨none, 200, false⟩, ⟨some 101, 300, false⟩] ⟨some 100, 100, false⟩ ⟨some 100, 400, false⟩
    (by decide +kernel) (by decide +kernel)

/-- Two alerts of the same run, without an observation beyond the re-arm price of 102. -/
theorem not_rearmed_between_alerts :
    ¬ ∀ (rule : ThresholdRule) (start : WatchState) (before between : List Observation)
      (first second : Observation), 0 < rule.threshold → 0 ≤ rule.hysteresisPercent →
      (rule.evaluate .exact (rule.observeAll .exact start before) first).triggered = true →
      (rule.evaluate .exact (rule.observeAll .exact start (before ++ first :: between))
        second).triggered = true →
      rule.Rearmed .exact between := by
  intro h
  obtain ⟨o, ho, price, hprice, hrearm⟩ := h ⟨.priceDown, 100, 2, 60⟩ {} [⟨some 200, 0, false⟩]
    [⟨none, 200, false⟩, ⟨some 101, 300, false⟩] ⟨some 100, 100, false⟩ ⟨some 100, 400, false⟩
    (by norm_num) (by norm_num) (by decide +kernel) (by decide +kernel)
  simp only [List.mem_cons, List.not_mem_nil, or_false] at ho
  rcases ho with rfl | rfl
  · cases hprice
  · obtain rfl := Option.some.inj hprice
    revert hrearm
    decide +kernel

end ThresholdRule

end DonutMonitor
