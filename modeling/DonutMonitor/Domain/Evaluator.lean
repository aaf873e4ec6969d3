import DonutMonitor.Core.Enums
import DonutMonitor.Foundations.DecimalContext
import Mathlib.Tactic.Linarith

/-!
# The threshold evaluator

`evaluateThreshold` is the state machine of a rule: from the state before, an optional price and
the time of the last alert it computes the next state and whether the rule triggers. The source
writes the two conditions out as mirrored branches; `evaluateThreshold_some` gives both in the
terms of `ThresholdRule.Matches` and `ThresholdRule.Rearms`.

Decimal arithmetic enters through the rounding of a context, applied after each operation.

## Main results

* `evaluateThreshold_some` — the evaluation of a present price, for both conditions at once.
* `evaluateThreshold_unknown`, `evaluateThreshold_noListings`, `evaluateThreshold_armed`,
  `evaluateThreshold_matched` — the evaluation from each state.
* `evaluateThreshold_triggered`, `evaluateThreshold_armed_state` — what a triggered evaluation
  says, and what an evaluation that leaves the rule armed says.
* `ThresholdRule.onOneSide_of_kept` — no price both matches and arms a rule whose threshold is kept.
-/

namespace DonutMonitor

/-- The arguments of `evaluate_threshold` that a rule fixes. -/
structure ThresholdRule where
  condition : Condition
  threshold : ℚ
  hysteresisPercent : ℚ
  cooldownSeconds : ℤ
  deriving DecidableEq, Repr

/-- `Evaluation`. -/
structure Evaluation where
  state : RuleState
  triggered : Bool
  deriving DecidableEq, Repr

/-- `_cooldown_ready`. -/
def cooldownReady (lastTriggeredAt : Option ℚ) (now : ℚ) (cooldownSeconds : ℤ) : Bool :=
  match lastTriggeredAt with
  | none => true
  | some last => last + cooldownSeconds ≤ now

/-- `evaluate_threshold`. -/
def evaluateThreshold (ctx : DecimalContext) (rule : ThresholdRule) (previousState : RuleState)
    (currentPrice : Option ℚ) (lastTriggeredAt : Option ℚ) (now : ℚ) (notifyInitial : Bool) :
    Evaluation :=
  match currentPrice with
  | none => ⟨.noListings, false⟩
  | some price =>
    let ready := cooldownReady lastTriggeredAt now rule.cooldownSeconds
    let hysteresis := ctx.round (rule.hysteresisPercent / 100)
    match rule.condition with
    | .priceDown =>
      let rearmPrice := ctx.round (rule.threshold * ctx.round (1 + hysteresis))
      if previousState = .unknown then
        let matched : Bool := price ≤ rule.threshold
        ⟨if matched then .belowThreshold else .aboveThreshold, matched && notifyInitial && ready⟩
      else if previousState = .noListings then
        ⟨if price ≤ rule.threshold then .belowThreshold else .aboveThreshold, false⟩
      else if previousState = .aboveThreshold ∧ price ≤ rule.threshold then
        ⟨.belowThreshold, ready⟩
      else if previousState = .belowThreshold ∧ price > rearmPrice then ⟨.aboveThreshold, false⟩
      else ⟨previousState, false⟩
    | .priceUp =>
      let rearmPrice := ctx.round (rule.threshold * ctx.round (1 - hysteresis))
      if previousState = .unknown then
        let matched : Bool := price ≥ rule.threshold
        ⟨if matched then .aboveThreshold else .belowThreshold, matched && notifyInitial && ready⟩
      else if previousState = .noListings then
        ⟨if price ≥ rule.threshold then .aboveThreshold else .belowThreshold, false⟩
      else if previousState = .belowThreshold ∧ price ≥ rule.threshold then
        ⟨.aboveThreshold, ready⟩
      else if previousState = .aboveThreshold ∧ price < rearmPrice then ⟨.belowThreshold, false⟩
      else ⟨previousState, false⟩

namespace ThresholdRule

variable (ctx : DecimalContext) (rule : ThresholdRule)

/-- The price from which a rule on the matched side is armed again. -/
def rearmPrice : ℚ :=
  match rule.condition with
  | .priceDown =>
    ctx.round (rule.threshold * ctx.round (1 + ctx.round (rule.hysteresisPercent / 100)))
  | .priceUp =>
    ctx.round (rule.threshold * ctx.round (1 - ctx.round (rule.hysteresisPercent / 100)))

/-- The price satisfies the condition. -/
def Matches (price : ℚ) : Prop :=
  match rule.condition with
  | .priceDown => price ≤ rule.threshold
  | .priceUp => rule.threshold ≤ price

/-- The price is strictly beyond the re-arm price. -/
def Rearms (price : ℚ) : Prop :=
  match rule.condition with
  | .priceDown => rule.rearmPrice ctx < price
  | .priceUp => price < rule.rearmPrice ctx

instance (price : ℚ) : Decidable (rule.Matches price) :=
  match rule with
  | ⟨.priceDown, threshold, _, _⟩ => inferInstanceAs (Decidable (price ≤ threshold))
  | ⟨.priceUp, threshold, _, _⟩ => inferInstanceAs (Decidable (threshold ≤ price))

instance (price : ℚ) : Decidable (rule.Rearms ctx price) :=
  match rule with
  | ⟨.priceDown, threshold, percent, _⟩ =>
    inferInstanceAs (Decidable
      (ctx.round (threshold * ctx.round (1 + ctx.round (percent / 100))) < price))
  | ⟨.priceUp, threshold, percent, _⟩ =>
    inferInstanceAs (Decidable
      (price < ctx.round (threshold * ctx.round (1 - ctx.round (percent / 100)))))

/-- The price does not satisfy the condition and lie strictly beyond the re-arm price as well, which
it can only do where the re-arm price has been rounded across the threshold. -/
def OnOneSide (price : ℚ) : Prop := ¬ (rule.Rearms ctx price ∧ rule.Matches price)

instance (price : ℚ) : Decidable (rule.OnOneSide ctx price) := inferInstanceAs (Decidable (¬ _))

/-- The side of the threshold on which a price lies. -/
def sideOf (price : ℚ) : RuleState :=
  if rule.Matches price then rule.condition.matchedState else rule.condition.armedState

/-- When the context keeps the threshold as it is, a price beyond the re-arm price does not match:
rounding cannot carry the re-arm price across the threshold. -/
theorem not_matches_of_rearms {ctx : DecimalContext} {rule : ThresholdRule} {price : ℚ}
    (hkept : ctx.round rule.threshold = rule.threshold) (hthreshold : 0 ≤ rule.threshold)
    (hhysteresis : 0 ≤ rule.hysteresisPercent) (h : rule.Rearms ctx price) :
    ¬ rule.Matches price := by
  have hband : 0 ≤ ctx.round (rule.hysteresisPercent / 100) :=
    ctx.round_nonneg (div_nonneg hhysteresis (by norm_num))
  cases hc : rule.condition with
  | priceDown =>
    simp only [Rearms, rearmPrice, Matches, hc] at h ⊢
    have hone : 1 ≤ ctx.round (1 + ctx.round (rule.hysteresisPercent / 100)) :=
      ctx.one_le_round (by linarith)
    have hrearm := ctx.round_mono (le_mul_of_one_le_right hthreshold hone)
    rw [hkept] at hrearm
    exact not_le.mpr (hrearm.trans_lt h)
  | priceUp =>
    simp only [Rearms, rearmPrice, Matches, hc] at h ⊢
    have hone : ctx.round (1 - ctx.round (rule.hysteresisPercent / 100)) ≤ 1 :=
      ctx.round_le_one (by linarith)
    have hrearm := ctx.round_mono (mul_le_of_le_one_right hthreshold hone)
    rw [hkept] at hrearm
    exact not_le.mpr (h.trans_le hrearm)

/-- Every price is on one side of a threshold that the context keeps as it is. -/
theorem onOneSide_of_kept {ctx : DecimalContext} {rule : ThresholdRule}
    (hkept : ctx.round rule.threshold = rule.threshold) (hthreshold : 0 ≤ rule.threshold)
    (hhysteresis : 0 ≤ rule.hysteresisPercent) (price : ℚ) : rule.OnOneSide ctx price :=
  fun h => not_matches_of_rearms hkept hthreshold hhysteresis h.1 h.2

end ThresholdRule

section Evaluate

variable (ctx : DecimalContext) (rule : ThresholdRule) (previousState : RuleState)
  (lastTriggeredAt : Option ℚ) (now : ℚ) (notifyInitial : Bool)

@[simp] theorem evaluateThreshold_none :
    evaluateThreshold ctx rule previousState none lastTriggeredAt now notifyInitial =
      ⟨.noListings, false⟩ := rfl

/-- The evaluation of a present price, for both conditions. -/
theorem evaluateThreshold_some (price : ℚ) :
    evaluateThreshold ctx rule previousState (some price) lastTriggeredAt now notifyInitial =
      if previousState = .unknown then
        ⟨rule.sideOf price, decide (rule.Matches price) && notifyInitial &&
          cooldownReady lastTriggeredAt now rule.cooldownSeconds⟩
      else if previousState = .noListings then ⟨rule.sideOf price, false⟩
      else if previousState = rule.condition.armedState ∧ rule.Matches price then
        ⟨rule.condition.matchedState, cooldownReady lastTriggeredAt now rule.cooldownSeconds⟩
      else if previousState = rule.condition.matchedState ∧ rule.Rearms ctx price then
        ⟨rule.condition.armedState, false⟩
      else ⟨previousState, false⟩ := by
  obtain ⟨condition, threshold, hysteresisPercent, cooldownSeconds⟩ := rule
  cases condition <;> simp only [evaluateThreshold, decide_eq_true_eq] <;> rfl

@[simp] theorem evaluateThreshold_unknown (price : ℚ) :
    evaluateThreshold ctx rule .unknown (some price) lastTriggeredAt now notifyInitial =
      ⟨rule.sideOf price, decide (rule.Matches price) && notifyInitial &&
        cooldownReady lastTriggeredAt now rule.cooldownSeconds⟩ := by
  simp [evaluateThreshold_some]

@[simp] theorem evaluateThreshold_noListings (price : ℚ) :
    evaluateThreshold ctx rule .noListings (some price) lastTriggeredAt now notifyInitial =
      ⟨rule.sideOf price, false⟩ := by
  simp [evaluateThreshold_some]

@[simp] theorem evaluateThreshold_armed (price : ℚ) :
    evaluateThreshold ctx rule rule.condition.armedState (some price) lastTriggeredAt now
      notifyInitial =
      ⟨rule.sideOf price, decide (rule.Matches price) &&
        cooldownReady lastTriggeredAt now rule.cooldownSeconds⟩ := by
  by_cases h : rule.Matches price
  · simp [evaluateThreshold_some, ThresholdRule.sideOf, h]
  · simp [evaluateThreshold_some, ThresholdRule.sideOf, h,
      (Condition.matchedState_ne_armedState _).symm]

@[simp] theorem evaluateThreshold_matched (price : ℚ) :
    evaluateThreshold ctx rule rule.condition.matchedState (some price) lastTriggeredAt now
      notifyInitial =
      ⟨if rule.Rearms ctx price then rule.condition.armedState else rule.condition.matchedState,
        false⟩ := by
  by_cases h : rule.Rearms ctx price <;> simp [evaluateThreshold_some, h]

variable {ctx rule previousState lastTriggeredAt now notifyInitial}

/-- A triggered evaluation saw a present price that satisfies the condition, with the cooldown
over; it leaves the rule on the matched side, and the state before was armed, or unknown and the
initial notification was asked for. -/
theorem evaluateThreshold_triggered {currentPrice : Option ℚ}
    (h : (evaluateThreshold ctx rule previousState currentPrice lastTriggeredAt now
      notifyInitial).triggered = true) :
    ∃ price, currentPrice = some price ∧ rule.Matches price ∧
      cooldownReady lastTriggeredAt now rule.cooldownSeconds = true ∧
      (evaluateThreshold ctx rule previousState currentPrice lastTriggeredAt now
        notifyInitial).state = rule.condition.matchedState ∧
      (previousState = rule.condition.armedState ∨
        previousState = .unknown ∧ notifyInitial = true) := by
  cases currentPrice with
  | none => simp at h
  | some price =>
    refine ⟨price, rfl, ?_⟩
    rw [evaluateThreshold_some] at h ⊢
    split_ifs at h ⊢ with hunknown hlisted harmed
    · simp only [Bool.and_eq_true, decide_eq_true_eq] at h
      exact ⟨h.1.1, h.2, by simp [ThresholdRule.sideOf, h.1.1], .inr ⟨hunknown, h.1.2⟩⟩
    · exact ⟨harmed.2, h, rfl, .inl harmed.1⟩

/-- A price that satisfies the condition triggers an armed rule, and on request an unknown one, once
the cooldown is over. -/
theorem evaluateThreshold_triggers {price : ℚ} (hmatches : rule.Matches price)
    (hready : cooldownReady lastTriggeredAt now rule.cooldownSeconds = true)
    (hstate : previousState = rule.condition.armedState ∨
      previousState = .unknown ∧ notifyInitial = true) :
    (evaluateThreshold ctx rule previousState (some price) lastTriggeredAt now
      notifyInitial).triggered = true := by
  rcases hstate with rfl | ⟨rfl, rfl⟩
  · simp [hmatches, hready]
  · simp [hmatches, hready]

/-- An evaluation leaves a rule armed only after a present price on the non-matching side, or one
that is on both sides. -/
theorem evaluateThreshold_armed_state {currentPrice : Option ℚ}
    (h : (evaluateThreshold ctx rule previousState currentPrice lastTriggeredAt now
      notifyInitial).state = rule.condition.armedState) :
    ∃ price, currentPrice = some price ∧ (rule.OnOneSide ctx price → ¬ rule.Matches price) := by
  cases currentPrice with
  | none => exact absurd h.symm (by simp)
  | some price =>
    refine ⟨price, rfl, fun honeSide => ?_⟩
    have hside : rule.sideOf price = rule.condition.armedState → ¬ rule.Matches price := by
      intro hside hmatches
      rw [ThresholdRule.sideOf, if_pos hmatches] at hside
      exact rule.condition.matchedState_ne_armedState hside
    rw [evaluateThreshold_some] at h
    split_ifs at h with hunknown hlisted harmed hrearmed
    · exact hside h
    · exact hside h
    · exact absurd h rule.condition.matchedState_ne_armedState
    · exact fun hmatches => honeSide ⟨hrearmed.2, hmatches⟩
    · exact fun hmatches => harmed ⟨h, hmatches⟩

end Evaluate

end DonutMonitor
