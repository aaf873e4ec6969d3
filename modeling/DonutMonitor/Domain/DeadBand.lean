import DonutMonitor.Domain.Evaluator
import DonutMonitor.Foundations.HalfEven

/-!
# The dead band under decimal rounding

A constant price settles: evaluated twice in a row, it neither moves a rule nor triggers it the
second time. What this takes is that no price is on both sides of the dead band, matching the
condition and beyond the re-arm price. A positive hysteresis keeps the two apart by far more than
the rounding moves the re-arm price. Without hysteresis the re-arm price is the threshold rounded to
28 digits, which is on the wrong side of a threshold of 29 or 30 digits when the digits that do not
fit are rounded towards it.

## Main definitions

* `ThresholdRule.Settles` — the second of two evaluations of a price changes nothing.
* `ThresholdRule.InRoundingGap` — the price is between the threshold and its rounding.

## Main results

* `ThresholdRule.settles_iff_onOneSide` — a price settles if it is not on both sides of the band.
* `ThresholdRule.onOneSide_iff`, `ThresholdRule.settles_iff` — for the thresholds and the hysteresis
  that the columns hold.
* `ThresholdRule.not_settles` — at a threshold of 29 digits without hysteresis.
-/

namespace DonutMonitor

/-- The context of the decimal arithmetic: 28 digits, half to even. -/
def defaultContext : DecimalContext := .halfEven 28 (by norm_num)

/-- A value that a `Numeric(precision, scale)` column holds. -/
def IsNumeric (precision scale : ℕ) (q : ℚ) : Prop :=
  ∃ units : ℤ, |units| < 10 ^ precision ∧ q = units / 10 ^ scale

/-- The units of a positive value. -/
theorem IsNumeric.exists_pos {precision scale : ℕ} {q : ℚ} (h : IsNumeric precision scale q)
    (hq : 0 < q) : ∃ units : ℤ, 0 < units ∧ units < 10 ^ precision ∧ q = units / 10 ^ scale := by
  obtain ⟨units, hunits, rfl⟩ := h
  have hpos : 0 < units := by
    rw [lt_div_iff₀ (by positivity), zero_mul] at hq
    exact_mod_cast hq
  exact ⟨units, hpos, abs_of_pos hpos ▸ hunits, rfl⟩

/-! ### The digits of a threshold that do not fit -/

/-- The unit of the last of 28 digits, for an amount in units of the last of 30 digits. -/
def keptUnit (units : ℤ) : ℕ :=
  if units < 10 ^ 28 then 1 else if units < 10 ^ 29 then 10 else 100

/-- The digits below the last kept one are less than half of its unit, or half of it and the last
kept digit is even. -/
def RoundsDown (units : ℤ) : Prop :=
  2 * (units % keptUnit units) < keptUnit units ∨
    2 * (units % keptUnit units) = keptUnit units ∧ units / keptUnit units % 2 = 0

instance (units : ℤ) : Decidable (RoundsDown units) :=
  inferInstanceAs (Decidable (_ ∨ _ ∧ _))

/-- The amount without the digits that do not fit. -/
def truncated (units : ℤ) : ℤ := units / keptUnit units * keptUnit units

theorem keptUnit_pos (units : ℤ) : 0 < keptUnit units := by
  unfold keptUnit
  split_ifs <;> norm_num

theorem truncated_le (units : ℤ) : truncated units ≤ units :=
  Int.ediv_mul_le _ (by exact_mod_cast (keptUnit_pos units).ne')

theorem lt_truncated_add (units : ℤ) : units < truncated units + keptUnit units := by
  have := Int.lt_ediv_add_one_mul_self units (b := keptUnit units)
    (by exact_mod_cast keptUnit_pos units)
  rwa [add_mul, one_mul] at this

/-- An amount of 28 digits and some that do not fit is rounded to the unit of its 28th digit. -/
private theorem round_of_digits {units : ℤ} {digits : ℕ} (hlow : 10 ^ (27 + digits) ≤ units)
    (hhigh : units < 10 ^ (28 + digits)) :
    defaultContext.round (units / 10 ^ 8) =
      ((roundHalfEven (units / (10 ^ digits : ℕ)) * 10 ^ digits : ℤ) : ℚ) / 10 ^ 8 := by
  have hlow' : (10 : ℚ) ^ (27 + digits) ≤ units := by exact_mod_cast hlow
  have hhigh' : (units : ℚ) < 10 ^ (28 + digits) := by exact_mod_cast hhigh
  have hunit : DecimalContext.lastUnit 28 (units / 10 ^ 8 : ℚ) = 10 ^ digits / 10 ^ 8 := by
    have hexponent : (19 + digits + 1 - (28 : ℕ) : ℤ) = digits - (8 : ℕ) := by
      push_cast
      ring
    rw [← zpow_natCast, ← zpow_natCast, ← zpow_sub₀ (by norm_num), ← hexponent]
    refine DecimalContext.lastUnit_eq ?_ ?_
    · rw [le_div_iff₀ (by norm_num), zpow_add₀ (by norm_num), zpow_natCast]
      calc (10 : ℚ) ^ (19 : ℤ) * 10 ^ digits * 10 ^ 8 = 10 ^ (27 + digits) := by ring
        _ ≤ units := hlow'
    · rw [div_lt_iff₀ (by norm_num), zpow_add₀ (by norm_num), zpow_add₀ (by norm_num), zpow_natCast]
      calc (units : ℚ) < 10 ^ (28 + digits) := hhigh'
        _ = 10 ^ (19 : ℤ) * 10 ^ digits * 10 ^ (1 : ℤ) * 10 ^ 8 := by ring
  have hquotient : (units / 10 ^ 8 : ℚ) / (10 ^ digits / 10 ^ 8) = units / (10 ^ digits : ℕ) := by
    push_cast
    field_simp
  change DecimalContext.significant 28 _ = _
  rw [DecimalContext.significant, hunit, hquotient]
  push_cast
  ring

/-- The rounding of an amount of at most 30 digits. -/
theorem defaultContext_round {units : ℤ} (hpos : 0 < units) (hunits : units < 10 ^ 30) :
    defaultContext.round (units / 10 ^ 8) =
      ((if RoundsDown units then truncated units else truncated units + keptUnit units : ℤ) : ℚ) /
        10 ^ 8 := by
  by_cases h28 : units < 10 ^ 28
  · have hkept : defaultContext.round (units * 10 ^ (-8 : ℤ)) = units * 10 ^ (-8 : ℤ) :=
      DecimalContext.significant_mul_zpow (by norm_num) (by rw [abs_of_pos hpos]; exact h28.le)
    have hunit : keptUnit units = 1 := if_pos h28
    have hdown : RoundsDown units := by simp [RoundsDown, hunit]
    rw [if_pos hdown, truncated, hunit]
    simpa [zpow_neg, div_eq_mul_inv] using hkept
  · obtain ⟨digits, hdigits, hunit⟩ : ∃ digits : ℕ,
        (10 ^ (27 + digits) ≤ units ∧ units < 10 ^ (28 + digits)) ∧
          keptUnit units = 10 ^ digits := by
      by_cases h29 : units < 10 ^ 29
      · exact ⟨1, ⟨not_lt.mp h28, h29⟩, by
          rw [keptUnit, if_neg h28, if_pos h29, pow_one]⟩
      · exact ⟨2, ⟨not_lt.mp h29, hunits⟩, by
          rw [keptUnit, if_neg h28, if_neg h29]
          norm_num⟩
    have hround : roundHalfEven (units / keptUnit units) =
        if RoundsDown units then units / keptUnit units else units / keptUnit units + 1 :=
      roundHalfEven_div units (keptUnit_pos units)
    have hunit' : (10 : ℤ) ^ digits = keptUnit units := by rw [hunit]; push_cast; rfl
    rw [round_of_digits hdigits.1 hdigits.2, ← hunit, hround, hunit']
    congr 2
    split_ifs
    · rfl
    · rw [truncated, add_mul, one_mul]

/-! ### The two sides of the band -/

namespace ThresholdRule

variable (ctx : DecimalContext) (rule : ThresholdRule)

/-- The price is between the threshold and the threshold rounded to 28 digits, on the side on which
it matches. -/
def InRoundingGap (price : ℚ) : Prop :=
  let units := ⌊rule.threshold * 10 ^ 8⌋
  match rule.condition with
  | .priceDown =>
    RoundsDown units ∧ (truncated units : ℚ) / 10 ^ 8 < price ∧ price ≤ rule.threshold
  | .priceUp =>
    ¬ RoundsDown units ∧ rule.threshold ≤ price ∧
      price < ((truncated units + keptUnit units : ℤ) : ℚ) / 10 ^ 8

/-- Of two evaluations of a price in a row, the second keeps the state and does not trigger. -/
def Settles (state : RuleState) (price : ℚ) (last last' : Option ℚ) (now now' : ℚ)
    (notifyInitial notifyInitial' : Bool) : Prop :=
  let first := evaluateThreshold ctx rule state (some price) last now notifyInitial
  let second := evaluateThreshold ctx rule first.state (some price) last' now' notifyInitial'
  second.state = first.state ∧ second.triggered = false

variable {ctx rule}

section Settles

variable {state : RuleState} {price : ℚ} {last last' : Option ℚ} {now now' : ℚ}
  {notifyInitial notifyInitial' : Bool}

private theorem evaluateThreshold_state_of_ne (hstate : state ≠ rule.condition.matchedState) :
    (evaluateThreshold ctx rule state (some price) last now notifyInitial).state =
      rule.sideOf price := by
  by_cases hunknown : state = .unknown
  · rw [hunknown, evaluateThreshold_unknown]
  · by_cases hmissing : state = .noListings
    · rw [hmissing, evaluateThreshold_noListings]
    · obtain rfl := (rule.condition.eq_matchedState_or_armedState hunknown hmissing).resolve_left
        hstate
      rw [evaluateThreshold_armed]

private theorem stays_matched_iff :
    ((evaluateThreshold ctx rule rule.condition.matchedState (some price) last now
        notifyInitial).state = rule.condition.matchedState ∧
      (evaluateThreshold ctx rule rule.condition.matchedState (some price) last now
        notifyInitial).triggered = false) ↔ ¬ rule.Rearms ctx price := by
  rw [evaluateThreshold_matched]
  by_cases hrearms : rule.Rearms ctx price
  · simp [hrearms, (rule.condition.matchedState_ne_armedState).symm]
  · simp [hrearms]

private theorem stays_armed_iff :
    ((evaluateThreshold ctx rule rule.condition.armedState (some price) last now
        notifyInitial).state = rule.condition.armedState ∧
      (evaluateThreshold ctx rule rule.condition.armedState (some price) last now
        notifyInitial).triggered = false) ↔ ¬ rule.Matches price := by
  rw [evaluateThreshold_armed]
  by_cases hmatches : rule.Matches price
  · simp [hmatches, sideOf]
  · simp [hmatches, sideOf]

/-- A price settles unless it is on both sides of the band: it matches, and it is beyond the re-arm
price. -/
theorem settles_iff_onOneSide :
    rule.Settles ctx state price last last' now now' notifyInitial notifyInitial' ↔
      rule.OnOneSide ctx price := by
  rw [OnOneSide]
  by_cases hstate : state = rule.condition.matchedState
  · by_cases hrearms : rule.Rearms ctx price
    · have hfirst : (evaluateThreshold ctx rule state (some price) last now notifyInitial).state =
          rule.condition.armedState := by
        rw [hstate, evaluateThreshold_matched, if_pos hrearms]
      rw [Settles, hfirst, stays_armed_iff]
      simp [hrearms]
    · have hfirst : (evaluateThreshold ctx rule state (some price) last now notifyInitial).state =
          rule.condition.matchedState := by
        rw [hstate, evaluateThreshold_matched, if_neg hrearms]
      rw [Settles, hfirst, stays_matched_iff]
      simp [hrearms]
  · rw [Settles, evaluateThreshold_state_of_ne hstate, sideOf]
    by_cases hmatches : rule.Matches price
    · rw [if_pos hmatches, stays_matched_iff]
      simp [hmatches]
    · rw [if_neg hmatches, stays_armed_iff]
      simp [hmatches]

end Settles

/-! ### Numeric columns -/

section Numeric

variable {price : ℚ}

/-- A hysteresis that the column holds is not rounded, and neither is its sum with one or its
difference from one. -/
private theorem round_hysteresis {percent : ℚ} (h : IsNumeric 8 4 percent) :
    defaultContext.round (percent / 100) = percent / 100 ∧
      defaultContext.round (1 + percent / 100) = 1 + percent / 100 ∧
      defaultContext.round (1 - percent / 100) = 1 - percent / 100 := by
  obtain ⟨units, hunits, rfl⟩ := h
  have hkept (m : ℤ) (hm : |m| ≤ 10 ^ 28) :
      defaultContext.round (m * 10 ^ (-6 : ℤ)) = m * 10 ^ (-6 : ℤ) :=
    DecimalContext.significant_mul_zpow (by norm_num) hm
  rw [abs_lt] at hunits
  refine ⟨?_, ?_, ?_⟩
  · convert hkept units (abs_le.mpr (by omega)) using 2 <;> ring
  · convert hkept (10 ^ 6 + units) (abs_le.mpr (by omega)) using 2 <;> push_cast <;> ring
  · convert hkept (10 ^ 6 - units) (abs_le.mpr (by omega)) using 2 <;> push_cast <;> ring

/-- Below 28 digits the threshold is kept, so that no price is on both sides. -/
private theorem onOneSide_of_short {units : ℤ} (hpos : 0 < units) (hunits : units < 10 ^ 28)
    (hthreshold : rule.threshold = units / 10 ^ 8) (hhysteresis : 0 ≤ rule.hysteresisPercent) :
    rule.OnOneSide defaultContext price := by
  have hkept : defaultContext.round (units * 10 ^ (-8 : ℤ)) = units * 10 ^ (-8 : ℤ) :=
    DecimalContext.significant_mul_zpow (by norm_num) (by rw [abs_of_pos hpos]; exact hunits.le)
  have hthreshold' : rule.threshold = units * 10 ^ (-8 : ℤ) := by
    rw [hthreshold, zpow_neg, div_eq_mul_inv]
    rfl
  refine onOneSide_of_kept ?_ ?_ hhysteresis price
  · rw [hthreshold', hkept]
  · rw [hthreshold]
    exact div_nonneg (by exact_mod_cast hpos.le) (by norm_num)

/-- A multiple of the unit of the 28th digit of a threshold of 30 digits is kept. -/
private theorem round_hundreds {m : ℤ} (hm : |m| ≤ 10 ^ 28) :
    defaultContext.round (m * (1 / 10 ^ 6)) = m * (1 / 10 ^ 6) := by
  have hkept : defaultContext.round (m * 10 ^ (-6 : ℤ)) = m * 10 ^ (-6 : ℤ) :=
    DecimalContext.significant_mul_zpow (by norm_num) hm
  rwa [show (10 : ℚ) ^ (-6 : ℤ) = 1 / 10 ^ 6 by norm_num] at hkept

/-- From 29 digits on, a positive hysteresis moves the re-arm price by more than the unit of the
28th digit. -/
private theorem unit_le_band {threshold percent : ℚ} (hthreshold : 10 ^ 20 ≤ threshold)
    (hhysteresis : IsNumeric 8 4 percent) (hpercent : 0 < percent) :
    1 / 10 ^ 6 ≤ threshold * (percent / 100) := by
  obtain ⟨hundredths, hpos, -, rfl⟩ := hhysteresis.exists_pos hpercent
  have hone : (1 : ℚ) ≤ hundredths := by exact_mod_cast hpos
  have hband : 1 / 10 ^ 6 ≤ (hundredths : ℚ) / 10 ^ 4 / 100 := by linarith
  calc (1 : ℚ) / 10 ^ 6 ≤ 10 ^ 20 * (1 / 10 ^ 6) := by norm_num
    _ ≤ threshold * (hundredths / 10 ^ 4 / 100) :=
      mul_le_mul hthreshold hband (by norm_num) ((by norm_num : (0 : ℚ) ≤ 10 ^ 20).trans hthreshold)

/-- A positive hysteresis moves the re-arm price by far more than its rounding. -/
theorem onOneSide_of_hysteresis_pos (hthreshold : IsNumeric 30 8 rule.threshold)
    (hpos : 0 < rule.threshold) (hhysteresis : IsNumeric 8 4 rule.hysteresisPercent)
    (hpercent : 0 < rule.hysteresisPercent) : rule.OnOneSide defaultContext price := by
  obtain ⟨units, hunitsPos, hunits, hunitsEq⟩ := hthreshold.exists_pos hpos
  by_cases h28 : units < 10 ^ 28
  · exact onOneSide_of_short hunitsPos h28 hunitsEq hpercent.le
  obtain ⟨hband, habove, hbelow⟩ := round_hysteresis hhysteresis
  have hunits28 : (10 : ℚ) ^ 28 ≤ units := by exact_mod_cast not_lt.mp h28
  have hthreshold : 10 ^ 20 ≤ rule.threshold := by
    rw [hunitsEq]
    linarith
  have hwide := unit_le_band hthreshold hhysteresis hpercent
  -- The threshold lies between two multiples of the unit that are kept.
  have hlow : ((units / 100 : ℤ) : ℚ) * (1 / 10 ^ 6) ≤ rule.threshold := by
    have : ((units / 100 * 100 : ℤ) : ℚ) ≤ units := by
      exact_mod_cast Int.ediv_mul_le _ (by norm_num)
    push_cast at this
    rw [hunitsEq]
    linarith
  have hhigh : rule.threshold ≤ ((units / 100 + 1 : ℤ) : ℚ) * (1 / 10 ^ 6) := by
    have : (units : ℚ) ≤ ((units / 100 + 1) * 100 : ℤ) := by
      exact_mod_cast (Int.lt_ediv_add_one_mul_self units (by norm_num)).le
    push_cast at this ⊢
    rw [hunitsEq]
    linarith
  rintro ⟨hrearms, hmatches⟩
  cases hc : rule.condition with
  | priceDown =>
    simp only [Rearms, rearmPrice, Matches, hc, hband, habove] at hrearms hmatches
    have hle := defaultContext.round_mono
      (show ((units / 100 + 1 : ℤ) : ℚ) * (1 / 10 ^ 6) ≤
        rule.threshold * (1 + rule.hysteresisPercent / 100) by
        push_cast at hlow ⊢
        linarith)
    rw [round_hundreds (abs_le.mpr (by omega))] at hle
    linarith
  | priceUp =>
    simp only [Rearms, rearmPrice, Matches, hc, hband, hbelow] at hrearms hmatches
    have hle := defaultContext.round_mono
      (show rule.threshold * (1 - rule.hysteresisPercent / 100) ≤
        ((units / 100 : ℤ) : ℚ) * (1 / 10 ^ 6) by
        push_cast at hhigh ⊢
        linarith)
    rw [round_hundreds (abs_le.mpr (by omega))] at hle
    linarith

/-- Without hysteresis, the prices on both sides are those between the threshold and its
rounding. -/
theorem rearms_iff_inRoundingGap (hthreshold : IsNumeric 30 8 rule.threshold)
    (hpos : 0 < rule.threshold) (hpercent : rule.hysteresisPercent = 0) :
    rule.Rearms defaultContext price ∧ rule.Matches price ↔ rule.InRoundingGap price := by
  obtain ⟨units, hunitsPos, hunits, hunitsEq⟩ := hthreshold.exists_pos hpos
  have hfloor : ⌊rule.threshold * 10 ^ 8⌋ = units := by
    rw [hunitsEq, div_mul_cancel₀ _ (by norm_num), Int.floor_intCast]
  have hround := defaultContext_round hunitsPos hunits
  rw [← hunitsEq] at hround
  have hgap : (truncated units : ℚ) / 10 ^ 8 ≤ rule.threshold ∧
      rule.threshold < ((truncated units + keptUnit units : ℤ) : ℚ) / 10 ^ 8 := by
    rw [hunitsEq, div_le_div_iff_of_pos_right (by norm_num),
      div_lt_div_iff_of_pos_right (by norm_num)]
    exact ⟨by exact_mod_cast truncated_le units, by exact_mod_cast lt_truncated_add units⟩
  cases hc : rule.condition with
  | priceDown =>
    simp only [Rearms, rearmPrice, Matches, InRoundingGap, hc, hpercent, hfloor, zero_div,
      DecimalContext.round_zero, add_zero, DecimalContext.round_one, mul_one, hround]
    split_ifs with hdown
    · simp [hdown]
    · simp only [hdown, false_and, iff_false, not_and]
      exact fun h h' => absurd (h.trans_le h') hgap.2.not_gt
  | priceUp =>
    simp only [Rearms, rearmPrice, Matches, InRoundingGap, hc, hpercent, hfloor, zero_div,
      DecimalContext.round_zero, sub_zero, DecimalContext.round_one, mul_one, hround]
    split_ifs with hdown
    · simp only [hdown, not_true_eq_false, false_and, iff_false, not_and]
      exact fun h h' => absurd (h'.trans_lt h) hgap.1.not_gt
    · simp [hdown, and_comm]

/-- With the values that the columns hold, a price is on one side if and only if there is a
hysteresis, or the price is not between the threshold and its rounding. -/
theorem onOneSide_iff (hthreshold : IsNumeric 30 8 rule.threshold) (hpos : 0 < rule.threshold)
    (hhysteresis : IsNumeric 8 4 rule.hysteresisPercent) (hnonneg : 0 ≤ rule.hysteresisPercent) :
    rule.OnOneSide defaultContext price ↔
      ¬ (rule.hysteresisPercent = 0 ∧ rule.InRoundingGap price) := by
  rcases hnonneg.eq_or_lt with hzero | hpercent
  · rw [OnOneSide, rearms_iff_inRoundingGap hthreshold hpos hzero.symm]
    simp [hzero.symm]
  · simp [onOneSide_of_hysteresis_pos hthreshold hpos hhysteresis hpercent, hpercent.ne']

/-- A price settles in a rule that the columns hold if and only if there is a hysteresis, or the
price is not between the threshold and its rounding. -/
theorem settles_iff (rule : ThresholdRule) (hthreshold : IsNumeric 30 8 rule.threshold)
    (hpos : 0 < rule.threshold) (hhysteresis : IsNumeric 8 4 rule.hysteresisPercent)
    (hnonneg : 0 ≤ rule.hysteresisPercent) (state : RuleState) (price : ℚ) (last last' : Option ℚ)
    (now now' : ℚ) (notifyInitial notifyInitial' : Bool) :
    rule.Settles defaultContext state price last last' now now' notifyInitial notifyInitial' ↔
      ¬ (rule.hysteresisPercent = 0 ∧ rule.InRoundingGap price) := by
  rw [settles_iff_onOneSide, onOneSide_iff hthreshold hpos hhysteresis hnonneg]

/-- A threshold of 100 with 2% hysteresis. -/
theorem settles_iff_elytra :
    Settles defaultContext ⟨.priceDown, 100, 2, 60⟩ .unknown 100 none (some 0) 0 60 true false ↔
      ¬ ((2 : ℚ) = 0 ∧ InRoundingGap ⟨.priceDown, 100, 2, 60⟩ 100) :=
  settles_iff ⟨.priceDown, 100, 2, 60⟩ ⟨10 ^ 10, by norm_num, by norm_num⟩ (by norm_num)
    ⟨20000, by norm_num, by norm_num⟩ (by norm_num) .unknown 100 none (some 0) 0 60 true false

/-- A threshold of 29 digits without hysteresis: its own price matches, and it is beyond the re-arm
price, which has lost the last digit. -/
theorem not_settles :
    ¬ ∀ (rule : ThresholdRule) (state : RuleState) (price : ℚ) (last last' : Option ℚ)
      (now now' : ℚ) (notifyInitial notifyInitial' : Bool),
      IsNumeric 30 8 rule.threshold → 0 < rule.threshold → IsNumeric 8 4 rule.hysteresisPercent →
      0 ≤ rule.hysteresisPercent →
      rule.Settles defaultContext state price last last' now now' notifyInitial notifyInitial' := by
  intro h
  have hthreshold : IsNumeric 30 8 ((10 ^ 28 + 1 : ℤ) / 10 ^ 8) := ⟨10 ^ 28 + 1, by norm_num, rfl⟩
  have hpos : (0 : ℚ) < (10 ^ 28 + 1 : ℤ) / 10 ^ 8 := by norm_num
  have hsettles := h ⟨.priceDown, (10 ^ 28 + 1 : ℤ) / 10 ^ 8, 0, 60⟩ .unknown
    ((10 ^ 28 + 1 : ℤ) / 10 ^ 8) none none 0 60 false false hthreshold hpos
    ⟨0, by norm_num, by norm_num⟩ le_rfl
  rw [settles_iff_onOneSide, OnOneSide, rearms_iff_inRoundingGap hthreshold hpos rfl] at hsettles
  have hfloor : ⌊((10 ^ 28 + 1 : ℤ) / 10 ^ 8 * 10 ^ 8 : ℚ)⌋ = 10 ^ 28 + 1 := by
    rw [div_mul_cancel₀ _ (by norm_num), Int.floor_intCast]
  have htruncated : truncated (10 ^ 28 + 1) = 10 ^ 28 := by decide
  simp only [InRoundingGap, hfloor, htruncated] at hsettles
  exact hsettles ⟨by decide, by norm_num, le_rfl⟩

end Numeric

end ThresholdRule

end DonutMonitor
