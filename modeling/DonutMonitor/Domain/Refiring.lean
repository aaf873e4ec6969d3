import DonutMonitor.Core.Config
import DonutMonitor.Domain.DeadBand
import DonutMonitor.Domain.Hysteresis
import DonutMonitor.Domain.Schemas
import Mathlib.Tactic.NormNum

/-!
# Whether a rule can fire again

A rule on the matched side fires again once a price has armed it. Prices are not negative, so that
a rule for rising prices whose re-arm price is zero cannot be armed again: at a hysteresis of 100
percent it stays above its threshold as long as there are listings. In every other case two prices
are enough.

## Main definitions

* `ThresholdRule.CanFire` — some sequence of prices makes the rule trigger.
* `ThresholdRule.Stuck` — no price of a listing arms the rule.

## Main results

* `ThresholdRule.canFire_iff_rearmPrice` — a rule can fire unless its re-arm price is out of reach.
* `ThresholdRule.canFire_iff` — in terms of the hysteresis, which settings admit up to 100, in exact
  arithmetic and in that of 28 digits.
-/

namespace DonutMonitor

/-- The prices of auction listings. -/
theorem AuctionListing.exists_price {price : ℚ} :
    (∃ listing : AuctionListing, listing.price = price) ↔ 0 ≤ price :=
  ⟨fun ⟨listing, h⟩ => h ▸ listing.price_nonneg,
    fun h => ⟨{ AuctionListing.elytra 0 with price := price, price_nonneg := h }, rfl⟩⟩

namespace ThresholdRule

variable (ctx : DecimalContext) (rule : ThresholdRule)

/-- Present prices of listings from a time on, in the order of time, none of which is to notify an
initial match. -/
structure Offered (now : ℚ) (os : List Observation) : Prop where
  price : ∀ o ∈ os, ∃ listing : AuctionListing, o.price = some listing.price
  time : ∀ o ∈ os, now ≤ o.observedAt
  sorted : os.Pairwise fun o o' => o.observedAt ≤ o'.observedAt
  quiet : ∀ o ∈ os, o.notifyInitial = false

/-- Some sequence of present prices from a time on makes the rule trigger. -/
def CanFire (w : WatchState) (now : ℚ) : Prop :=
  ∃ os o, Offered now (os ++ [o]) ∧
    (rule.evaluate ctx (rule.observeAll ctx w os) o).triggered = true

variable {ctx rule}

/-! ### Rules that cannot fire -/

/-- A rule for rising prices that no price arms. -/
structure Stuck (ctx : DecimalContext) (rule : ThresholdRule) (w : WatchState) : Prop where
  condition : rule.condition = .priceUp
  rearmPrice : rule.rearmPrice ctx ≤ 0
  state : w.state = .aboveThreshold

theorem Stuck.matched {w : WatchState} (h : rule.Stuck ctx w) :
    w.state = rule.condition.matchedState := by
  rw [h.state, h.condition]
  rfl

theorem Stuck.not_rearms {w : WatchState} (h : rule.Stuck ctx w) {price : ℚ} (hprice : 0 ≤ price) :
    ¬ rule.Rearms ctx price := by
  rw [Rearms, h.condition]
  exact not_lt.mpr (h.rearmPrice.trans hprice)

/-- A price that a listing can have leaves a stuck rule where it is, without an alert. -/
theorem Stuck.evaluate {w : WatchState} (h : rule.Stuck ctx w) {o : Observation} {price : ℚ}
    (hprice : o.price = some price) (hnonneg : 0 ≤ price) :
    rule.evaluate ctx w o = ⟨rule.condition.matchedState, false⟩ := by
  rw [ThresholdRule.evaluate, hprice, h.matched, evaluateThreshold_matched,
    if_neg (h.not_rearms hnonneg)]

theorem Stuck.observe {w : WatchState} (h : rule.Stuck ctx w) {o : Observation} {price : ℚ}
    (hprice : o.price = some price) (hnonneg : 0 ≤ price) :
    rule.Stuck ctx (rule.observe ctx w o) where
  condition := h.condition
  rearmPrice := h.rearmPrice
  state := by
    rw [ThresholdRule.observe, h.evaluate hprice hnonneg, h.condition]
    rfl

theorem Stuck.observeAll {w : WatchState} (h : rule.Stuck ctx w) {os : List Observation}
    (hprices : ∀ o ∈ os, ∃ listing : AuctionListing, o.price = some listing.price) :
    rule.Stuck ctx (rule.observeAll ctx w os) := by
  induction os using List.reverseRecOn with
  | nil => exact h
  | append_singleton os o ih =>
    obtain ⟨listing, hlisting⟩ := hprices o (by simp)
    rw [observeAll_concat]
    exact (ih fun o' ho' => hprices o' (List.mem_append_left _ ho')).observe hlisting
      listing.price_nonneg

theorem Stuck.not_canFire {w : WatchState} (h : rule.Stuck ctx w) (now : ℚ) :
    ¬ rule.CanFire ctx w now := by
  rintro ⟨os, o, hoffered, htriggered⟩
  have hstuck := h.observeAll fun o' ho' => hoffered.price o' (List.mem_append_left _ ho')
  obtain ⟨listing, hlisting⟩ := hoffered.price o (by simp)
  rw [hstuck.evaluate hlisting listing.price_nonneg] at htriggered
  cases htriggered

/-! ### Rules that can -/

/-- A price that does not match arms a rule, on the matched side when it is beyond the re-arm
price. -/
theorem observe_arms {w : WatchState} {o : Observation} {price : ℚ} (hprice : o.price = some price)
    (hnotify : o.notifyInitial = false) (hmatches : ¬ rule.Matches price)
    (hrearms : w.state = rule.condition.matchedState → rule.Rearms ctx price) :
    rule.observe ctx w o = ⟨rule.condition.armedState, w.lastTriggeredAt⟩ := by
  have hevaluate : rule.evaluate ctx w o = ⟨rule.condition.armedState, false⟩ := by
    rw [evaluate, hprice, hnotify]
    by_cases hunknown : w.state = .unknown
    · simp [hunknown, sideOf, hmatches]
    · by_cases hmissing : w.state = .noListings
      · simp [hmissing, sideOf, hmatches]
      · rcases rule.condition.eq_matchedState_or_armedState hunknown hmissing with hside | hside
        · simp [hside, hrearms hside]
        · simp [hside, sideOf, hmatches]
  rw [observe, hevaluate]
  rfl

/-- The threshold itself matches. -/
theorem matches_threshold (rule : ThresholdRule) : rule.Matches rule.threshold := by
  rw [Matches]
  cases rule.condition <;> exact le_rfl

/-- Once a price can arm the rule, that price and the threshold make it trigger, when the cooldown
is over. -/
theorem canFire_of_arms {w : WatchState} (now : ℚ) {price : ℚ} (hnonneg : 0 ≤ price)
    (hthreshold : 0 < rule.threshold) (hmatches : ¬ rule.Matches price)
    (hrearms : w.state = rule.condition.matchedState → rule.Rearms ctx price) :
    rule.CanFire ctx w now := by
  obtain ⟨arming, harming⟩ := AuctionListing.exists_price.mpr hnonneg
  obtain ⟨firing, hfiring⟩ := AuctionListing.exists_price.mpr hthreshold.le
  -- both prices come after the cooldown
  obtain ⟨time, hnow, hready⟩ : ∃ time, now ≤ time ∧
      cooldownReady w.lastTriggeredAt time rule.cooldownSeconds = true := by
    cases hlast : w.lastTriggeredAt with
    | none => exact ⟨now, le_rfl, rfl⟩
    | some last =>
      exact ⟨max now (last + rule.cooldownSeconds), le_max_left _ _,
        decide_eq_true (le_max_right _ _)⟩
  refine ⟨[⟨some price, time, false⟩], ⟨some rule.threshold, time, false⟩, ⟨?_, ?_, ?_, ?_⟩, ?_⟩
  · simp only [List.cons_append, List.nil_append, List.forall_mem_cons]
    exact ⟨⟨arming, by rw [harming]⟩, ⟨firing, by rw [hfiring]⟩, nofun⟩
  · simp [hnow]
  · simp
  · simp
  · have harmed : rule.observeAll ctx w [⟨some price, time, false⟩] =
        ⟨rule.condition.armedState, w.lastTriggeredAt⟩ := observe_arms rfl rfl hmatches hrearms
    rw [harmed]
    exact evaluateThreshold_triggers rule.matches_threshold hready (.inl rfl)

/-- A rule can fire unless it is stuck above a threshold whose re-arm price no listing is below. -/
theorem canFire_iff_rearmPrice (hthreshold : 0 < rule.threshold) (w : WatchState) (now : ℚ) :
    rule.CanFire ctx w now ↔ ¬ rule.Stuck ctx w := by
  refine ⟨fun hfire hstuck => hstuck.not_canFire now hfire, fun hfree => ?_⟩
  cases hcondition : rule.condition with
  | priceDown =>
    -- any price above the threshold and the re-arm price arms the rule
    have habove : rule.threshold < max rule.threshold (rule.rearmPrice ctx) + 1 :=
      (le_max_left _ _).trans_lt (lt_add_one _)
    refine canFire_of_arms now (hthreshold.trans habove).le hthreshold ?_ fun _ => ?_
    · rw [Matches, hcondition]
      exact not_le.mpr habove
    · rw [Rearms, hcondition]
      exact (le_max_right _ _).trans_lt (lt_add_one _)
  | priceUp =>
    -- the price zero arms the rule wherever it is, unless it is stuck
    refine canFire_of_arms now le_rfl hthreshold ?_ fun hmatched => ?_
    · rw [Matches, hcondition]
      exact not_le.mpr hthreshold
    · rw [Rearms, hcondition]
      by_contra hrearm
      exact hfree ⟨hcondition, not_lt.mp hrearm, by rw [hmatched, hcondition]; rfl⟩

/-- Where rounding keeps the percentage and takes no positive value to zero, the re-arm price of a
rule for rising prices is positive unless the hysteresis is 100 percent. -/
theorem rearmPrice_nonpos_iff (hcondition : rule.condition = .priceUp)
    (hthreshold : 0 < rule.threshold) (hadmitted : rule.hysteresisPercent ≤ 100)
    (hpositive : ∀ q, 0 < q → 0 < ctx.round q)
    (hkept : ctx.round (rule.hysteresisPercent / 100) = rule.hysteresisPercent / 100) :
    rule.rearmPrice ctx ≤ 0 ↔ rule.hysteresisPercent = 100 := by
  rw [rearmPrice, hcondition]
  simp only [hkept]
  constructor
  · intro hrearm
    by_contra hpart
    have hband : 0 < 1 - rule.hysteresisPercent / 100 := by
      linarith [lt_of_le_of_ne hadmitted hpart]
    exact hrearm.not_gt (hpositive _ (mul_pos hthreshold (hpositive _ hband)))
  · intro hfull
    rw [hfull, div_self (by norm_num), sub_self, ctx.round_zero, mul_zero, ctx.round_zero]

/-- A percentage of at most 28 significant digits. The text of a float has at most 17. -/
def IsShort (percent : ℚ) : Prop := ∃ digits exponent : ℤ, |digits| ≤ 10 ^ 28 ∧
  percent = digits * 10 ^ exponent

/-- Its hundredth is kept by the arithmetic. -/
theorem IsShort.round_div {percent : ℚ} (h : IsShort percent) :
    defaultContext.round (percent / 100) = percent / 100 := by
  obtain ⟨digits, exponent, hdigits, rfl⟩ := h
  have hshift : (digits * 10 ^ exponent / 100 : ℚ) = digits * 10 ^ (exponent - 2) := by
    rw [zpow_sub₀ (by norm_num)]
    norm_num [mul_div_assoc]
  rw [hshift]
  exact DecimalContext.significant_mul_zpow (by norm_num) hdigits

/-- With a hysteresis that settings admit, a rule can fire from every state, at every last trigger
time and from every time on, unless it watches for rising prices with a hysteresis of 100 percent
and is above its threshold. This holds in exact arithmetic, and in that of 28 digits for the
percentages that settings hold. -/
theorem canFire_iff (ctx : DecimalContext) (rule : ThresholdRule) (w : WatchState) (now : ℚ)
    (hctx : ctx = .exact ∨ ctx = defaultContext ∧ IsShort rule.hysteresisPercent)
    (hthreshold : 0 < rule.threshold) (hadmitted : rule.hysteresisPercent ≤ 100) :
    rule.CanFire ctx w now ↔ ¬ (rule.condition = .priceUp ∧ rule.hysteresisPercent = 100 ∧
      w.state = .aboveThreshold) := by
  have hrearm (hcondition : rule.condition = .priceUp) :
      rule.rearmPrice ctx ≤ 0 ↔ rule.hysteresisPercent = 100 := by
    rcases hctx with rfl | ⟨rfl, hshort⟩
    · exact rearmPrice_nonpos_iff hcondition hthreshold hadmitted (fun _ hq => hq) rfl
    · exact rearmPrice_nonpos_iff hcondition hthreshold hadmitted
        (fun _ hq => DecimalContext.significant_pos (by norm_num) hq) hshort.round_div
  rw [canFire_iff_rearmPrice hthreshold]
  exact not_congr ⟨fun h => ⟨h.condition, (hrearm h.condition).mp h.rearmPrice, h.state⟩,
    fun ⟨hcondition, hfull, hstate⟩ => ⟨hcondition, (hrearm hcondition).mpr hfull, hstate⟩⟩

/-- A watch for falling prices with the hysteresis of the settings can fire again right after an
alert. -/
theorem canFire_iff_default :
    CanFire defaultContext ⟨.priceDown, 100, Settings.unset.defaultHysteresisPercent, 60⟩
      ⟨.belowThreshold, some 0⟩ 0 :=
  (canFire_iff defaultContext ⟨.priceDown, 100, Settings.unset.defaultHysteresisPercent, 60⟩
    ⟨.belowThreshold, some 0⟩ 0 (.inr ⟨rfl, 2, 0, by norm_num, by decide +kernel⟩) (by decide)
    Settings.unset.hysteresis_le).mpr (by decide)

/-- A watch for rising prices with a hysteresis of 100 percent is dead once it has alerted. -/
theorem not_canFire :
    ¬ ∀ (rule : ThresholdRule) (w : WatchState) (now : ℚ), 0 < rule.threshold →
      0 ≤ rule.hysteresisPercent → rule.hysteresisPercent ≤ 100 → 0 < rule.cooldownSeconds →
        rule.CanFire .exact w now := by
  intro h
  have hstuck : Stuck .exact ⟨.priceUp, 100, 100, 60⟩ ⟨.aboveThreshold, some 0⟩ :=
    ⟨rfl, by decide +kernel, rfl⟩
  exact hstuck.not_canFire 0 (h ⟨.priceUp, 100, 100, 60⟩ ⟨.aboveThreshold, some 0⟩ 0 (by decide)
    (by decide) (by decide) (by decide))

end ThresholdRule

end DonutMonitor
